import CdcKafka.Xact.Record

/-! What the parsers of commit and abort records return is what the writers were given. -/

namespace CdcKafka.Xact
open CdcKafka.Lib CdcKafka.Xlog

theorem hasFlag_zero (g : UInt32) : hasFlag 0 g = false := by simp [hasFlag]

theorem hasFlag_or (x y g : UInt32) : hasFlag (x ||| y) g = (hasFlag x g || hasFlag y g) := by
  have hdistrib : (x ||| y) &&& g = (x &&& g) ||| (y &&& g) := by
    apply UInt32.toNat_inj.mp
    simp only [UInt32.toNat_and, UInt32.toNat_or, Nat.and_or_distrib_right]
  rw [Bool.eq_iff_iff]
  simp only [hasFlag, hdistrib, bne_iff_ne, ne_eq, Bool.or_eq_true, UInt32.or_eq_zero_iff]
  tauto

theorem hasFlag_addFlag_other {flag g : UInt32} (h : hasFlag flag g = false) (p : Bool)
    (xinfo : UInt32) : hasFlag (addFlag p flag xinfo) g = hasFlag xinfo g := by
  cases p with
  | false => rfl
  | true => rw [addFlag, if_pos rfl, hasFlag_or, h, Bool.or_false]

theorem hasFlag_addFlag_same {flag g : UInt32} (h : hasFlag flag g = true) (p : Bool)
    (xinfo : UInt32) : hasFlag (addFlag p flag xinfo) g = (hasFlag xinfo g || p) := by
  cases p with
  | false => rw [Bool.or_false]; rfl
  | true => rw [addFlag, if_pos rfl, hasFlag_or, h]

theorem recordInfo_hasInfo {op : UInt8} (hop : op &&& xlogXactHasInfo = 0) (hasRels : Bool)
    (xinfo : UInt32) : (recordInfo op hasRels xinfo &&& xlogXactHasInfo != 0) = (xinfo != 0) := by
  have hinfo : ∀ op : UInt8, (op ||| xlogXactHasInfo) &&& xlogXactHasInfo ≠ 0 := by
    intro op h
    have hand := congrArg UInt8.toNat h
    simp only [UInt8.toNat_and, UInt8.toNat_or, Nat.and_or_distrib_right] at hand
    exact absurd (Nat.or_eq_zero_iff.mp hand).2 (by decide)
  have hrel : (op ||| xlrSpecialRelUpdate) &&& xlogXactHasInfo = 0 := by
    apply UInt8.toNat_inj.mp
    have hand := congrArg UInt8.toNat hop
    rw [UInt8.toNat_and] at hand
    simp only [UInt8.toNat_and, UInt8.toNat_or, Nat.and_or_distrib_right, hand]
    rfl
  unfold recordInfo
  by_cases hxinfo : xinfo = 0
  · cases hasRels with
    | false => simp [hxinfo, hop]
    | true => simp [hxinfo, hrel]
  · have hne : (xinfo != 0) = true := by simpa using hxinfo
    rw [if_pos hxinfo, hne]
    simpa using hinfo _

theorem registerArray_eq {α : Type} {l : CLayout α} (a : PallocArray l) :
    registerArray l a = l.countedBytes a.elems := by
  have hlen := l.length_flatMap_bytes a.elems
  have hmod : a.elems.length * l.size % 2 ^ 32 = a.elems.length * l.size :=
    Nat.mod_eq_of_lt (Nat.lt_of_le_of_lt a.fits (by decide))
  rw [registerArray, xLogRegisterData, hmod, ← hlen, List.take_length, CLayout.countedBytes]

theorem reads_array {α : Type} {l : CLayout α} (hl : 0 < l.size) (a : PallocArray l) :
    Reads (readPart (decide (a.elems ≠ [])) (readArray l) (0, []))
      (if decide (a.elems ≠ []) then registerArray l a else []) (a.elems.length, a.elems) := by
  have hbound : a.elems.length < CLayout.intBound := by
    have hle : a.elems.length ≤ a.elems.length * l.size := Nat.le_mul_of_pos_right _ hl
    exact Nat.lt_of_le_of_lt (hle.trans a.fits) (by decide)
  have hread := l.reads_counted ParseError.outside hbound
  rw [← registerArray_eq] at hread
  have hpart := reads_part (decide (a.elems ≠ [])) (0, []) fun _ => hread
  have hvalue : (if decide (a.elems ≠ []) then (a.elems.length, a.elems) else (0, [])) =
      (a.elems.length, a.elems) := by
    by_cases ha : a.elems = []
    · simp [ha]
    · simp [ha]
  rwa [hvalue] at hpart

theorem reads_gid (gid : Gid) : Reads (do
        let gid ← readString ParseError.outside
        pure (gid.bytes.take (gidSize - 1)))
      (xLogRegisterData (gid.str.bytes ++ [0]) (gid.str.bytes.length + 1)) gid.str.bytes := by
  have hlt := gid.lt_gidSize
  have hregister : xLogRegisterData (gid.str.bytes ++ [0]) (gid.str.bytes.length + 1) = gid.str.bytes ++ [0] := by
    have hmod : (gid.str.bytes.length + 1) % 2 ^ 32 = gid.str.bytes.length + 1 :=
      Nat.mod_eq_of_lt (by rw [gidSize] at hlt; omega)
    rw [xLogRegisterData, hmod]
    exact List.take_of_length_le (by simp)
  have htake : gid.str.bytes.take (gidSize - 1) = gid.str.bytes :=
    List.take_of_length_le (by omega)
  have hread := (reads_string ParseError.outside gid.str).map (f := fun gid : CStr => gid.bytes.take (gidSize - 1))
  rw [htake] at hread
  rwa [hregister]

theorem reads_twophase (args : XactArgs) (logical : Bool) :
    Reads (readPart args.isTwophase (readTwophase (args.isTwophase && logical)) (0, [])) (if args.isTwophase then
        CLayout.u32.bytes args.twophaseXid ++ (if args.isTwophase && logical then args.registerGid else [])
        else [])
      (args.twophaseXid, if args.isTwophase && logical then args.twophaseGid.str.bytes else []) := by
  have hgid := reads_part (args.isTwophase && logical) [] fun _ => reads_gid args.twophaseGid
  have hxid := CLayout.u32.reads ParseError.outside args.twophaseXid
  have hread := hxid.bind (f := fun xid => do
    let gid ← readPart (args.isTwophase && logical) (do
      let gid ← readString ParseError.outside
      pure (gid.bytes.take (gidSize - 1))) []
    pure (xid, gid)) hgid.map
  have hpart := reads_part args.isTwophase ((0, []) : UInt32 × Bytes) fun _ => hread
  have hvalue : (if args.isTwophase then (args.twophaseXid,
        if args.isTwophase && logical then args.twophaseGid.str.bytes else []) else (0, [])) =
      (args.twophaseXid, if args.isTwophase && logical then args.twophaseGid.str.bytes else []) := by
    by_cases hxid : args.twophaseXid = 0
    · have hnone : args.isTwophase = false := by simp [XactArgs.isTwophase, hxid]
      simp [hnone, hxid]
    · have hsome : args.isTwophase = true := by simp [XactArgs.isTwophase, hxid]
      simp [hsome]
  rwa [hvalue] at hpart

theorem reads_xinfo {op : UInt8} (hop : op &&& xlogXactHasInfo = 0) (hasRels : Bool) (xinfo : UInt32) :
    Reads (readPart (recordInfo op hasRels xinfo &&& xlogXactHasInfo != 0) (CLayout.u32.read ParseError.outside) 0)
      (if xinfo != 0 then CLayout.u32.bytes xinfo else []) xinfo := by
  rw [recordInfo_hasInfo hop]
  have hpart := reads_part (xinfo != 0) 0 fun _ => CLayout.u32.reads ParseError.outside xinfo
  have hvalue : (if xinfo != 0 then xinfo else 0) = xinfo := by
    by_cases hxinfo : xinfo = 0
    · simp [hxinfo]
    · simp [hxinfo]
  rwa [hvalue] at hpart

theorem reads_last {α β : Type} {r : Parser α} {f : α → β} {enc : Bytes} {a : α} {b : β}
    (h : Reads r enc a) (hb : f a = b) : Reads (r >>= fun x => pure (f x)) enc b := by
  rw [← hb]
  exact h.map

def parsedArgs (s : Session) (args : XactArgs) (xinfo : UInt32) (hasDbinfo : Bool) :
    XactParsedAbort where
  xactTime := args.xactTime
  xinfo := xinfo
  dbId := if hasDbinfo then s.myDatabaseId else 0
  tsId := if hasDbinfo then s.myDatabaseTableSpace else 0
  nsubxacts := args.subxacts.elems.length
  subxacts := args.subxacts.elems
  nrels := args.rels.elems.length
  xlocators := args.rels.elems
  nstats := args.droppedstats.elems.length
  stats := args.droppedstats.elems
  twophaseXid := args.twophaseXid
  twophaseGid := if args.isTwophase && s.xLogLogicalInfoActive then args.twophaseGid.str.bytes
    else []
  originLsn := if s.hasOrigin then s.replOriginSessionOriginLsn else 0
  originTimestamp := if s.hasOrigin then s.replOriginSessionOriginTimestamp else 0

def parsedCommit (s : Session) (args : CommitArgs) : XactParsedCommit where
  toXactParsedAbort := parsedArgs s args.toXactArgs (commitXinfo s args)
    (decide (args.msgs.elems ≠ []) || s.xLogLogicalInfoActive)
  nmsgs := args.msgs.elems.length
  msgs := args.msgs.elems

def parsedAbort (s : Session) (args : XactArgs) : XactParsedAbort :=
  parsedArgs s args (abortXinfo s args) (args.isTwophase && s.xLogLogicalInfoActive)

theorem commitXinfo_flags (s : Session) (args : CommitArgs) : hasFlag (commitXinfo s args) xactXinfoHasDbinfo =
      (decide (args.msgs.elems ≠ []) || s.xLogLogicalInfoActive) ∧
    hasFlag (commitXinfo s args) xactXinfoHasSubxacts = decide (args.subxacts.elems ≠ []) ∧
    hasFlag (commitXinfo s args) xactXinfoHasRelfilelocators = decide (args.rels.elems ≠ []) ∧
    hasFlag (commitXinfo s args) xactXinfoHasDroppedStats = decide (args.droppedstats.elems ≠ []) ∧
    hasFlag (commitXinfo s args) xactXinfoHasInvals = decide (args.msgs.elems ≠ []) ∧
    hasFlag (commitXinfo s args) xactXinfoHasTwophase = args.isTwophase ∧
    hasFlag (commitXinfo s args) xactXinfoHasGid = (args.isTwophase && s.xLogLogicalInfoActive) ∧
    hasFlag (commitXinfo s args) xactXinfoHasOrigin = s.hasOrigin := by
  refine ⟨?_, ?_, ?_, ?_, ?_, ?_, ?_, ?_⟩
  all_goals
    simp (disch := decide) only [commitXinfo, hasFlag_addFlag_same, hasFlag_addFlag_other, hasFlag_zero, Bool.false_or]

theorem reads_commitRecord (s : Session) (args : CommitArgs) :
    Reads (parseCommitRecord (xactLogCommitRecord s args).info) (xactLogCommitRecord s args).data
      (parsedCommit s args) := by
  have hop : (if args.isTwophase then xlogXactCommitPrepared else xlogXactCommit) &&&
      xlogXactHasInfo = 0 := by
    split <;> rfl
  obtain ⟨hdbinfo, hsubxacts, hrels, hstats, hinvals, htwophase, hgid, horigin⟩ :=
    commitXinfo_flags s args
  simp only [parseCommitRecord, xactLogCommitRecord, List.append_assoc]
  refine (CLayout.reads _ _ _).bind ?_
  refine (reads_xinfo hop _ _).bind ?_
  rw [hdbinfo, hsubxacts, hrels, hstats, hinvals, htwophase, hgid, horigin]
  refine (reads_part _ _ fun _ => CLayout.reads _ _ s.dbinfo).bind ?_
  refine (reads_array (by decide) args.subxacts).bind ?_
  refine (reads_array (by decide) args.rels).bind ?_
  refine (reads_array (by decide) args.droppedstats).bind ?_
  refine (reads_array (by decide) args.msgs).bind ?_
  refine (reads_twophase args.toXactArgs s.xLogLogicalInfoActive).bind ?_
  refine reads_last (reads_part _ _ fun _ => CLayout.reads _ _ s.origin) ?_
  simp only [parsedCommit, parsedArgs, apply_ite Prod.fst, apply_ite Prod.snd, Session.dbinfo, Session.origin]

theorem abortXinfo_flags (s : Session) (args : XactArgs) : hasFlag (abortXinfo s args) xactXinfoHasDbinfo =
      (args.isTwophase && s.xLogLogicalInfoActive) ∧
    hasFlag (abortXinfo s args) xactXinfoHasSubxacts = decide (args.subxacts.elems ≠ []) ∧
    hasFlag (abortXinfo s args) xactXinfoHasRelfilelocators = decide (args.rels.elems ≠ []) ∧
    hasFlag (abortXinfo s args) xactXinfoHasDroppedStats = decide (args.droppedstats.elems ≠ []) ∧
    hasFlag (abortXinfo s args) xactXinfoHasTwophase = args.isTwophase ∧
    hasFlag (abortXinfo s args) xactXinfoHasGid = (args.isTwophase && s.xLogLogicalInfoActive) ∧
    hasFlag (abortXinfo s args) xactXinfoHasOrigin = s.hasOrigin := by
  refine ⟨?_, ?_, ?_, ?_, ?_, ?_, ?_⟩
  all_goals
    simp (disch := decide) only [abortXinfo, hasFlag_addFlag_same, hasFlag_addFlag_other, hasFlag_zero, Bool.false_or]

theorem reads_abortRecord (s : Session) (args : XactArgs) :
    Reads (parseAbortRecord (xactLogAbortRecord s args).info) (xactLogAbortRecord s args).data
      (parsedAbort s args) := by
  have hop : (if args.isTwophase then xlogXactAbortPrepared else xlogXactAbort) &&&
      xlogXactHasInfo = 0 := by
    split <;> rfl
  obtain ⟨hdbinfo, hsubxacts, hrels, hstats, htwophase, hgid, horigin⟩ := abortXinfo_flags s args
  simp only [parseAbortRecord, xactLogAbortRecord, List.append_assoc]
  refine (CLayout.reads _ _ _).bind ?_
  refine (reads_xinfo hop _ _).bind ?_
  rw [hdbinfo, hsubxacts, hrels, hstats, htwophase, hgid, horigin]
  refine (reads_part _ _ fun _ => CLayout.reads _ _ s.dbinfo).bind ?_
  refine (reads_array (by decide) args.subxacts).bind ?_
  refine (reads_array (by decide) args.rels).bind ?_
  refine (reads_array (by decide) args.droppedstats).bind ?_
  refine (reads_twophase args s.xLogLogicalInfoActive).bind ?_
  refine reads_last (reads_part _ _ fun _ => CLayout.reads _ _ s.origin) ?_
  simp only [parsedAbort, parsedArgs, apply_ite Prod.fst, apply_ite Prod.snd, Session.dbinfo, Session.origin]

/-- Commit and abort records round trip: the parser returns what the writer was given, with zero or
nothing for what was not written, and stops where the record ends. -/
theorem xactRecords_roundTrip (s : Session) : (∀ args : CommitArgs,
      parseCommitRecord (xactLogCommitRecord s args).info (xactLogCommitRecord s args).data =
        .ok (parsedCommit s args, [])) ∧
      ∀ args : XactArgs, parseAbortRecord (xactLogAbortRecord s args).info (xactLogAbortRecord s args).data =
          .ok (parsedAbort s args, []) := by
  constructor
  · intro args
    have hread := reads_commitRecord s args []
    rwa [List.append_nil] at hread
  · intro args
    have hread := reads_abortRecord s args []
    rwa [List.append_nil] at hread

end CdcKafka.Xact
