import CdcKafka.BlockRef.FileReader

/-! Which files a reader gets through without writing outside of its memory, whatever calls are made. -/

namespace CdcKafka.BlockRef

open CdcKafka.Lib CdcKafka.Xlog

variable (build : Build) (splits : Nat → Nat)

inductive Phase where
  | betweenRelations
  | inRelation
  | ended
deriving DecidableEq

structure Session where
  phase : Phase
  reader : BlockRefTableReader

inductive ReaderCall where
  | nextRelation (junk : Nat → UInt16)
  | getBlocks (nblocks : Nat)

namespace Session

/-- After `BlockRefTableReaderNextRelation`, `BlockRefTableReaderGetBlocks` is called until it returns 0. -/
def Documented (s : Session) : ReaderCall → Prop
  | .nextRelation _ => s.phase = .betweenRelations
  | .getBlocks nblocks => s.phase = .inRelation ∧ 0 < nblocks

def step (s : Session) : ReaderCall → Except Stop Session
  | .nextRelation junk =>
    (blockRefTableReaderNextRelation build splits junk s.reader).map fun (relation, reader) =>
      ⟨if relation.isSome then .inRelation else .ended, reader⟩
  | .getBlocks nblocks =>
    (blockRefTableReaderGetBlocks splits s.reader nblocks).map fun (blocks, reader) =>
      ⟨if blocks = [] then .betweenRelations else .inRelation, reader⟩

end Session

inductive Reached (file : Bytes) : Session → Prop
  | created {reader} (h : createBlockRefTableReader splits file = .ok reader) : Reached file ⟨.betweenRelations, reader⟩
  | called {s s' call} (h : Reached file s) (hcall : s.Documented call) (hstep : s.step build splits call = .ok s') :
      Reached file s'

/-- Behind the chunks of a relation fork, of which so many are left, unless one of them is too long for the memory it is
read into and the file goes on behind that. -/
def skipChunks (sizes : Nat → UInt16) : Nat → Nat → Bytes → Except Stop Bytes
  | 0, _, rest => .ok rest
  | left + 1, k, rest =>
    let length := 2 * (sizes k).toNat
    if 2 * maxEntriesPerChunk < min length rest.length then .error .overrun
    else if rest.length < length then .error (.error .endsUnexpectedly)
    else skipChunks sizes left (k + 1) (rest.drop length)

def skipRelation (junk : Nat → UInt16) (rest : Bytes) : Except Stop (Option Bytes) :=
  if rest.length < sizeOfSerializedEntry then .error (.error .endsUnexpectedly)
  else if rest.take sizeOfSerializedEntry = zentry then .ok none
  else
    let nchunks := (serializedEntry.ofBytes (rest.take sizeOfSerializedEntry)).nchunks.toNat
    let rest := rest.drop sizeOfSerializedEntry
    if build.palloc (2 * nchunks) then
      let length := intLength (2 * nchunks)
      if rest.length < length then .error (.error .endsUnexpectedly)
      else (skipChunks (wordsOver (rest.take length) junk) nchunks 0 (rest.drop length)).map some
    else .error .outOfMemory

theorem length_skipChunks {sizes : Nat → UInt16} {left k : Nat} {rest rest' : Bytes}
    (h : skipChunks sizes left k rest = .ok rest') : rest'.length ≤ rest.length := by
  induction left generalizing k rest with
  | zero =>
    rw [skipChunks] at h
    rw [Except.ok.inj h]
  | succ left ih =>
    rw [skipChunks] at h
    split at h
    · cases h
    · split at h
      · cases h
      · refine (ih h).trans ?_
        rw [List.length_drop]
        exact Nat.sub_le _ _

variable {build} in
theorem length_skipRelation {junk : Nat → UInt16} {rest rest' : Bytes}
    (h : skipRelation build junk rest = .ok (some rest')) : rest'.length < rest.length := by
  rw [skipRelation] at h
  split at h
  · cases h
  next hlong =>
  split at h
  · exact absurd (Except.ok.inj h).symm (Option.some_ne_none _)
  dsimp only at h
  split at h
  · split at h
    · cases h
    · cases hskip : skipChunks (wordsOver ((rest.drop sizeOfSerializedEntry).take _) junk) _ 0 _ with
      | error e =>
        rw [hskip] at h
        cases h
      | ok rest'' =>
        rw [hskip] at h
        have hle := length_skipChunks hskip
        have hsome : rest'' = rest' := Option.some_inj.mp (Except.ok.inj h)
        have hsize : sizeOfSerializedEntry = 24 := rfl
        rw [hsome, List.length_drop, List.length_drop] at hle
        omega
  · cases h

def RelationsFit (rest : Bytes) : Prop :=
  ∀ junk, match _h : skipRelation build junk rest with
    | .error e => e ≠ .overrun
    | .ok none => True
    | .ok (some rest') => RelationsFit rest'
termination_by rest.length
decreasing_by exact length_skipRelation _h

def FileFits (file : Bytes) : Prop :=
  file.length < 4 ∨ CLayout.u32.ofBytes (file.take 4) ≠ blockRefTableMagic ∨ RelationsFit build (file.drop 4)

def SkipFits : Except Stop Bytes → Prop
  | .error e => e ≠ .overrun
  | .ok rest => RelationsFit build rest

theorem relationsFit_iff (rest : Bytes) :
    RelationsFit build rest ↔ ∀ junk, skipRelation build junk rest ≠ .error .overrun ∧
      ∀ rest', skipRelation build junk rest = .ok (some rest') → RelationsFit build rest' := by
  rw [RelationsFit]
  apply forall_congr'
  intro junk
  split
  · next e he =>
    rw [he]
    refine ⟨fun h => ⟨fun heq => h (Except.error.inj heq), fun rest' heq => by cases heq⟩, fun h heq => h.1 (congrArg _ heq)⟩
  · next he =>
    rw [he]
    refine iff_of_true trivial ⟨fun heq => (by cases heq), fun rest' heq => absurd (Except.ok.inj heq).symm (Option.some_ne_none _)⟩
  · next rest' he =>
    rw [he]
    refine ⟨fun h => ⟨fun heq => (by cases heq), fun rest'' heq => ?_⟩, fun h => h.2 rest' rfl⟩
    exact Option.some_inj.mp (Except.ok.inj heq) ▸ h

theorem not_relationsFit_iff (rest : Bytes) :
    ¬RelationsFit build rest ↔ ∃ junk, skipRelation build junk rest = .error .overrun ∨
      ∃ rest', skipRelation build junk rest = .ok (some rest') ∧ ¬RelationsFit build rest' := by
  rw [relationsFit_iff, not_forall]
  apply exists_congr
  intro junk
  rw [not_and_or, not_not, not_forall]
  apply or_congr_right
  apply exists_congr
  intro rest'
  rw [Classical.not_imp]

variable {build} {splits}

theorem bmod_le_self (n m : Nat) : (n : Int).bmod m ≤ n := by
  have hmod : (n : Int) % (m : Int) ≤ n := by
    rw [← Int.natCast_mod]
    exact Int.ofNat_le.mpr (Nat.mod_le n m)
  rw [Int.bmod_def]
  split
  · exact hmod
  · omega

theorem intLength_le (size : Nat) : intLength size ≤ size := Int.toNat_le.mpr (bmod_le_self size _)

def BlockRefTableReader.skip (r : BlockRefTableReader) : Except Stop Bytes :=
  skipChunks r.chunkSize (r.totalChunks - r.consumedChunks) r.consumedChunks r.buffer.unread

theorem readChecksum_ne_overrun (b : ReadBuffer) : readChecksum splits b ≠ .error .overrun := by
  rw [readChecksum]
  rcases @read_cases splits 4 4 (Nat.le_refl 4) b with ⟨b', _, heq⟩ | heq
  · rw [heq, ok_bind]
    dsimp only
    split <;> simp
  · rw [heq]
    simp [bind, Except.bind]

theorem nextRelation_cases (junk : Nat → UInt16) (r : BlockRefTableReader) :
    ((∃ e, e ≠ Stop.overrun ∧ blockRefTableReaderNextRelation build splits junk r = .error e) ∧
      skipRelation build junk r.buffer.unread ≠ .error .overrun ∧
      ∀ rest', skipRelation build junk r.buffer.unread ≠ .ok (some rest')) ∨
    (∃ r', blockRefTableReaderNextRelation build splits junk r = .ok (none, r')) ∧
      skipRelation build junk r.buffer.unread = .ok none ∨
    ∃ relation r', blockRefTableReaderNextRelation build splits junk r = .ok (some relation, r') ∧ r'.consumedChunks = 0 ∧
      skipRelation build junk r.buffer.unread = r'.skip.map some := by
  rw [blockRefTableReaderNextRelation, skipRelation]
  by_cases hshort : r.buffer.unread.length < sizeOfSerializedEntry
  · refine .inl ⟨⟨.error .endsUnexpectedly, by decide, ?_⟩, ?_, fun rest' => ?_⟩
    · rw [read_ends (by omega) hshort]
      rfl
    · rw [if_pos hshort]
      decide
    · rw [if_pos hshort]
      exact fun h => by cases h
  obtain ⟨b₁, hadv₁, hread₁⟩ := @read_ok splits _ _ r.buffer (Nat.le_refl sizeOfSerializedEntry) (by omega)
  rw [hread₁, ok_bind, if_neg hshort]
  dsimp only
  by_cases hend : r.buffer.unread.take sizeOfSerializedEntry = zentry
  · rw [if_pos hend, if_pos hend]
    cases hsum : readChecksum splits b₁ with
    | error e =>
      refine .inl ⟨⟨e, fun heq => readChecksum_ne_overrun b₁ (heq ▸ hsum), rfl⟩, ?_, fun rest' h => ?_⟩
      · exact fun h => by cases h
      · exact Option.some_ne_none _ (Except.ok.inj h).symm
    | ok b₂ => exact .inr (.inl ⟨⟨_, rfl⟩, rfl⟩)
  rw [if_neg hend, if_neg hend, readChunkSizes, ← hadv₁.unread]
  obtain ⟨sentry, hsentry⟩ : ∃ s, s = serializedEntry.ofBytes (r.buffer.unread.take sizeOfSerializedEntry) := ⟨_, rfl⟩
  rw [← hsentry]
  by_cases halloc : build.palloc (2 * sentry.nchunks.toNat) = true
  · rw [if_pos halloc, if_pos halloc]
    by_cases hends : b₁.unread.length < intLength (2 * sentry.nchunks.toNat)
    · have hle := intLength_le (2 * sentry.nchunks.toNat)
      refine .inl ⟨⟨.error .endsUnexpectedly, by decide, ?_⟩, ?_, fun rest' => ?_⟩
      · rw [read_ends (by omega) hends]
        rfl
      · rw [if_pos hends]
        decide
      · rw [if_pos hends]
        exact fun h => by cases h
    · obtain ⟨b₂, hadv₂, hread₂⟩ := @read_ok splits _ _ b₁ (intLength_le (2 * sentry.nchunks.toNat)) (by omega)
      refine .inr (.inr ⟨(⟨sentry.rlocator, sentry.forknum⟩, sentry.limitBlock), ⟨b₂, sentry.nchunks.toNat, 0,
        wordsOver (b₁.unread.take (intLength (2 * sentry.nchunks.toNat))) junk, r.chunkData, r.chunkPosition⟩, ?_, rfl, ?_⟩)
      · rw [hread₂]
        dsimp only [Except.map]
      · rw [if_neg hends, BlockRefTableReader.skip, ← hadv₂.unread]
        dsimp only
        rw [Nat.sub_zero]
  · rw [if_neg halloc, if_neg halloc]
    exact .inl ⟨⟨.outOfMemory, by decide, rfl⟩, by decide, fun rest' h => by cases h⟩

theorem skip_readChunk {r r' : BlockRefTableReader} {left : Nat} (hleft : r.totalChunks - r.consumedChunks = left + 1)
    (h : readChunk splits r = .ok r') :
    r'.skip = r.skip ∧ r'.totalChunks = r.totalChunks ∧ r'.consumedChunks = r.consumedChunks + 1 := by
  rcases @readChunk_cases splits r with ⟨_, heq⟩ | ⟨_, _, heq⟩ | ⟨hall, hfits, buffer, hadv, heq⟩
  · rw [heq] at h
    cases h
  · rw [heq] at h
    cases h
  · rw [heq] at h
    have hr' := Except.ok.inj h
    subst hr'
    refine ⟨?_, rfl, rfl⟩
    rw [BlockRefTableReader.skip, BlockRefTableReader.skip, hleft, skipChunks, if_neg (by omega), if_neg (by omega),
      ← hadv.unread]
    dsimp only
    rw [(by omega : r.totalChunks - (r.consumedChunks + 1) = left)]

theorem skip_of_readChunk_error {r : BlockRefTableReader} {left : Nat} {e : Stop}
    (hleft : r.totalChunks - r.consumedChunks = left + 1) (h : readChunk splits r = .error e) : r.skip = .error e := by
  rw [BlockRefTableReader.skip, hleft, skipChunks]
  rcases @readChunk_cases splits r with ⟨hover, heq⟩ | ⟨hends, hfits, heq⟩ | ⟨_, _, buffer, _, heq⟩
  · rw [heq] at h
    rw [if_pos hover, Except.error.inj h]
  · rw [heq] at h
    rw [if_neg (by omega), if_pos hends, Except.error.inj h]
  · rw [heq] at h
    cases h

theorem getBlocksLoop_cases (nblocks left : Nat) (r : BlockRefTableReader) (blocks : List BlockNumber)
    (hleft : r.totalChunks - r.consumedChunks = left) (hle : r.consumedChunks ≤ r.totalChunks) :
    (∃ e, getBlocksLoop splits nblocks left r blocks = .error e ∧ r.skip = .error e) ∨
    ∃ blocks' r', getBlocksLoop splits nblocks left r blocks = .ok (blocks', r') ∧ r'.skip = r.skip ∧
      r'.consumedChunks ≤ r'.totalChunks ∧ blocks'.length ≤ blocks.length + blocksPerChunk * (left + 1) ∧
      (blocks'.length < nblocks → r'.consumedChunks = r'.totalChunks ∧ r'.current = []) := by
  induction left generalizing r blocks with
  | zero =>
    obtain ⟨position, hscan, hcurrent⟩ := scanChunk_eq nblocks r blocks
    have hlen := length_current_le r
    have hfull : (blocks ++ r.current.take (nblocks - blocks.length)).length ≤ blocks.length + blocksPerChunk * (0 + 1) := by
      rw [List.length_append, List.length_take]
      omega
    refine .inr ⟨blocks ++ r.current.take (nblocks - blocks.length), { r with chunkPosition := position }, ?_, rfl, hle, hfull, ?_⟩
    · rw [getBlocksLoop, hscan, ok_bind]
      dsimp only
      split <;> rfl
    · intro hroom
      refine ⟨by dsimp only; omega, ?_⟩
      rw [List.length_append, List.length_take] at hroom
      rw [hcurrent, List.drop_eq_nil_of_le (by omega)]
  | succ left ih =>
    obtain ⟨position, hscan, hcurrent⟩ := scanChunk_eq nblocks r blocks
    have hlen := length_current_le r
    rw [getBlocksLoop, hscan, ok_bind]
    dsimp only
    obtain ⟨found, hfound⟩ : ∃ found, found = blocks ++ r.current.take (nblocks - blocks.length) := ⟨_, rfl⟩
    have hfoundLen : found.length ≤ blocks.length + blocksPerChunk := by
      rw [hfound, List.length_append, List.length_take]
      omega
    rw [← hfound]
    by_cases hdone : nblocks ≤ found.length
    · rw [if_pos hdone]
      have hall : found.length ≤ blocks.length + blocksPerChunk * (left + 1 + 1) := by
        rw [Nat.mul_succ]
        omega
      exact .inr ⟨found, { r with chunkPosition := position }, rfl, rfl, hle, hall, fun hroom => absurd hdone (by omega)⟩
    · rw [if_neg hdone]
      cases hread : readChunk splits { r with chunkPosition := position } with
      | error e => exact .inl ⟨e, rfl, skip_of_readChunk_error hleft hread⟩
      | ok r₁ =>
        obtain ⟨hskip, htotal, hconsumed⟩ := skip_readChunk hleft hread
        rw [ok_bind]
        rcases ih r₁ found (by omega) (by omega) with ⟨e, heq, he⟩ | ⟨blocks', r', heq, hr', hle', hlen', hroom⟩
        · exact .inl ⟨e, heq, hskip.symm.trans he⟩
        · have hall : blocks'.length ≤ blocks.length + blocksPerChunk * (left + 1 + 1) := by
            rw [Nat.mul_succ]
            omega
          exact .inr ⟨blocks', r', heq, hr'.trans hskip, hle', hall, hroom⟩

theorem getBlocks_exhausted {r : BlockRefTableReader} (hall : r.consumedChunks = r.totalChunks) (hcurrent : r.current = [])
    (nblocks : Nat) : ∃ r', blockRefTableReaderGetBlocks splits r nblocks = .ok ([], r') ∧ r'.skip = r.skip ∧
      r'.consumedChunks = r'.totalChunks := by
  obtain ⟨position, hscan, _⟩ := scanChunk_eq nblocks r []
  rw [hcurrent, List.take_nil, List.append_nil] at hscan
  refine ⟨{ r with chunkPosition := position }, ?_, rfl, hall⟩
  rw [blockRefTableReaderGetBlocks, (by omega : r.totalChunks - r.consumedChunks = 0), getBlocksLoop, hscan, ok_bind]
  dsimp only
  split <;> rfl

theorem skip_consumed {r : BlockRefTableReader} (hall : r.consumedChunks = r.totalChunks) :
    r.skip = .ok r.buffer.unread := by
  rw [BlockRefTableReader.skip, (by omega : r.totalChunks - r.consumedChunks = 0), skipChunks]

variable (build) in
structure SessionFits (s : Session) : Prop where
  between : s.phase = .betweenRelations → s.reader.consumedChunks = s.reader.totalChunks ∧ RelationsFit build s.reader.buffer.unread
  inside : s.phase = .inRelation → s.reader.consumedChunks ≤ s.reader.totalChunks ∧ SkipFits build s.reader.skip

theorem SessionFits.step {s : Session} (h : SessionFits build s) {call : ReaderCall} (hcall : s.Documented call) :
    s.step build splits call ≠ .error .overrun ∧ ∀ s', s.step build splits call = .ok s' → SessionFits build s' := by
  cases call with
  | nextRelation junk =>
    obtain ⟨hall, hfits⟩ := h.between hcall
    obtain ⟨hskip, hrest⟩ := (relationsFit_iff build _).mp hfits junk
    rw [Session.step]
    rcases @nextRelation_cases build splits junk s.reader with
      ⟨⟨e, hne, heq⟩, _⟩ | ⟨⟨r', heq⟩, _⟩ | ⟨relation, r', heq, hconsumed, hskip'⟩
    · rw [heq]
      refine ⟨fun hover => hne (Except.error.inj hover), fun s' hs' => ?_⟩
      cases hs'
    · rw [heq]
      refine ⟨fun hover => (by cases hover), fun s' hs' => ?_⟩
      rw [← Except.ok.inj hs']
      exact ⟨fun hphase => (by cases hphase), fun hphase => (by cases hphase)⟩
    · rw [heq]
      refine ⟨fun hover => (by cases hover), fun s' hs' => ?_⟩
      rw [← Except.ok.inj hs']
      refine ⟨fun hphase => (by cases hphase), fun _ => ⟨?_, ?_⟩⟩
      · exact hconsumed ▸ Nat.zero_le _
      · rw [hskip'] at hskip hrest
        cases hr' : r'.skip with
        | error e =>
          rw [hr'] at hskip
          exact fun hover => hskip (congrArg _ hover)
        | ok rest' =>
          rw [hr'] at hrest
          exact hrest rest' rfl
  | getBlocks nblocks =>
    obtain ⟨hphase, hpos⟩ := hcall
    obtain ⟨hle, hfits⟩ := h.inside hphase
    rw [Session.step]
    rcases @getBlocksLoop_cases splits nblocks _ s.reader [] rfl hle with ⟨e, heq, he⟩ | ⟨blocks, r', heq, hskip, hle', _, hroom⟩
    · rw [blockRefTableReaderGetBlocks, heq]
      rw [he] at hfits
      refine ⟨fun hover => hfits (Except.error.inj hover), fun s' hs' => ?_⟩
      cases hs'
    · rw [blockRefTableReaderGetBlocks, heq]
      refine ⟨fun hover => (by cases hover), fun s' hs' => ?_⟩
      rw [← Except.ok.inj hs']
      refine ⟨fun hbetween => ?_, fun _ => ⟨hle', hskip ▸ hfits⟩⟩
      -- Nothing was found, so the chunks are used up.
      have hnone : blocks = [] := by
        by_contra hsome
        dsimp only at hbetween
        rw [if_neg hsome] at hbetween
        cases hbetween
      obtain ⟨hall, _⟩ := hroom (by rw [hnone]; exact hpos)
      refine ⟨hall, ?_⟩
      rw [← hskip, skip_consumed hall] at hfits
      exact hfits

theorem createReader_cases (file : Bytes) :
    ((∃ e, e ≠ Stop.overrun ∧ createBlockRefTableReader splits file = .error e) ∧
      (file.length < 4 ∨ CLayout.u32.ofBytes (file.take 4) ≠ blockRefTableMagic)) ∨
    ∃ r, createBlockRefTableReader splits file = .ok r ∧ r.consumedChunks = r.totalChunks ∧
      r.buffer.unread = file.drop 4 ∧ 4 ≤ file.length ∧ CLayout.u32.ofBytes (file.take 4) = blockRefTableMagic := by
  have hunread : (ReadBuffer.init file).unread = file := rfl
  rw [createBlockRefTableReader]
  by_cases hshort : file.length < 4
  · refine .inl ⟨⟨.error .endsUnexpectedly, by decide, ?_⟩, .inl hshort⟩
    rw [read_ends (by rw [hunread]; omega) (by rw [hunread]; exact hshort)]
    rfl
  obtain ⟨b', hadv, heq⟩ := @read_ok splits 4 4 (ReadBuffer.init file) (Nat.le_refl 4) (by rw [hunread]; omega)
  rw [heq, ok_bind, hunread]
  dsimp only
  by_cases hmagic : CLayout.u32.ofBytes (file.take 4) ≠ blockRefTableMagic
  · rw [if_pos hmagic]
    exact .inl ⟨⟨_, fun hover => (by cases hover), rfl⟩, .inr hmagic⟩
  · rw [if_neg hmagic]
    exact .inr ⟨_, rfl, rfl, hadv.unread, by omega, not_not.mp hmagic⟩

theorem Reached.fits {file : Bytes} {s : Session} (h : Reached build splits file s) (hfile : FileFits build file) :
    SessionFits build s := by
  induction h with
  | created hcreate =>
    rcases @createReader_cases splits file with ⟨⟨e, _, heq⟩, _⟩ | ⟨r, heq, hall, hunread, hlong, hmagic⟩
    · rw [heq] at hcreate
      cases hcreate
    · rw [heq] at hcreate
      rw [← Except.ok.inj hcreate]
      refine ⟨fun _ => ⟨hall, ?_⟩, fun hphase => by cases hphase⟩
      rcases hfile with hshort | hwrong | hfits
      · omega
      · exact absurd hmagic hwrong
      · rw [hunread]
        exact hfits
  | called _ hcall hstep ih => exact (ih.step hcall).2 _ hstep

theorem exists_overrun {file rest : Bytes} (hrest : ¬RelationsFit build rest) {r : BlockRefTableReader}
    (hr : Reached build splits file ⟨.betweenRelations, r⟩) (hunread : r.buffer.unread = rest) :
    ∃ s call, Reached build splits file s ∧ s.Documented call ∧ s.step build splits call = .error .overrun := by
  induction hn : rest.length using Nat.strong_induction_on generalizing rest r with
  | h n ih =>
    obtain ⟨junk, hskip⟩ := (not_relationsFit_iff build rest).mp hrest
    rw [← hunread] at hskip
    rcases @nextRelation_cases build splits junk r with ⟨_, hne, hnone⟩ | ⟨_, hend⟩ | ⟨relation, r₁, heq, hconsumed, hskip₁⟩
    · rcases hskip with hover | ⟨rest', hrest', _⟩
      · exact absurd hover hne
      · exact absurd hrest' (hnone rest')
    · rw [hend] at hskip
      rcases hskip with hover | ⟨rest', hrest', _⟩
      · cases hover
      · exact absurd (Except.ok.inj hrest').symm (Option.some_ne_none _)
    -- The whole of the relation fork is asked for.
    have hstep₁ : Session.step build splits ⟨.betweenRelations, r⟩ (.nextRelation junk) = .ok ⟨.inRelation, r₁⟩ := by
      rw [Session.step, heq]
      rfl
    have hnext : Session.Documented ⟨.betweenRelations, r⟩ (.nextRelation junk) := rfl
    have hreached₁ := hr.called hnext hstep₁
    obtain ⟨nblocks, hnblocks⟩ : ∃ n, n = blocksPerChunk * (r₁.totalChunks + 1) + 1 := ⟨_, rfl⟩
    have hdocumented : Session.Documented ⟨.inRelation, r₁⟩ (.getBlocks nblocks) := ⟨rfl, by omega⟩
    rw [hskip₁] at hskip
    rcases @getBlocksLoop_cases splits nblocks _ r₁ [] rfl (by omega) with
      ⟨e, hloop, he⟩ | ⟨blocks, r₂, hloop, hskip₂, hle₂, hlen, hroom⟩
    · rw [he] at hskip
      rcases hskip with hover | ⟨rest', hrest', _⟩
      · refine ⟨_, _, hreached₁, hdocumented, ?_⟩
        rw [Session.step, blockRefTableReaderGetBlocks, hloop, Except.error.inj hover]
        rfl
      · cases hrest'
    · rw [hconsumed, Nat.sub_zero, List.length_nil, Nat.zero_add] at hlen
      obtain ⟨hall, hcurrent⟩ := hroom (by omega)
      rw [← hskip₂, skip_consumed hall] at hskip
      rcases hskip with hover | ⟨rest', hrest', hnot⟩
      · cases hover
      have hunread₂ : r₂.buffer.unread = rest' := Option.some_inj.mp (Except.ok.inj hrest')
      have hshorter : rest'.length < n := by
        have hlen' := @length_skipRelation build junk r.buffer.unread rest' (by
          rw [hskip₁, ← hskip₂, skip_consumed hall, hunread₂]
          rfl)
        rw [hunread, hn] at hlen'
        exact hlen'
      have hstep₂ : Session.step build splits ⟨.inRelation, r₁⟩ (.getBlocks nblocks) =
          .ok ⟨if blocks = [] then .betweenRelations else .inRelation, r₂⟩ := by
        rw [Session.step, blockRefTableReaderGetBlocks, hloop]
        rfl
      have hreached₂ := hreached₁.called hdocumented hstep₂
      by_cases hnone : blocks = []
      · rw [if_pos hnone] at hreached₂
        exact ih _ hshorter hnot hreached₂ hunread₂ rfl
      · rw [if_neg hnone] at hreached₂
        obtain ⟨r₃, hget, hskip₃, hall₃⟩ := @getBlocks_exhausted splits r₂ hall hcurrent 1
        have hstep₃ : Session.step build splits ⟨.inRelation, r₂⟩ (.getBlocks 1) = .ok ⟨.betweenRelations, r₃⟩ := by
          rw [Session.step, hget]
          rfl
        have hunread₃ : r₃.buffer.unread = rest' := by
          rw [skip_consumed hall₃, skip_consumed hall, hunread₂] at hskip₃
          exact Except.ok.inj hskip₃
        have hagain : Session.Documented ⟨.inRelation, r₂⟩ (.getBlocks 1) := ⟨rfl, Nat.one_pos⟩
        exact ih _ hshorter hnot (hreached₂.called hagain hstep₃) hunread₃ rfl

theorem overrun_of_not_fits {file : Bytes} (hfile : ¬FileFits build file) :
    ∃ s call, Reached build splits file s ∧ s.Documented call ∧ s.step build splits call = .error .overrun := by
  rw [FileFits, not_or, not_or, not_not] at hfile
  obtain ⟨hlong, hmagic, hrest⟩ := hfile
  rcases @createReader_cases splits file with ⟨_, hshort | hwrong⟩ | ⟨r, heq, _, hunread, _⟩
  · exact absurd hshort hlong
  · exact absurd hmagic hwrong
  · exact exists_overrun hrest (.created heq) hunread

variable (build splits) in
/-- A reader keeps inside its memory in every run over a file if and only if the file has no chunk that is too long. -/
theorem reader_in_bounds_iff (file : Bytes) :
    (createBlockRefTableReader splits file ≠ .error .overrun ∧ ∀ s, Reached build splits file s →
      ∀ call, s.Documented call → s.step build splits call ≠ .error .overrun) ↔ FileFits build file := by
  refine ⟨fun ⟨_, hruns⟩ => ?_, fun hfile => ⟨fun hover => ?_, fun s hs call hcall => ?_⟩⟩
  · by_contra hnot
    obtain ⟨s, call, hs, hcall, hover⟩ := @overrun_of_not_fits build splits file hnot
    exact hruns s hs call hcall hover
  · rcases @createReader_cases splits file with ⟨⟨e, hne, heq⟩, _⟩ | ⟨r, heq, _⟩
    · rw [heq] at hover
      exact hne (Except.error.inj hover)
    · rw [heq] at hover
      cases hover
  · exact ((hs.fits hfile).step hcall).1

def longChunkEntry : BlockRefTableSerializedEntry := ⟨⟨1663, 5, 16384⟩, 0, 0xFFFFFFFF, 1⟩

def longChunkFile : Bytes :=
  CLayout.u32.bytes blockRefTableMagic ++
    (serializedEntry.bytes longChunkEntry ++ (CLayout.u16.bytes 4097 ++ List.replicate 8194 0))

theorem skipRelation_longChunk (build : Build) : skipRelation build (fun _ => 0)
      (serializedEntry.bytes longChunkEntry ++ (CLayout.u16.bytes 4097 ++ List.replicate 8194 0)) = .error .overrun := by
  have hheader : (serializedEntry.bytes longChunkEntry).length = sizeOfSerializedEntry := serializedEntry.length_bytes _
  have hsizes : (CLayout.u16.bytes 4097).length = 2 := CLayout.u16.length_bytes _
  have hnonzero : serializedEntry.bytes longChunkEntry ≠ zentry := by decide
  have hpalloc : build.palloc (2 * 1) = true := by cases build <;> decide
  have hint : intLength (2 * 1) = 2 := by decide
  have hone : (serializedEntry.ofBytes (serializedEntry.bytes longChunkEntry)).nchunks.toNat = 1 := by
    rw [serializedEntry.ofBytes_bytes]
    rfl
  have hword : (wordsOver (CLayout.u16.bytes 4097) (fun _ => 0) 0).toNat = 4097 := by decide
  have hlength : (List.replicate 8194 (0 : UInt8)).length = 8194 := List.length_replicate
  have hmax : maxEntriesPerChunk = 4096 := by decide
  rw [skipRelation, List.take_left' hheader, List.drop_left' hheader, hone,
    if_neg (by rw [List.length_append, hheader]; omega), if_neg hnonzero]
  dsimp only
  rw [if_pos hpalloc, hint, List.take_left' hsizes, List.drop_left' hsizes,
    if_neg (by rw [List.length_append, hsizes]; omega), skipChunks, hword, hlength, if_pos (by omega)]
  rfl

theorem long_chunk_overruns : ∃ s call, Reached .backend (fun _ => 0) longChunkFile s ∧ s.Documented call ∧
      s.step .backend (fun _ => 0) call = .error .overrun := by
  apply overrun_of_not_fits
  have hmagic : (CLayout.u32.bytes blockRefTableMagic).length = 4 := CLayout.u32.length_bytes _
  rw [FileFits, longChunkFile, List.take_left' hmagic, List.drop_left' hmagic, CLayout.u32.ofBytes_bytes, not_or, not_or,
    not_not]
  refine ⟨?_, rfl, (not_relationsFit_iff _ _).mpr ⟨fun _ => 0, .inl (skipRelation_longChunk _)⟩⟩
  rw [List.length_append, hmagic]
  omega

end CdcKafka.BlockRef
