import CdcKafka.Origin.Progress

/-! The checkpoint file of the origins, and what a whole run with restarts keeps. -/

namespace CdcKafka.Origin

open CdcKafka.Lib

variable {states pre post : List ReplicationState} {s t : ReplicationState} {node id : UInt16}

def restored (s : ReplicationState) : ReplicationState :=
  { ReplicationState.free with roident := s.roident, remoteLsn := s.remoteLsn }

@[simp] theorem length_onDisk (s : ReplicationState) : (onDisk s).length = 16 := by
  simp [onDisk]

theorem roident_onDisk (s : ReplicationState) : UInt16.ofNat (decodeLE ((onDisk s).take 2)) = s.roident := by
  have htake : (onDisk s).take 2 = encodeLE 2 s.roident.toNat := by
    rw [onDisk, List.append_assoc]
    exact List.take_left' (length_encodeLE 2 _)
  rw [htake, decodeLE_encodeLE s.roident.toNat_lt]
  simp

theorem remoteLsn_onDisk (s : ReplicationState) : UInt64.ofNat (decodeLE ((onDisk s).drop 8)) = s.remoteLsn := by
  have hdrop : (onDisk s).drop 8 = encodeLE 8 s.remoteLsn.toNat :=
    List.drop_left' (by simp)
  rw [hdrop, decodeLE_encodeLE s.remoteLsn.toNat_lt]
  simp

theorem readStates_records (crc : Bytes → UInt32) (saved pre : List ReplicationState) (done : Bytes) (free : Nat)
    (hfree : saved.length ≤ free) :
    readStates crc done (saved.flatMap onDisk ++ encodeLE 4 (crc (done ++ saved.flatMap onDisk)).toNat)
        (pre ++ fresh free) pre.length =
      .ok (pre ++ saved.map restored ++ fresh (free - saved.length)) := by
  induction saved generalizing pre done free with
  | nil =>
    have hchunk : (encodeLE 4 (crc done).toNat).take 16 = encodeLE 4 (crc done).toNat :=
      List.take_of_length_le (by simp)
    have hcrc : decodeLE (encodeLE 4 (crc done).toNat) = (crc done).toNat := decodeLE_encodeLE (crc done).toNat_lt
    rw [readStates]
    simp [hchunk, hcrc]
  | cons s saved ih =>
    obtain ⟨free, rfl⟩ : ∃ n, free = n + 1 := ⟨free - 1, by rw [List.length_cons] at hfree; omega⟩
    have hrest := ih (pre ++ [restored s]) (done ++ onDisk s) free (by rw [List.length_cons] at hfree; omega)
    rw [List.length_append, List.length_singleton] at hrest
    have hslots : (pre ++ fresh (free + 1)).modify pre.length
        (fun t => { t with roident := s.roident, remoteLsn := s.remoteLsn }) = pre ++ [restored s] ++ fresh free := by
      rw [fresh, List.replicate_succ, modify_middle, List.append_assoc]
      rfl
    rw [List.flatMap_cons, List.append_assoc, readStates]
    -- the next sixteen bytes are the record of `s`
    rw [List.take_left' (length_onDisk s), List.drop_left' (length_onDisk s)]
    simp only [length_onDisk, roident_onDisk, remoteLsn_onDisk, hslots]
    have hroom : pre.length ≠ (pre ++ fresh (free + 1)).length := by
      simp [fresh]
    rw [if_neg (by decide), dif_neg (by decide), if_neg hroom, ← List.append_assoc, hrest]
    simp

def loaded (states : List ReplicationState) : List ReplicationState :=
  let saved := states.filter fun s => s.roident ≠ 0
  saved.map restored ++ fresh (states.length - saved.length)

theorem startup_checkPoint (crc : Bytes → UInt32) (states : List ReplicationState) :
    startupReplicationOrigin crc (checkPointReplicationOrigin crc states) (fresh states.length) =
      .ok (loaded states) := by
  by_cases hempty : states.length = 0
  · rw [List.length_eq_zero_iff] at hempty
    subst hempty
    rfl
  · have hrecords := readStates_records crc (states.filter fun s => s.roident ≠ 0) [] magic states.length
      (List.length_filter_le _ _)
    have hlength : magic.length = 4 := by rw [magic, length_encodeLE]
    rw [checkPointReplicationOrigin, if_neg hempty, startupReplicationOrigin, if_neg (by simpa [fresh] using hempty)]
    simp only [List.append_assoc, List.take_left' hlength, List.drop_left' hlength]
    rw [if_neg (by simp [hlength]), if_neg (by simp)]
    exact hrecords

theorem find_loaded (states : List ReplicationState) (hid : id ≠ 0) :
    find (loaded states) id = (find states id).map restored := by
  have hfresh : find (fresh (states.length - (states.filter fun s => s.roident ≠ 0).length)) id = none := by
    refine find_none_iff.mpr fun s hs => ?_
    rw [List.eq_of_mem_replicate hs]
    exact hid.symm
  have hmap : (fun s : ReplicationState => decide (s.roident = id)) ∘ restored = fun s => decide (s.roident = id) := rfl
  have hused : ∀ s : ReplicationState,
      (decide (s.roident ≠ 0) = true ∧ decide (s.roident = id) = true) = (s.roident = id) := by
    intro s
    rw [decide_eq_true_iff, decide_eq_true_iff]
    exact propext ⟨And.right, fun hs => ⟨hs ▸ hid, hs⟩⟩
  rw [loaded, find, List.find?_append, ← find, ← find, hfresh, Option.or_none, find, List.find?_map, hmap,
    List.find?_filter]
  simp only [hused]
  rfl

theorem AtMostOnce.loaded (h : AtMostOnce states) : AtMostOnce (loaded states) := by
  rw [AtMostOnce, Origin.loaded, List.pairwise_append]
  refine ⟨?_, ?_, ?_⟩
  · rw [List.pairwise_map]
    exact h.sublist (List.filter_sublist)
  · refine List.pairwise_replicate.mpr (.inr fun _ => rfl)
  · intro a _ b hb heq
    rw [heq, List.eq_of_mem_replicate hb]
    rfl

/-- The events that may set an origin back: an advance with `go_backward`, its redo, and a drop. -/
def Event.MayLower (id : UInt16) : Event → Prop
  | .advance node _ _ _ goBackward _ => node = id ∧ goBackward = true
  | .redo (.set nodeId _ _ force) _ => nodeId = id ∧ force = true
  | .redo (.drop nodeId) _ => nodeId = id
  | .setAcquiredBy .. => False
  | .restart => False

theorem modify_cases (f : ReplicationState → ReplicationState) (states : List ReplicationState) (i : Nat) :
    states.modify i f = states ∨ ∃ pre s post, states = pre ++ s :: post ∧ states.modify i f = pre ++ f s :: post := by
  induction states generalizing i with
  | nil => exact .inl (List.modify_nil f i)
  | cons a states ih =>
    cases i with
    | zero => exact .inr ⟨[], a, states, rfl, rfl⟩
    | succ i =>
      rw [List.modify_succ_cons]
      rcases ih i with hsame | ⟨pre, s, post, hsplit, hresult⟩
      · exact .inl (by rw [hsame])
      · exact .inr ⟨a :: pre, s, post, by rw [hsplit]; rfl, by rw [hresult]; rfl⟩

theorem ReplicationState.advance_le (s : ReplicationState) (remoteCommit localCommit : UInt64) :
    s.remoteLsn ≤ (s.advance remoteCommit localCommit false).remoteLsn ∧
      s.localLsn ≤ (s.advance remoteCommit localCommit false).localLsn := by
  refine ⟨?_, ?_⟩
  · simp only [advance]
    split
    · next h => exact UInt64.le_of_lt (h.resolve_left (by decide))
    · exact UInt64.le_refl _
  · simp only [advance]
    split
    · next h => exact UInt64.le_of_lt (h.2.resolve_left (by decide))
    · exact UInt64.le_refl _

def NotBehind (states states' : List ReplicationState) (id : UInt16) : Prop :=
  ∀ s, find states id = some s → ∃ t, find states' id = some t ∧ s.remoteLsn ≤ t.remoteLsn ∧ s.localLsn ≤ t.localLsn

theorem NotBehind.of_find_eq {states states' : List ReplicationState} (h : find states' id = find states id) :
    NotBehind states states' id :=
  fun s hs => ⟨s, h.trans hs, UInt64.le_refl _, UInt64.le_refl _⟩

theorem notBehind_advance (h : AtMostOnce states) (valid : node ≠ 0) (remoteCommit localCommit : UInt64)
    {goBackward : Bool} (walLog : Bool) (hid : id ≠ 0) (hkeeps : node = id → goBackward = false) :
    NotBehind states (reploriginAdvance states node valid remoteCommit localCommit goBackward walLog).1 id := by
  rcases find_advance h valid remoteCommit localCommit goBackward walLog hid with
    hsame | ⟨rfl, s, hafter, hbefore⟩
  · exact .of_find_eq hsame
  · obtain rfl := hkeeps rfl
    intro u hu
    rcases hbefore with hnone | hsome
    · rw [hnone] at hu
      cases hu
    · obtain rfl : s = u := Option.some.inj (hsome.symm.trans hu)
      exact ⟨_, hafter, s.advance_le remoteCommit localCommit⟩

theorem notBehind_setAcquiredBy (i pid : Nat) :
    NotBehind states (states.modify i fun s => { s with acquiredBy := pid }) id := by
  rcases modify_cases (fun s => { s with acquiredBy := pid }) states i with hsame | ⟨pre, s, post, rfl, hresult⟩
  · exact .of_find_eq (by rw [hsame])
  · intro u hu
    rw [find_middle] at hu
    rw [hresult, find_middle]
    cases hpre : find pre id with
    | some v =>
      rw [hpre] at hu
      exact ⟨v, rfl, by rw [Option.some.inj hu]; exact ⟨UInt64.le_refl _, UInt64.le_refl _⟩⟩
    | none =>
      rw [hpre, Option.none_or] at hu
      rw [Option.none_or]
      by_cases hs : s.roident = id
      · rw [if_pos hs] at hu ⊢
        obtain rfl := Option.some.inj hu
        exact ⟨_, rfl, UInt64.le_refl _, UInt64.le_refl _⟩
      · rw [if_neg hs] at hu ⊢
        exact ⟨u, hu, UInt64.le_refl _, UInt64.le_refl _⟩

theorem AtMostOnce.setAcquiredBy (h : AtMostOnce states) (i pid : Nat) :
    AtMostOnce (states.modify i fun s => { s with acquiredBy := pid }) := by
  rcases modify_cases (fun s => { s with acquiredBy := pid }) states i with hsame | ⟨pre, s, post, rfl, hresult⟩
  · rw [hsame]
    exact h
  · rw [hresult]
    by_cases hs : s.roident = 0
    · exact h.clear hs
    · exact h.replace hs (h.others hs)

@[simp] theorem step_restart (crc : Bytes → UInt32) (states : List ReplicationState) :
    step crc states .restart = (loaded states, false) := by
  rw [step, startup_checkPoint]

theorem AtMostOnce.step (h : AtMostOnce states) (crc : Bytes → UInt32) (e : Event) :
    AtMostOnce (step crc states e).1 := by
  cases e with
  | advance node valid remoteCommit localCommit goBackward walLog =>
    exact h.advance valid remoteCommit localCommit goBackward walLog
  | redo record endRecPtr =>
    cases record with
    | set nodeId valid remoteLsn force => exact h.advance valid remoteLsn endRecPtr force false
    | drop nodeId => exact h.drop nodeId
  | setAcquiredBy i pid => exact h.setAcquiredBy i pid
  | restart =>
    rw [step_restart]
    exact h.loaded

theorem atMostOnce_run (crc : Bytes → UInt32) (n : Nat) (es : List Event) : AtMostOnce (run crc (fresh n) es) := by
  have hrun :
      ∀ (es : List Event) (states : List ReplicationState), AtMostOnce states → AtMostOnce (run crc states es) := by
    intro es
    induction es with
    | nil => exact fun _ h => h
    | cons e es ih => exact fun states h => ih _ (h.step crc e)
  exact hrun es _ (List.pairwise_replicate.mpr (.inr fun _ => rfl))

theorem step_error (crc : Bytes → UInt32) {e : Event} (h : (step crc states e).2 = true) :
    (step crc states e).1 = states := by
  cases e with
  | advance node valid remoteCommit localCommit goBackward walLog =>
    exact reploriginAdvance_error (Option.isSome_iff_ne_none.mp h)
  | redo record endRecPtr =>
    cases record with
    | set nodeId valid remoteLsn force => exact reploriginAdvance_error (Option.isSome_iff_ne_none.mp h)
    | drop nodeId => cases h
  | setAcquiredBy i pid => cases h
  | restart =>
    rw [step_restart] at h
    cases h

theorem notBehind_step (h : AtMostOnce states) (crc : Bytes → UInt32) {e : Event} (hid : id ≠ 0)
    (hkeeps : ¬ e.MayLower id) (hrestart : e ≠ .restart) : NotBehind states (step crc states e).1 id := by
  cases e with
  | advance node valid remoteCommit localCommit goBackward walLog =>
    refine notBehind_advance h valid remoteCommit localCommit walLog hid fun hnode => ?_
    exact Bool.eq_false_iff.mpr fun hback => hkeeps ⟨hnode, hback⟩
  | redo record endRecPtr =>
    cases record with
    | set nodeId valid remoteLsn force =>
      refine notBehind_advance h valid remoteLsn endRecPtr false hid fun hnode => ?_
      exact Bool.eq_false_iff.mpr fun hback => hkeeps ⟨hnode, hback⟩
    | drop nodeId => exact .of_find_eq (find_drop hid hkeeps)
  | setAcquiredBy i pid => exact notBehind_setAcquiredBy i pid
  | restart => exact absurd rfl hrestart

/-- Over every run with restarts: one slot for an origin; errors change no slot; the progress of
an origin goes back only by an advance with `go_backward` or a drop, its local part also by a
restart, which loads exactly the remote progress that was saved. -/
theorem origin_progress (crc : Bytes → UInt32) (n : Nat) (es : List Event) : AtMostOnce (run crc (fresh n) es) ∧
      (∀ e, (step crc (run crc (fresh n) es) e).2 = true →
        (step crc (run crc (fresh n) es) e).1 = run crc (fresh n) es) ∧
      (∀ e id, id ≠ 0 → ¬ e.MayLower id → e ≠ .restart →
        NotBehind (run crc (fresh n) es) (step crc (run crc (fresh n) es) e).1 id) ∧
      ∃ states, startupReplicationOrigin crc (checkPointReplicationOrigin crc (run crc (fresh n) es))
          (fresh (run crc (fresh n) es).length) = .ok states ∧
        (step crc (run crc (fresh n) es) .restart).1 = states ∧
        ∀ id, id ≠ 0 → (find states id).map (fun s => s.remoteLsn) =
          (find (run crc (fresh n) es) id).map fun s => s.remoteLsn := by
  have hreached := atMostOnce_run crc n es
  refine ⟨hreached, fun e => step_error crc, fun e id hid hkeeps => notBehind_step hreached crc hid hkeeps, ?_⟩
  refine ⟨_, startup_checkPoint crc _, by rw [step_restart], fun id hid => ?_⟩
  rw [find_loaded _ hid, Option.map_map]
  rfl

/-- An origin advanced to remote 5 and local 7 has local progress 0 after a restart. -/
theorem restart_forgets_local : ∃ (crc : Bytes → UInt32) (states : List ReplicationState) (e : Event) (id : UInt16),
      states = run crc (fresh 2) [.advance 1 (by decide) 5 7 false true] ∧ ¬ e.MayLower id ∧
        localLsn (step crc states e).1 id < localLsn states id := by
  refine ⟨fun _ => 0, _, .restart, 1, rfl, fun h => h, ?_⟩
  rw [step_restart]
  decide

end CdcKafka.Origin
