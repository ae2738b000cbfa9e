import CdcKafka.Lib.Wire

/-! `replication/logical/origin.c`: how far each remote node has been replayed, in a fixed array in shared memory
that is saved in a file at every checkpoint. -/

namespace CdcKafka.Origin

open CdcKafka.Lib

structure ReplicationState where
  roident : UInt16
  remoteLsn : UInt64
  localLsn : UInt64
  /-- The PID of the backend that uses the slot, or zero. -/
  acquiredBy : Nat
deriving DecidableEq

def ReplicationState.free : ReplicationState := ⟨0, 0, 0, 0⟩

def doNotReplicateId : UInt16 := 0xffff

inductive Error
  /-- "replication origin with ID %d is already active for PID %d" -/
  | objectInUse (roident : UInt16) (pid : Nat)
  /-- "could not find free replication state slot for replication origin with ID %d" -/
  | noFreeState (node : UInt16)
deriving DecidableEq

inductive WalRecord
  | set (nodeId : UInt16) (valid : nodeId ≠ 0) (remoteLsn : UInt64) (force : Bool)
  | drop (nodeId : UInt16)

def search (node : UInt16) : List ReplicationState → Nat → Option Nat → Option Nat × Option Nat
  | [], _, free => (none, free)
  | s :: states, i, free =>
    if s.roident = 0 ∧ free = none then search node states (i + 1) (some i)
    else if s.roident ≠ node then search node states (i + 1) free
    else (some i, free)

def ReplicationState.advance (s : ReplicationState) (remoteCommit localCommit : UInt64) (goBackward : Bool) :
    ReplicationState :=
  { s with
    remoteLsn := if goBackward = true ∨ s.remoteLsn < remoteCommit then remoteCommit else s.remoteLsn
    localLsn :=
      if localCommit ≠ 0 ∧ (goBackward = true ∨ s.localLsn < localCommit) then localCommit else s.localLsn }

/-- The slots afterwards, the WAL record that was inserted, and the error that was raised. The
origin is not `InvalidRepOriginId`. -/
def reploriginAdvance (states : List ReplicationState) (node : UInt16) (_valid : node ≠ 0)
    (remoteCommit localCommit : UInt64) (goBackward walLog : Bool) :
    List ReplicationState × Option WalRecord × Option Error :=
  let record := if walLog then some (.set node _valid remoteCommit goBackward) else none
  if node = doNotReplicateId then (states, none, none)
  else
    match search node states 0 none with
    | (some i, _) =>
      let s := states.getD i .free
      if s.acquiredBy ≠ 0 then (states, none, some (.objectInUse s.roident s.acquiredBy))
      else (states.modify i fun s => s.advance remoteCommit localCommit goBackward, record, none)
    | (none, none) => (states, none, some (.noFreeState node))
    | (none, some i) =>
      let states := states.modify i fun s => { s with roident := node }
      (states.modify i fun s => s.advance remoteCommit localCommit goBackward, record, none)

def dropOrigin (nodeId : UInt16) : List ReplicationState → List ReplicationState
  | [] => []
  | s :: states =>
    if s.roident = nodeId then { s with roident := 0, remoteLsn := 0, localLsn := 0 } :: states
    else s :: dropOrigin nodeId states

def reploriginRedo (states : List ReplicationState) (record : WalRecord) (endRecPtr : UInt64) :
    List ReplicationState × Option Error :=
  match record with
  | .set nodeId valid remoteLsn force =>
    let r := reploriginAdvance states nodeId valid remoteLsn endRecPtr force false
    (r.1, r.2.2)
  | .drop nodeId => (dropOrigin nodeId states, none)

/-- `REPLICATION_STATE_MAGIC`, as it stands in the file. -/
def magic : Bytes := encodeLE 4 0x1257DADE

def onDisk (s : ReplicationState) : Bytes :=
  encodeLE 2 s.roident.toNat ++ List.replicate 6 0 ++ encodeLE 8 s.remoteLsn.toNat

def checkPointReplicationOrigin (crc : Bytes → UInt32) (states : List ReplicationState) : Option Bytes :=
  if states.length = 0 then none
  else
    let data := magic ++ (states.filter fun s => s.roident ≠ 0).flatMap onDisk
    some (data ++ encodeLE 4 (crc data).toNat)

inductive Panic
  | shortMagic
  | wrongMagic
  | shortState
  | noFreeState
  | wrongChecksum
deriving DecidableEq

/-- The records of the file, told from the checksum by the length that is read. `done` is what
the checksum covers so far. -/
def readStates (crc : Bytes → UInt32) (done : Bytes) (data : Bytes) (states : List ReplicationState)
    (lastState : Nat) : Except Panic (List ReplicationState) :=
  let chunk := data.take 16
  if chunk.length = 4 then
    if decodeLE chunk ≠ (crc done).toNat then .error .wrongChecksum else .ok states
  else if h : chunk.length ≠ 16 then .error .shortState
  else if lastState = states.length then .error .noFreeState
  else
    let roident := UInt16.ofNat (decodeLE (chunk.take 2))
    let remoteLsn := UInt64.ofNat (decodeLE (chunk.drop 8))
    let states := states.modify lastState fun s => { s with roident := roident, remoteLsn := remoteLsn }
    readStates crc (done ++ chunk) (data.drop 16) states (lastState + 1)
termination_by data.length
decreasing_by
  simp only [chunk, List.length_take, ne_eq, not_not] at h
  rw [List.length_drop]
  omega

def startupReplicationOrigin (crc : Bytes → UInt32) (file : Option Bytes) (states : List ReplicationState) :
    Except Panic (List ReplicationState) :=
  if states.length = 0 then .ok states
  else
    match file with
    | none => .ok states
    | some data =>
      if (data.take 4).length ≠ 4 then .error .shortMagic
      else if data.take 4 ≠ magic then .error .wrongMagic
      else readStates crc (data.take 4) (data.drop 4) states 0

inductive Event
  | advance (node : UInt16) (valid : node ≠ 0) (remoteCommit localCommit : UInt64) (goBackward walLog : Bool)
  | redo (record : WalRecord) (endRecPtr : UInt64)
  /-- A backend sets up or resets its session's origin. -/
  | setAcquiredBy (i : Nat) (pid : Nat)
  | restart

def fresh (maxActiveReplicationOrigins : Nat) : List ReplicationState :=
  List.replicate maxActiveReplicationOrigins .free

def step (crc : Bytes → UInt32) (states : List ReplicationState) : Event → List ReplicationState × Bool
  | .advance node valid remoteCommit localCommit goBackward walLog =>
    let r := reploriginAdvance states node valid remoteCommit localCommit goBackward walLog
    (r.1, r.2.2.isSome)
  | .redo record endRecPtr =>
    let r := reploriginRedo states record endRecPtr
    (r.1, r.2.isSome)
  | .setAcquiredBy i pid => (states.modify i fun s => { s with acquiredBy := pid }, false)
  | .restart =>
    match startupReplicationOrigin crc (checkPointReplicationOrigin crc states) (fresh states.length) with
    | .ok states => (states, false)
    | .error _ => ([], false)

def run (crc : Bytes → UInt32) (states : List ReplicationState) (es : List Event) : List ReplicationState :=
  es.foldl (fun states e => (step crc states e).1) states

end CdcKafka.Origin

/-! What the slots of the origins say over a run: one slot for an origin, progress that only
grows, errors that change nothing, and a checkpoint file that is read back as it was written. -/

namespace CdcKafka.Origin

open CdcKafka.Lib

variable {states pre post : List ReplicationState} {s t : ReplicationState} {node id : UInt16}

def find (states : List ReplicationState) (id : UInt16) : Option ReplicationState :=
  states.find? fun s => s.roident = id

def localLsn (states : List ReplicationState) (id : UInt16) : UInt64 :=
  ((find states id).map fun s => s.localLsn).getD 0

def AtMostOnce (states : List ReplicationState) : Prop :=
  states.Pairwise fun a b => a.roident = b.roident → a.roident = 0

theorem modify_middle (pre post : List ReplicationState) (s : ReplicationState)
    (f : ReplicationState → ReplicationState) :
    (pre ++ s :: post).modify pre.length f = pre ++ f s :: post := by
  induction pre with
  | nil => rfl
  | cons a pre ih => rw [List.cons_append, List.length_cons, List.modify_succ_cons, ih, List.cons_append]

theorem getD_middle (pre post : List ReplicationState) (s d : ReplicationState) :
    (pre ++ s :: post).getD pre.length d = s := by
  simp

theorem find_middle (pre post : List ReplicationState) (s : ReplicationState) (id : UInt16) :
    find (pre ++ s :: post) id = (find pre id).or (if s.roident = id then some s else find post id) := by
  rw [find, List.find?_append, List.find?_cons]
  by_cases hs : s.roident = id
  · simp [hs, find]
  · simp [hs, find]

theorem find_none_iff : find states id = none ↔ ∀ s ∈ states, s.roident ≠ id := by
  simp [find]

theorem AtMostOnce.replace (h : AtMostOnce (pre ++ s :: post)) (ht : t.roident ≠ 0)
    (hnew : ∀ u ∈ pre ++ post, u.roident ≠ t.roident) : AtMostOnce (pre ++ t :: post) := by
  rw [AtMostOnce, List.pairwise_append, List.pairwise_cons] at h ⊢
  obtain ⟨hpre, ⟨-, hpost⟩, hcross⟩ := h
  refine ⟨hpre, ⟨fun u hu heq => ?_, hpost⟩, fun u hu v hv heq => ?_⟩
  · exact absurd heq.symm (hnew u (List.mem_append_right pre hu))
  · rcases List.mem_cons.mp hv with rfl | hv
    · exact absurd heq (hnew u (List.mem_append_left post hu))
    · exact hcross u hu v (List.mem_cons_of_mem s hv) heq

theorem AtMostOnce.clear (h : AtMostOnce (pre ++ s :: post)) (ht : t.roident = 0) : AtMostOnce (pre ++ t :: post) := by
  rw [AtMostOnce, List.pairwise_append, List.pairwise_cons] at h ⊢
  obtain ⟨hpre, ⟨-, hpost⟩, hcross⟩ := h
  refine ⟨hpre, ⟨fun _ _ _ => ht, hpost⟩, fun u hu v hv heq => ?_⟩
  rcases List.mem_cons.mp hv with rfl | hv
  · exact heq.trans ht
  · exact hcross u hu v (List.mem_cons_of_mem s hv) heq

theorem AtMostOnce.others (h : AtMostOnce (pre ++ s :: post)) (hs : s.roident ≠ 0) :
    ∀ u ∈ pre ++ post, u.roident ≠ s.roident := by
  rw [AtMostOnce, List.pairwise_append, List.pairwise_cons] at h
  obtain ⟨-, ⟨htail, -⟩, hcross⟩ := h
  intro u hu heq
  rcases List.mem_append.mp hu with hu | hu
  · exact hs (heq ▸ hcross u hu s List.mem_cons_self heq)
  · exact hs (htail u hu heq.symm)

theorem find_replace (hnew : ∀ u ∈ pre ++ post, u.roident ≠ t.roident)
    (hs : s.roident = t.roident ∨ s.roident = 0) (hid : id ≠ 0) :
    find (pre ++ t :: post) id = if t.roident = id then some t else find (pre ++ s :: post) id := by
  rw [find_middle, find_middle]
  by_cases heq : t.roident = id
  · have hnone : find pre id = none :=
      find_none_iff.mpr fun u hu => heq ▸ hnew u (List.mem_append_left post hu)
    rw [if_pos heq, if_pos heq, hnone]
    rfl
  · have hne : s.roident ≠ id := by
      rcases hs with hs | hs
      · rwa [hs]
      · rw [hs]
        exact hid.symm
    rw [if_neg heq, if_neg heq, if_neg hne]

theorem search_spec (node : UInt16) (hnode : node ≠ 0) (states : List ReplicationState) (i : Nat) :
    (∃ pre s post free, states = pre ++ s :: post ∧ s.roident = node ∧
        search node states i none = (some (i + pre.length), free)) ∨
      (find states node = none ∧ (search node states i none = (none, none) ∨
          ∃ pre s post, states = pre ++ s :: post ∧ s.roident = 0 ∧
            search node states i none = (none, some (i + pre.length)))) := by
  have hfound : ∀ (states : List ReplicationState) (i j : Nat),
      (∃ pre s post, states = pre ++ s :: post ∧ s.roident = node ∧
          search node states i (some j) = (some (i + pre.length), some j)) ∨
        (find states node = none ∧ search node states i (some j) = (none, some j)) := by
    intro states
    induction states with
    | nil => exact fun i j => .inr ⟨rfl, rfl⟩
    | cons a states ih =>
      intro i j
      by_cases ha : a.roident = node
      · refine .inl ⟨[], a, states, rfl, ha, ?_⟩
        simp [search, ha]
      · have hskip : search node (a :: states) i (some j) = search node states (i + 1) (some j) := by
          simp [search, ha]
        rw [hskip]
        rcases ih (i + 1) j with ⟨pre, s, post, rfl, hs, hsearch⟩ | ⟨hnone, hsearch⟩
        · refine .inl ⟨a :: pre, s, post, rfl, hs, ?_⟩
          rw [hsearch, List.length_cons]
          congr 2
          omega
        · refine .inr ⟨?_, hsearch⟩
          simp [find, ha] at hnone ⊢
          exact hnone
  induction states generalizing i with
  | nil => exact .inr ⟨rfl, .inl rfl⟩
  | cons a states ih =>
    by_cases hzero : a.roident = 0
    · -- the first free slot is remembered
      have ha : a.roident ≠ node := hzero ▸ hnode.symm
      have hskip : search node (a :: states) i none = search node states (i + 1) (some i) := by
        simp [search, hzero]
      rw [hskip]
      rcases hfound states (i + 1) i with ⟨pre, s, post, rfl, hs, hsearch⟩ | ⟨hnone, hsearch⟩
      · refine .inl ⟨a :: pre, s, post, some i, rfl, hs, ?_⟩
        rw [hsearch, List.length_cons]
        congr 2
        omega
      · refine .inr ⟨?_, .inr ⟨[], a, states, rfl, hzero, hsearch⟩⟩
        simp [find, ha] at hnone ⊢
        exact hnone
    · by_cases ha : a.roident = node
      · refine .inl ⟨[], a, states, none, rfl, ha, ?_⟩
        simp [search, ha, hnode]
      · have hskip : search node (a :: states) i none = search node states (i + 1) none := by
          simp [search, ha, hzero]
        rw [hskip]
        rcases ih (i + 1) with ⟨pre, s, post, free, rfl, hs, hsearch⟩ | ⟨hnone, hrest⟩
        · refine .inl ⟨a :: pre, s, post, free, rfl, hs, ?_⟩
          rw [hsearch, List.length_cons]
          congr 2
          omega
        · refine .inr ⟨?_, ?_⟩
          · simp [find, ha] at hnone ⊢
            exact hnone
          · rcases hrest with hsearch | ⟨pre, s, post, rfl, hs, hsearch⟩
            · exact .inl hsearch
            · refine .inr ⟨a :: pre, s, post, rfl, hs, ?_⟩
              rw [hsearch, List.length_cons]
              congr 2
              omega

theorem reploriginAdvance_cases (states : List ReplicationState) (node : UInt16) (valid : node ≠ 0)
    (remoteCommit localCommit : UInt64) (goBackward walLog : Bool) :
    (reploriginAdvance states node valid remoteCommit localCommit goBackward walLog).1 = states ∨
      (reploriginAdvance states node valid remoteCommit localCommit goBackward walLog).2.2 = none ∧
        ∃ pre s post, states = pre ++ s :: post ∧
          (reploriginAdvance states node valid remoteCommit localCommit goBackward walLog).1 =
            pre ++ { s with roident := node }.advance remoteCommit localCommit goBackward :: post ∧
          (s.roident = node ∨ s.roident = 0 ∧ find states node = none) := by
  by_cases hdont : node = doNotReplicateId
  · exact .inl (by rw [reploriginAdvance, if_pos hdont])
  · rw [reploriginAdvance, if_neg hdont]
    rcases search_spec node valid states 0 with
      ⟨pre, s, post, free, rfl, hs, hsearch⟩ | ⟨hnone, hsearch | ⟨pre, s, post, rfl, hs, hsearch⟩⟩
    · have hself : { s with roident := node } = s := by rw [← hs]
      rw [hsearch, Nat.zero_add]
      dsimp only
      rw [getD_middle, modify_middle]
      by_cases hacquired : s.acquiredBy = 0
      · rw [if_neg (not_not.mpr hacquired)]
        exact .inr ⟨rfl, pre, s, post, rfl, by rw [hself], .inl hs⟩
      · rw [if_pos hacquired]
        exact .inl rfl
    · rw [hsearch]
      exact .inl rfl
    · rw [hsearch, Nat.zero_add]
      dsimp only
      rw [modify_middle, modify_middle]
      exact .inr ⟨rfl, pre, s, post, rfl, rfl, .inr ⟨hs, hnone⟩⟩

theorem reploriginAdvance_error {states : List ReplicationState} {valid : node ≠ 0}
    {remoteCommit localCommit : UInt64} {goBackward walLog : Bool}
    (h : (reploriginAdvance states node valid remoteCommit localCommit goBackward walLog).2.2 ≠ none) :
    (reploriginAdvance states node valid remoteCommit localCommit goBackward walLog).1 = states := by
  rcases reploriginAdvance_cases states node valid remoteCommit localCommit goBackward walLog with
    hsame | ⟨hnone, -⟩
  · exact hsame
  · exact absurd hnone h

theorem alone_of_target (h : AtMostOnce (pre ++ s :: post)) (hnode : node ≠ 0)
    (hs : s.roident = node ∨ s.roident = 0 ∧ find (pre ++ s :: post) node = none) :
    ∀ u ∈ pre ++ post, u.roident ≠ node := by
  intro u hu
  rcases hs with hs | ⟨-, hnone⟩
  · exact hs ▸ h.others (hs ▸ hnode) u hu
  · refine find_none_iff.mp hnone u ?_
    rcases List.mem_append.mp hu with hu | hu
    · exact List.mem_append_left _ hu
    · exact List.mem_append_right _ (List.mem_cons_of_mem s hu)

theorem AtMostOnce.advance (h : AtMostOnce states) (valid : node ≠ 0) (remoteCommit localCommit : UInt64)
    (goBackward walLog : Bool) :
    AtMostOnce (reploriginAdvance states node valid remoteCommit localCommit goBackward walLog).1 := by
  rcases reploriginAdvance_cases states node valid remoteCommit localCommit goBackward walLog with
    hsame | ⟨-, pre, s, post, rfl, hresult, hs⟩
  · rw [hsame]
    exact h
  · rw [hresult]
    exact h.replace valid (alone_of_target h valid hs)

theorem find_advance (h : AtMostOnce states) (valid : node ≠ 0) (remoteCommit localCommit : UInt64)
    (goBackward walLog : Bool) (hid : id ≠ 0) :
    find (reploriginAdvance states node valid remoteCommit localCommit goBackward walLog).1 id = find states id ∨
      node = id ∧ ∃ s, find (reploriginAdvance states node valid remoteCommit localCommit goBackward walLog).1 id =
          some (s.advance remoteCommit localCommit goBackward) ∧
        (find states id = none ∨ find states id = some s) := by
  rcases reploriginAdvance_cases states node valid remoteCommit localCommit goBackward walLog with
    hsame | ⟨-, pre, s, post, rfl, hresult, hs⟩
  · rw [hsame]
    exact .inl rfl
  · have halone := alone_of_target h valid hs
    have hfind := find_replace (t := { s with roident := node }.advance remoteCommit localCommit goBackward)
      halone (hs.imp (fun h => h) And.left) hid
    rw [hresult, hfind]
    split
    · next heq =>
      obtain rfl : node = id := heq
      refine .inr ⟨rfl, _, rfl, ?_⟩
      rcases hs with hs | ⟨-, hnone⟩
      · refine .inr ?_
        have hself := find_replace (t := s) (fun u hu => hs ▸ halone u hu) (.inl rfl) hid
        rw [if_pos hs] at hself
        rw [hself, ← hs]
      · exact .inl hnone
    · exact .inl rfl

theorem dropOrigin_cases (nodeId : UInt16) (states : List ReplicationState) :
    dropOrigin nodeId states = states ∨ ∃ pre s post, states = pre ++ s :: post ∧ s.roident = nodeId ∧
      dropOrigin nodeId states = pre ++ { s with roident := 0, remoteLsn := 0, localLsn := 0 } :: post := by
  induction states with
  | nil => exact .inl rfl
  | cons a states ih =>
    by_cases ha : a.roident = nodeId
    · refine .inr ⟨[], a, states, rfl, ha, ?_⟩
      rw [dropOrigin, if_pos ha]
      rfl
    · rw [dropOrigin, if_neg ha]
      rcases ih with hsame | ⟨pre, s, post, rfl, hs, hresult⟩
      · rw [hsame]
        exact .inl rfl
      · rw [hresult]
        exact .inr ⟨a :: pre, s, post, rfl, hs, rfl⟩

theorem AtMostOnce.drop (h : AtMostOnce states) (nodeId : UInt16) : AtMostOnce (dropOrigin nodeId states) := by
  rcases dropOrigin_cases nodeId states with hsame | ⟨pre, s, post, rfl, -, hresult⟩
  · rw [hsame]
    exact h
  · rw [hresult]
    exact h.clear rfl

theorem find_drop {nodeId : UInt16} (hid : id ≠ 0) (hne : nodeId ≠ id) :
    find (dropOrigin nodeId states) id = find states id := by
  rcases dropOrigin_cases nodeId states with hsame | ⟨pre, s, post, rfl, hs, hresult⟩
  · rw [hsame]
  · rw [hresult, find_middle, find_middle, if_neg hid.symm, if_neg (hs ▸ hne)]

end CdcKafka.Origin
