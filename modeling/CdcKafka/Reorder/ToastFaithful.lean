import CdcKafka.Reorder.Toast

/-! Which toasted columns are put together faithfully: the chunks are collected since the last reset,
and a value comes out as the concatenation of its chunks exactly if none of them has a short header
and it fits the datum that is allocated for it. -/

namespace CdcKafka.Reorder.Toast
open CdcKafka.Lib

def chunksOf (chunks : List ToastTuple) (valueid : UInt32) : List ToastTuple :=
  chunks.filter fun t => t.chunkId = valueid

def assembled (chunks : List ToastTuple) (valueid : UInt32) : Bytes :=
  (chunksOf chunks valueid).flatMap fun t => t.chunk.payload

def expected (chunks : List ToastTuple) (c : Column) : Installed :=
  match c.toastPointer with
  | none => .kept c.datum
  | some ptr =>
    if chunksOf chunks ptr.vaValueid = [] then .kept c.datum
    else .indirect ptr.isCompressed (assembled chunks ptr.vaValueid)

structure Window where
  pending : Option TupleChange
  chunks : List ToastTuple

def Window.tuple (w : Window) (change : TupleChange) : Window where
  pending := none
  chunks :=
    match change.body with
    | .toastInsert newtuple => w.chunks ++ [newtuple]
    | .user _ => if change.clearToastAfterwards then [] else w.chunks
    | .notDecoded => w.chunks
    | .toastOther => w.chunks

def Window.step (w : Window) : Change → Window
  | .tuple change => w.tuple change
  | .specInsert change => { w with pending := some change }
  | .specConfirm => (w.pending.map w.tuple).getD w
  | .specAbort => if w.pending.isSome then ⟨none, []⟩ else w
  | .other => w

def sinceReset (changes : List Change) : List ToastTuple :=
  (changes.foldl Window.step ⟨none, []⟩).chunks

def Faithful (toastHash : Option ToastHash) (chunks : List ToastTuple) (row : Row) : Prop :=
  reorderBufferToastReplace toastHash (some row) = .ok (some (row.map (expected chunks))) ∧
    ∀ valueid ent, (toastHash.bind fun h => h valueid) = some ent → ent.size = (assembled chunks valueid).length

def Stitchable (chunks : List ToastTuple) (row : Row) : Prop :=
  ∀ c ∈ row, ∀ ptr, c.toastPointer = some ptr → chunksOf chunks ptr.vaValueid ≠ [] →
    (∀ t ∈ chunksOf chunks ptr.vaValueid, t.chunk.IsFull) ∧
      varHdrSz + (assembled chunks ptr.vaValueid).length ≤ ptr.vaRawsize

theorem Chunk.IsFull.varSize_eq {chunk : Chunk} (h : chunk.IsFull) :
    varSize chunk.bytes = chunk.bytes.length ∧ varHdrSz ≤ chunk.bytes.length := chunk.full h

theorem Chunk.IsFull.payload_eq {chunk : Chunk} (h : chunk.IsFull) : chunk.payload = chunk.bytes.drop varHdrSz := by
  have hbit : varattIs4BU chunk.bytes = true := h
  rw [payload, if_pos hbit]

theorem Chunk.length_payload_short {chunk : Chunk} (hshort : varattIsShort chunk.bytes = true)
    (hfull : ¬ chunk.IsFull) : chunk.payload.length + 1 = chunk.bytes.length := by
  have hone := (chunk.short hshort).2
  have hnot : varattIs4BU chunk.bytes = false := by simpa [IsFull] using hfull
  rw [payload, hnot, List.length_drop]
  simp only [Bool.false_eq_true, if_false]
  have hhdr : varHdrSzShort = 1 := rfl
  omega

theorem chunkSize_eq {chunk : Chunk} {size : Nat} (h : chunkSize chunk = .ok size) :
    size = chunk.payload.length ∧ (chunk.IsFull ∨ varattIsShort chunk.bytes = true) := by
  unfold chunkSize at h
  split at h
  · next hfull =>
    have hsize := Chunk.IsFull.varSize_eq hfull
    cases h
    refine ⟨?_, .inl hfull⟩
    rw [Chunk.IsFull.payload_eq hfull, List.length_drop, hsize.1]
  · next hfull =>
    split at h
    · next hshort =>
      have hlen := Chunk.length_payload_short hshort hfull
      have hsize := chunk.short hshort
      cases h
      refine ⟨?_, .inr hshort⟩
      have hhdr : varHdrSzShort = 1 := rfl
      omega
    · cases h

theorem stitch_full {vaRawsize : Nat} (chunks : List ToastTuple) (done : Bytes) (hfull : ∀ t ∈ chunks, t.chunk.IsFull)
    (hroom : varHdrSz + (done ++ chunks.flatMap fun t => t.chunk.payload).length ≤ vaRawsize) :
    stitch vaRawsize done chunks = .ok (done ++ chunks.flatMap fun t => t.chunk.payload) := by
  induction chunks generalizing done with
  | nil => rw [stitch, List.flatMap_nil, List.append_nil]
  | cons t chunks ih =>
    have ht : t.chunk.IsFull := hfull t (by simp)
    obtain ⟨hsize, hlen⟩ := ht.varSize_eq
    have hpayload := ht.payload_eq
    have hcopy : (t.chunk.bytes.drop varHdrSz).take (varSize t.chunk.bytes - varHdrSz) = t.chunk.payload := by
      rw [hpayload]
      apply List.take_of_length_le
      rw [List.length_drop, hsize]
    have hlength : t.chunk.payload.length = t.chunk.bytes.length - varHdrSz := by
      rw [hpayload, List.length_drop]
    rw [List.flatMap_cons, ← List.append_assoc] at hroom ⊢
    rw [stitch, if_neg (by omega), if_neg]
    · rw [hcopy]
      exact ih (done ++ t.chunk.payload) (fun t ht => hfull t (List.mem_cons_of_mem _ ht)) hroom
    · rw [List.length_append, List.length_append] at hroom
      omega

theorem stitch_length {vaRawsize : Nat} {chunks : List ToastTuple} {done data : Bytes}
    (hkind : ∀ t ∈ chunks, t.chunk.IsFull ∨ varattIsShort t.chunk.bytes = true)
    (h : stitch vaRawsize done chunks = .ok data) :
    data.length ≤ (done ++ chunks.flatMap fun t => t.chunk.payload).length ∧
      (data.length = (done ++ chunks.flatMap fun t => t.chunk.payload).length → ∀ t ∈ chunks, t.chunk.IsFull) ∧
      (chunks ≠ [] → varHdrSz + data.length ≤ vaRawsize) := by
  induction chunks generalizing done with
  | nil =>
    cases h
    simp
  | cons t chunks ih =>
    rw [stitch] at h
    split at h
    · cases h
    · next hinside =>
      split at h
      · cases h
      · next hroom =>
        obtain ⟨hle, hfull, hfits⟩ := ih (fun t ht => hkind t (List.mem_cons_of_mem _ ht)) h
        have hcopied : ((t.chunk.bytes.drop varHdrSz).take
            (varSize t.chunk.bytes - varHdrSz)).length = varSize t.chunk.bytes - varHdrSz := by
          rw [List.length_take, List.length_drop]
          omega
        -- the last copy is the one that has to fit
        have hroom' : varHdrSz + data.length ≤ vaRawsize := by
          by_cases hnil : chunks = []
          · subst hnil
            rw [stitch] at h
            cases h
            rw [List.length_append, hcopied]
            omega
          · exact hfits hnil
        rw [List.flatMap_cons]
        simp only [List.length_append, hcopied] at hle hfull ⊢
        have hhdr : varHdrSz = 4 := rfl
        by_cases ht : t.chunk.IsFull
        · have hsize := ht.varSize_eq
          have hlength : t.chunk.payload.length = t.chunk.bytes.length - varHdrSz := by
            rw [ht.payload_eq, List.length_drop]
          refine ⟨by omega, fun hdata t' ht' => ?_, fun _ => hroom'⟩
          rcases List.mem_cons.mp ht' with rfl | ht'
          · exact ht
          · exact hfull (by omega) t' ht'
        · have hshort : varattIsShort t.chunk.bytes = true := (hkind t (by simp)).resolve_left ht
          have hlength := Chunk.length_payload_short hshort ht
          exact ⟨by omega, fun hdata => by omega, fun _ => hroom'⟩

def entOf (chunks : List ToastTuple) : Option ToastEnt :=
  chunks.getLast?.map fun t =>
    { lastChunkSeq := t.chunkSeq
      numChunks := chunks.length
      size := (chunks.flatMap fun t => t.chunk.payload).length
      chunks }

theorem entOf_append (chunks : List ToastTuple) (t : ToastTuple) : entOf (chunks ++ [t]) = some
      { lastChunkSeq := t.chunkSeq
        numChunks := chunks.length + 1
        size := (chunks.flatMap fun t => t.chunk.payload).length + t.chunk.payload.length
        chunks := chunks ++ [t] } := by
  simp [entOf]

theorem chunksOf_append (chunks : List ToastTuple) (t : ToastTuple) (valueid : UInt32) :
    chunksOf (chunks ++ [t]) valueid =
      if t.chunkId = valueid then chunksOf chunks valueid ++ [t] else chunksOf chunks valueid := by
  rw [chunksOf, List.filter_append]
  by_cases ht : t.chunkId = valueid
  · rw [if_pos ht, List.filter_cons_of_pos (by simpa using ht)]
    rfl
  · rw [if_neg ht, List.filter_cons_of_neg (by simpa using ht)]
    exact List.append_nil _

def InOrder (chunks : List ToastTuple) : Prop :=
  chunks.map (fun t => t.chunkSeq) = (List.range chunks.length).map Int32.ofNat

theorem InOrder.append {chunks : List ToastTuple} (h : InOrder chunks) {t : ToastTuple}
    (ht : t.chunkSeq = Int32.ofNat chunks.length) : InOrder (chunks ++ [t]) := by
  unfold InOrder at h ⊢
  rw [List.map_append, h, List.length_append, List.length_singleton, List.range_succ,
    List.map_append, List.map_singleton, List.map_singleton, ht]

theorem InOrder.last {chunks : List ToastTuple} (h : InOrder chunks) {t : ToastTuple}
    (ht : chunks.getLast? = some t) : t.chunkSeq + 1 = Int32.ofNat chunks.length := by
  obtain ⟨front, rfl⟩ := List.getLast?_eq_some_iff.mp ht
  unfold InOrder at h
  rw [List.map_append, List.length_append, List.length_singleton, List.range_succ, List.map_append] at h
  have hlast := (List.append_inj' h rfl).2
  have hseq : t.chunkSeq = Int32.ofNat front.length := by simpa using hlast
  rw [hseq, List.length_append, List.length_singleton, Int32.ofNat_add]
  rfl

structure Holds (toastHash : Option ToastHash) (chunks : List ToastTuple) : Prop where
  empty : toastHash = none ↔ chunks = []
  ent : ∀ valueid, (toastHash.bind fun h => h valueid) = entOf (chunksOf chunks valueid)
  kind : ∀ t ∈ chunks, t.chunk.IsFull ∨ varattIsShort t.chunk.bytes = true
  inOrder : ∀ valueid, InOrder (chunksOf chunks valueid)

theorem Holds.nil : Holds none [] where
  empty := by simp
  ent := fun _ => rfl
  kind := by simp
  inOrder := fun _ => rfl

theorem findEnt_ok {toastHash : ToastHash} {newtup : ToastTuple} {ent : ToastEnt}
    {chunks : List ToastTuple} (hent : toastHash newtup.chunkId = entOf chunks)
    (horder : InOrder chunks) (h : findEnt toastHash newtup = .ok ent) :
    ent.numChunks = chunks.length ∧ ent.size = (chunks.flatMap fun t => t.chunk.payload).length ∧ ent.chunks = chunks ∧
      newtup.chunkSeq = Int32.ofNat chunks.length := by
  unfold findEnt at h
  rw [hent] at h
  cases hlast : chunks.getLast? with
  | none =>
    have hnil : chunks = [] := List.getLast?_eq_none_iff.mp hlast
    subst hnil
    simp only [entOf, List.getLast?_nil, Option.map_none] at h
    split at h
    · cases h
    · next hseq =>
      cases h
      exact ⟨rfl, rfl, rfl, not_not.mp hseq⟩
  | some t =>
    simp only [entOf, hlast, Option.map_some] at h
    split at h
    · cases h
    · next hseq =>
      cases h
      exact ⟨rfl, rfl, rfl, (not_not.mp hseq).trans (horder.last hlast)⟩

theorem Holds.append {toastHash : Option ToastHash} {chunks : List ToastTuple}
    (hholds : Holds toastHash chunks) {newtup : ToastTuple} {toastHash' : ToastHash}
    (h : reorderBufferToastAppendChunk toastHash newtup = .ok toastHash') :
    Holds (some toastHash') (chunks ++ [newtup]) := by
  obtain ⟨ent, hfind, hrest⟩ := bind_eq_ok.mp h
  obtain ⟨size, hsize, hupdate⟩ := bind_eq_ok.mp hrest
  have hold : ∀ valueid, (toastHash.getD fun _ => none) valueid = entOf (chunksOf chunks valueid) := by
    intro valueid
    rw [← hholds.ent valueid]
    cases toastHash <;> rfl
  obtain ⟨hnum, hlen, hchunks, hseq⟩ :=
    findEnt_ok (hold newtup.chunkId) (hholds.inOrder newtup.chunkId) hfind
  obtain ⟨hpayload, hkind⟩ := chunkSize_eq hsize
  have hnew := (Except.ok.inj hupdate).symm
  refine ⟨by simp, fun valueid => ?_, ?_, fun valueid => ?_⟩
  · rw [chunksOf_append]
    change toastHash' valueid = _
    by_cases hid : newtup.chunkId = valueid
    · subst hid
      rw [if_pos rfl, entOf_append, hnew, Function.update_self, hnum, hlen, hchunks, hpayload]
    · rw [if_neg hid, hnew, Function.update_of_ne (Ne.symm hid), hold]
  · intro t ht
    rcases List.mem_append.mp ht with ht | ht
    · exact hholds.kind t ht
    · rw [List.mem_singleton.mp ht]
      exact hkind
  · rw [chunksOf_append]
    by_cases hid : newtup.chunkId = valueid
    · subst hid
      rw [if_pos rfl]
      exact (hholds.inOrder _).append hseq
    · rw [if_neg hid]
      exact hholds.inOrder valueid

theorem replaceColumn_iff {toastHash : ToastHash} {chunks : List ToastTuple}
    (hholds : Holds (some toastHash) chunks) (c : Column) :
    replaceColumn toastHash c = .ok (expected chunks c) ↔ Stitchable chunks [c] := by
  have hsingle : Stitchable chunks [c] ↔ ∀ ptr, c.toastPointer = some ptr → chunksOf chunks ptr.vaValueid ≠ [] →
        (∀ t ∈ chunksOf chunks ptr.vaValueid, t.chunk.IsFull) ∧
          varHdrSz + (assembled chunks ptr.vaValueid).length ≤ ptr.vaRawsize := by
    simp only [Stitchable, List.mem_singleton, forall_eq]
  rw [hsingle]
  unfold replaceColumn expected
  cases hptr : c.toastPointer with
  | none => simp
  | some ptr =>
    have hent : toastHash ptr.vaValueid = entOf (chunksOf chunks ptr.vaValueid) :=
      hholds.ent ptr.vaValueid
    simp only [hent, Option.some.injEq, forall_eq']
    by_cases hnil : chunksOf chunks ptr.vaValueid = []
    · simp [hnil, entOf]
    · have hkind : ∀ t ∈ chunksOf chunks ptr.vaValueid, t.chunk.IsFull ∨ varattIsShort t.chunk.bytes = true :=
        fun t ht => hholds.kind t (List.mem_filter.mp ht).1
      obtain ⟨last, hlast⟩ := Option.ne_none_iff_exists'.mp (fun hnone => hnil (List.getLast?_eq_none_iff.mp hnone))
      simp only [entOf, hlast, Option.map_some, if_neg hnil]
      constructor
      · intro h _
        obtain ⟨data, hstitch, hdata⟩ := bind_eq_ok.mp h
        have hdata' : data = assembled chunks ptr.vaValueid := by
          have hinstalled := Except.ok.inj hdata
          simpa using hinstalled
        obtain ⟨-, hfull, hfits⟩ := stitch_length hkind hstitch
        rw [hdata'] at hfull hfits
        exact ⟨hfull rfl, hfits hnil⟩
      · intro h
        obtain ⟨hfull, hfits⟩ := h hnil
        rw [stitch_full _ [] hfull hfits]
        rfl

theorem replaceColumns_iff {toastHash : ToastHash} {chunks : List ToastTuple}
    (hholds : Holds (some toastHash) chunks) (row : Row) :
    replaceColumns toastHash row = .ok (row.map (expected chunks)) ↔ Stitchable chunks row := by
  induction row with
  | nil => simp [replaceColumns, Stitchable]
  | cons c row ih =>
    have hcons : Stitchable chunks (c :: row) ↔ Stitchable chunks [c] ∧ Stitchable chunks row := by
      simp [Stitchable]
    rw [hcons, ← replaceColumn_iff hholds, ← ih, replaceColumns, List.map_cons]
    constructor
    · intro h
      obtain ⟨installed, hcolumn, hrest⟩ := bind_eq_ok.mp h
      obtain ⟨rest, hcolumns, hlist⟩ := bind_eq_ok.mp hrest
      obtain ⟨rfl, rfl⟩ := List.cons.inj (Except.ok.inj hlist)
      exact ⟨hcolumn, hcolumns⟩
    · rintro ⟨hcolumn, hcolumns⟩
      rw [hcolumn, ok_bind, hcolumns]
      rfl

theorem expected_nil (row : Row) : row.map (expected []) = keepRow row := by
  apply List.map_congr_left
  intro c _
  unfold expected
  split
  · rfl
  · rfl

theorem Holds.faithful_iff {toastHash : Option ToastHash} {chunks : List ToastTuple}
    (hholds : Holds toastHash chunks) (row : Row) :
    Faithful toastHash chunks row ↔ Stitchable chunks row := by
  have hsizes : ∀ valueid ent, (toastHash.bind fun h => h valueid) = some ent →
      ent.size = (assembled chunks valueid).length := by
    intro valueid ent hent
    rw [hholds.ent valueid] at hent
    obtain ⟨last, -, rfl⟩ := Option.map_eq_some_iff.mp hent
    rfl
  rw [Faithful, and_iff_left hsizes]
  cases toastHash with
  | none =>
    have hnil : chunks = [] := hholds.empty.mp rfl
    subst hnil
    simp [reorderBufferToastReplace, expected_nil, Stitchable, chunksOf]
  | some toastHash =>
    rw [← replaceColumns_iff hholds, reorderBufferToastReplace]
    constructor
    · intro h
      obtain ⟨installed, hcolumns, hrow⟩ := bind_eq_ok.mp h
      rw [hcolumns]
      simpa using hrow
    · intro h
      rw [h]
      rfl

structure Reflects (st : ToastState) (w : Window) : Prop where
  pending : st.specinsert = w.pending
  holds : Holds st.toastHash w.chunks

theorem Reflects.tuple {st st' : ToastState} {w : Window} (h : Reflects st w)
    {change : TupleChange} (hstep : processTuple st change = .ok st') :
    Reflects st' (w.tuple change) := by
  obtain ⟨body, clearToastAfterwards⟩ := change
  cases body with
  | notDecoded =>
    cases hstep
    exact ⟨rfl, h.holds⟩
  | toastOther =>
    cases hstep
    exact ⟨rfl, h.holds⟩
  | toastInsert newtuple =>
    obtain ⟨toastHash, happend, hst⟩ := bind_eq_ok.mp hstep
    cases hst
    exact ⟨rfl, h.holds.append happend⟩
  | user newtuple =>
    obtain ⟨installed, _, hst⟩ := bind_eq_ok.mp hstep
    cases hst
    cases clearToastAfterwards with
    | false => exact ⟨rfl, h.holds⟩
    | true => exact ⟨rfl, Holds.nil⟩

theorem Reflects.step {st st' : ToastState} {w : Window} (h : Reflects st w) {change : Change}
    (hstep : processChange st change = .ok st') : Reflects st' (w.step change) := by
  cases change with
  | tuple change => exact h.tuple hstep
  | specInsert change =>
    cases hstep
    exact ⟨rfl, h.holds⟩
  | other =>
    cases hstep
    exact h
  | specConfirm =>
    rw [processChange] at hstep
    rw [Window.step, ← h.pending]
    cases hpending : st.specinsert with
    | none =>
      rw [hpending] at hstep
      cases hstep
    | some change =>
      rw [hpending] at hstep
      exact h.tuple hstep
  | specAbort =>
    rw [processChange] at hstep
    rw [Window.step, ← h.pending]
    split at hstep
    · next hpending =>
      cases hstep
      rw [if_pos hpending]
      exact ⟨rfl, Holds.nil⟩
    · next hpending =>
      cases hstep
      rw [if_neg hpending]
      exact h

theorem Reflects.run {st st' : ToastState} {w : Window} (h : Reflects st w) {changes : List Change}
    (hrun : processChanges st changes = .ok st') :
    Reflects st' (changes.foldl Window.step w) := by
  induction changes generalizing st w with
  | nil =>
    cases hrun
    exact h
  | cons change changes ih =>
    obtain ⟨st'', hstep, hrest⟩ := bind_eq_ok.mp hrun
    exact ih (h.step hstep) hrest

/-- After any changes the chunks since the last reset are in chunk order, and the next row gets each
toasted value as the concatenation of its chunks, all else as it was, exactly if those chunks have
full headers and fit. -/
theorem toastReplace_faithful_iff {changes : List Change} {st : ToastState}
    (h : processChanges .init changes = .ok st) :
    (∀ valueid, InOrder (chunksOf (sinceReset changes) valueid)) ∧
      ∀ row, Faithful st.toastHash (sinceReset changes) row ↔ Stitchable (sinceReset changes) row := by
  have hreflects : Reflects st (changes.foldl Window.step ⟨none, []⟩) :=
    Reflects.run ⟨rfl, Holds.nil⟩ h
  exact ⟨hreflects.holds.inOrder, hreflects.holds.faithful_iff⟩

def fullChunk : Chunk where
  bytes := [32, 0, 0, 0, 1, 2, 3, 4]
  full := by decide
  short := by decide

def shortChunk : Chunk where
  bytes := [11, 1, 2, 3, 4]
  full := by decide
  short := by decide

def insertedChunk (chunk : Chunk) : List Change := [.tuple ⟨.toastInsert ⟨16400, 0, chunk⟩, false⟩]

def toastedRow : Row := [⟨⟨1, false, -1⟩, some (.external ⟨8, 4, 16400⟩)⟩]

theorem fullChunk_faithful : ∃ st, processChanges .init (insertedChunk fullChunk) = .ok st ∧
      Faithful st.toastHash (sinceReset (insertedChunk fullChunk)) toastedRow := by
  refine ⟨_, rfl, ((toastReplace_faithful_iff rfl).2 toastedRow).mpr ?_⟩
  intro c hc ptr hptr _
  obtain rfl := List.mem_singleton.mp hc
  cases hptr
  decide

/-- A chunk with a short header is accepted, and read as if it had a full one. -/
theorem shortChunk_not_faithful : ¬ ∀ changes st, processChanges .init changes = .ok st →
      ∀ row, Faithful st.toastHash (sinceReset changes) row := by
  intro h
  have hreplace := (h (insertedChunk shortChunk) _ rfl toastedRow).1
  have herror : reorderBufferToastReplace
      (some (Function.update (fun _ => none) 16400 (some ⟨0, 1, 4, [⟨16400, 0, shortChunk⟩]⟩)))
      (some toastedRow) = .error .outsideChunk := rfl
  cases herror.symm.trans hreplace

end CdcKafka.Reorder.Toast
