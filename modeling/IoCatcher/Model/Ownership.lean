import IoCatcher.Model.Object

/-!
# IO Catcher — buffers and their owners

What the operations that create, share and drop buffers do to the container:

* `HasSegment` — the segment an object holds under a key; everything below is
  phrased with it, so later proofs never look at the maps;
* `useCount_eq_zero` / `exclusive_of_not_cow` — the use count of a buffer read
  as a statement about segments;
* `MemoryOk` — every segment's buffer is a chunk in use, of the segment's size;
* `FreshStore` — the one effect `applyCow` and `loadSegment` have on the
  container: a segment on a buffer nobody owned is stored under a key.
-/

namespace IoCatcher

/-- What the allocators assert about a call: a positive size, a multiple of
`A`, and on deallocation the size the chunk was allocated with. -/
def MemoryCall.Ok (A : Nat) : MemoryCall → Prop
  | .allocate size => 0 < size ∧ A ∣ size
  | .deallocate known size => known = some size ∧ 0 < size ∧ A ∣ size

namespace Container

variable {μ σ : Type} {B : Backends μ σ} {c c' c'' : Container μ σ} {id id' : ObjectId}

/-- Object `id` holds the segment `s` under `key`. -/
def HasSegment (c : Container μ σ) (id : ObjectId) (key : Nat) (s : ObjectSegment) : Prop :=
  (key, s) ∈ (c.segments id).entries

/-! ## Reading the container after an update -/

theorem object_setObject (c : Container μ σ) (id : ObjectId) (o : Object) (id' : ObjectId) :
    (c.setObject id o).object id' = if id' = id then o else c.object id' := by
  unfold object setObject
  split_ifs with h
  · simp [h]
  · simp [OrderedMap.find?_insert_ne h]

@[simp] theorem object_setObject_self (c : Container μ σ) (id : ObjectId) (o : Object) :
    (c.setObject id o).object id = o := by
  simp [object_setObject]

theorem object_setObject_ne {o : Object} (h : id' ≠ id) :
    (c.setObject id o).object id' = c.object id' := by
  simp [object_setObject, h]

theorem object_getObject (c : Container μ σ) (id id' : ObjectId) :
    (c.getObject id).object id' = c.object id' := by
  rw [getObject, object_setObject]
  split_ifs with h
  · rw [h]
  · rfl

@[simp] theorem segments_getObject (c : Container μ σ) (id id' : ObjectId) :
    (c.getObject id).segments id' = c.segments id' := by
  rw [segments, object_getObject, segments]

theorem segments_setSegments (c : Container μ σ) (id : ObjectId) (m : ObjectSegmentMap)
    (id' : ObjectId) :
    (c.setSegments id m).segments id' = if id' = id then m else c.segments id' := by
  unfold segments setSegments
  rw [object_setObject]
  split_ifs <;> rfl

@[simp] theorem segments_setSegments_self (c : Container μ σ) (id : ObjectId)
    (m : ObjectSegmentMap) : (c.setSegments id m).segments id = m := by
  simp [segments_setSegments]

@[simp] theorem memory_setObject (c : Container μ σ) (id : ObjectId) (o : Object) :
    (c.setObject id o).memory = c.memory := rfl

@[simp] theorem storage_setObject (c : Container μ σ) (id : ObjectId) (o : Object) :
    (c.setObject id o).storage = c.storage := rfl

@[simp] theorem memory_getObject (c : Container μ σ) (id : ObjectId) :
    (c.getObject id).memory = c.memory := rfl

@[simp] theorem storage_getObject (c : Container μ σ) (id : ObjectId) :
    (c.getObject id).storage = c.storage := rfl

@[simp] theorem memory_setSegments (c : Container μ σ) (id : ObjectId) (m : ObjectSegmentMap) :
    (c.setSegments id m).memory = c.memory := rfl

@[simp] theorem storage_setSegments (c : Container μ σ) (id : ObjectId) (m : ObjectSegmentMap) :
    (c.setSegments id m).storage = c.storage := rfl

@[simp] theorem segments_setMemory (c : Container μ σ) (m : Memory μ) (id : ObjectId) :
    ({ c with memory := m } : Container μ σ).segments id = c.segments id := rfl

@[simp] theorem segments_setStorage (c : Container μ σ) (s : σ) (id : ObjectId) :
    ({ c with storage := s } : Container μ σ).segments id = c.segments id := rfl

theorem hasSegment_iff {key : Nat} {s : ObjectSegment} :
    c.HasSegment id key s ↔
      ∃ o, (id, o) ∈ c.objects.entries ∧ (key, s) ∈ o.segmentMap.entries := by
  unfold HasSegment segments object
  cases h : c.objects.find? id with
  | none =>
    simp only [Option.getD_none, Object.new, OrderedMap.entries_empty, List.not_mem_nil,
      false_iff, not_exists, not_and]
    intro o ho
    exact absurd ho (OrderedMap.find?_eq_none.mp h o)
  | some o =>
    have ho := OrderedMap.find?_eq_some.mp h
    constructor
    · exact fun hs => ⟨o, ho, hs⟩
    · rintro ⟨o', ho', hs⟩
      rw [OrderedMap.mem_unique ho' ho] at hs
      exact hs

theorem hasSegment_unique {key : Nat} {s t : ObjectSegment} (hs : c.HasSegment id key s)
    (ht : c.HasSegment id key t) : s = t :=
  OrderedMap.mem_unique hs ht

/-- What a container keeps besides segments is unchanged: alignments and
registrations. -/
structure SameHeader (c c' : Container μ σ) : Prop where
  default    : c'.objectSegmentsAlignement = c.objectSegmentsAlignement
  alignement : ∀ id, (c'.object id).alignement = (c.object id).alignement
  tracker    : ∀ id, (c'.object id).consistencyTracker = (c.object id).consistencyTracker

theorem SameHeader.refl (c : Container μ σ) : SameHeader c c :=
  ⟨rfl, fun _ => rfl, fun _ => rfl⟩

theorem SameHeader.trans (h : SameHeader c c') (h' : SameHeader c' c'') : SameHeader c c'' :=
  ⟨h'.default.trans h.default, fun id => (h'.alignement id).trans (h.alignement id),
    fun id => (h'.tracker id).trans (h.tracker id)⟩

theorem sameHeader_of_object (hd : c'.objectSegmentsAlignement = c.objectSegmentsAlignement)
    (h : ∀ id, c'.object id = c.object id) : SameHeader c c' :=
  ⟨hd, fun id => by rw [h], fun id => by rw [h]⟩

theorem sameHeader_of_objects (h : c'.objects = c.objects)
    (ha : c'.objectSegmentsAlignement = c.objectSegmentsAlignement) : SameHeader c c' :=
  sameHeader_of_object ha fun id => by rw [object, object, h, ha]

theorem sameHeader_getObject (c : Container μ σ) (id : ObjectId) :
    SameHeader c (c.getObject id) :=
  sameHeader_of_object rfl (object_getObject c id)

theorem sameHeader_setSegments (c : Container μ σ) (id : ObjectId) (m : ObjectSegmentMap) :
    SameHeader c (c.setSegments id m) := by
  refine ⟨rfl, ?_, ?_⟩ <;> intro id' <;> rw [setSegments, object_setObject] <;>
    split_ifs with h <;> simp [h]

/-! ## Use counts -/

theorem mem_owners {a : Addr} {key : Nat} :
    (id, key) ∈ c.owners a ↔ ∃ s, c.HasSegment id key s ∧ s.memory.buffer = a := by
  unfold owners
  simp only [List.mem_flatMap, List.mem_map, List.mem_filter, decide_eq_true_eq]
  constructor
  · rintro ⟨o, ho, e, ⟨he, ha⟩, heq⟩
    obtain ⟨rfl, rfl⟩ := Prod.mk.inj heq
    exact ⟨e.2, hasSegment_iff.mpr ⟨o.2, ho, he⟩, ha⟩
  · rintro ⟨s, hs, ha⟩
    obtain ⟨o, ho, hs⟩ := hasSegment_iff.mp hs
    exact ⟨(id, o), ho, (key, s), ⟨hs, ha⟩, rfl⟩

theorem useCount_eq_zero {a : Addr} (h : c.useCount a = 0) {key : Nat} {s : ObjectSegment}
    (hs : c.HasSegment id key s) : s.memory.buffer ≠ a := by
  intro ha
  have hmem := mem_owners.mpr ⟨s, hs, ha⟩
  rw [List.length_eq_zero_iff.mp h] at hmem
  exact List.not_mem_nil hmem

/-- The buffer `a` belongs to no segment but the one of `id` under `key`. -/
def Exclusive (c : Container μ σ) (id : ObjectId) (key : Nat) (a : Addr) : Prop :=
  ∀ id' key' s, c.HasSegment id' key' s → s.memory.buffer = a → id' = id ∧ key' = key

/-- A segment that is not shared is the only owner of its buffer. -/
theorem exclusive_of_not_cow {key : Nat} {s : ObjectSegment} (hs : c.HasSegment id key s)
    (hcow : c.isCow s = false) : c.Exclusive id key s.memory.buffer := by
  intro id' key' t ht hbuf
  have hone : (c.owners s.memory.buffer).length = 1 := by
    have := of_decide_eq_false hcow
    exact not_not.mp this
  obtain ⟨x, hx⟩ := List.length_eq_one_iff.mp hone
  have h1 := mem_owners.mpr ⟨s, hs, rfl⟩
  have h2 := mem_owners.mpr ⟨t, ht, hbuf⟩
  rw [hx, List.mem_singleton] at h1 h2
  exact Prod.mk.inj (h2.trans h1.symm)

theorem owners_nodup (c : Container μ σ) (a : Addr) : (c.owners a).Nodup := by
  unfold owners
  rw [List.nodup_flatMap]
  refine ⟨fun o _ => ?_, c.objects.sorted.imp ?_⟩
  · refine List.Pairwise.map _ ?_ (o.2.segmentMap.sorted.filter _)
    exact fun e e' hlt heq => absurd (Prod.mk.inj heq).2 (Nat.ne_of_lt hlt)
  · intro o o' hlt x hx hx'
    obtain ⟨e, -, rfl⟩ := List.mem_map.mp hx
    obtain ⟨e', -, heq⟩ := List.mem_map.mp hx'
    exact absurd (Prod.mk.inj heq).1 hlt.ne'

/-- A segment that owns its buffer alone is not shared. -/
theorem not_cow_of_exclusive {key : Nat} {s : ObjectSegment} (hs : c.HasSegment id key s)
    (hex : c.Exclusive id key s.memory.buffer) : c.isCow s = false := by
  have hall : ∀ x ∈ c.owners s.memory.buffer, x = (id, key) := by
    rintro ⟨id', key'⟩ hx
    obtain ⟨t, ht, hbuf⟩ := mem_owners.mp hx
    obtain ⟨rfl, rfl⟩ := hex id' key' t ht hbuf
    rfl
  have hmem : (id, key) ∈ c.owners s.memory.buffer := mem_owners.mpr ⟨s, hs, rfl⟩
  have hlen : (c.owners s.memory.buffer).length = 1 := by
    rw [List.eq_replicate_of_mem hall, List.length_replicate]
    have hnd := c.owners_nodup s.memory.buffer
    rw [List.eq_replicate_of_mem hall, List.nodup_replicate] at hnd
    have := List.length_pos_of_mem hmem
    omega
  simp [isCow, useCount, hlen]

/-! ## Releasing and storing -/

@[simp] theorem objects_release (c : Container μ σ) (m : ObjectSegmentMemory) :
    (c.release B m).objects = c.objects := by
  unfold release
  split_ifs <;> rfl

@[simp] theorem alignement_release (c : Container μ σ) (m : ObjectSegmentMemory) :
    (c.release B m).objectSegmentsAlignement = c.objectSegmentsAlignement := by
  unfold release
  split_ifs <;> rfl

@[simp] theorem segments_release (c : Container μ σ) (m : ObjectSegmentMemory) (id : ObjectId) :
    (c.release B m).segments id = c.segments id := by
  unfold release
  split_ifs <;> rfl

@[simp] theorem storage_release (c : Container μ σ) (m : ObjectSegmentMemory) :
    (c.release B m).storage = c.storage := by
  unfold release
  split_ifs <;> rfl

@[simp] theorem bytes_release (c : Container μ σ) (m : ObjectSegmentMemory) :
    (c.release B m).memory.bytes = c.memory.bytes := by
  unfold release
  split_ifs <;> rfl

@[simp] theorem overrun_release (c : Container μ σ) (m : ObjectSegmentMemory) :
    (c.release B m).memory.overruns = c.memory.overruns := by
  unfold release
  split_ifs <;> rfl

theorem segments_storeSegment (c : Container μ σ) (id : ObjectId) (key : Nat) (s : ObjectSegment)
    (id' : ObjectId) : (c.storeSegment B id key s).segments id' =
      if id' = id then (c.segments id).insert key s else c.segments id' := by
  unfold storeSegment
  dsimp only
  cases (c.segments id).find? key with
  | none => rw [segments_setSegments]
  | some old =>
    dsimp only
    rw [segments_release, segments_setSegments]

@[simp] theorem storage_storeSegment (c : Container μ σ) (id : ObjectId) (key : Nat)
    (s : ObjectSegment) : (c.storeSegment B id key s).storage = c.storage := by
  unfold storeSegment
  dsimp only
  cases (c.segments id).find? key <;> simp

@[simp] theorem bytes_storeSegment (c : Container μ σ) (id : ObjectId) (key : Nat)
    (s : ObjectSegment) : (c.storeSegment B id key s).memory.bytes = c.memory.bytes := by
  unfold storeSegment
  dsimp only
  cases (c.segments id).find? key <;> simp

@[simp] theorem overrun_storeSegment (c : Container μ σ) (id : ObjectId) (key : Nat)
    (s : ObjectSegment) : (c.storeSegment B id key s).memory.overruns = c.memory.overruns := by
  unfold storeSegment
  dsimp only
  cases (c.segments id).find? key <;> simp

theorem sameHeader_storeSegment (c : Container μ σ) (id : ObjectId) (key : Nat)
    (s : ObjectSegment) : SameHeader c (c.storeSegment B id key s) := by
  unfold storeSegment
  dsimp only
  cases (c.segments id).find? key with
  | none => exact sameHeader_setSegments ..
  | some old =>
    refine (sameHeader_setSegments c id ((c.segments id).insert key s)).trans ?_
    exact sameHeader_of_objects (objects_release ..) (alignement_release ..)

theorem hasSegment_storeSegment {key key' : Nat} {s t : ObjectSegment} :
    (c.storeSegment B id key s).HasSegment id' key' t ↔
      (id' = id ∧ key' = key ∧ t = s) ∨
        (¬ (id' = id ∧ key' = key) ∧ c.HasSegment id' key' t) := by
  unfold HasSegment
  rw [segments_storeSegment]
  by_cases h : id' = id
  · subst h
    simp only [if_true, OrderedMap.mem_insert, Prod.mk.injEq, true_and]
  · simp [h]

/-! ## Buffers in use -/

/-- Every segment's buffer is a chunk in use, of the segment's size. -/
structure MemoryOk (B : Backends μ σ) (c : Container μ σ) : Prop where
  valid : B.memoryBackend.Valid c.memory.backend
  chunk : ∀ {id key s}, c.HasSegment id key s →
    B.memoryBackend.chunk c.memory.backend s.memory.buffer = some s.memory.size

theorem MemoryOk.of_segments (h : MemoryOk B c) (hs : ∀ {id key s}, c'.HasSegment id key s →
    ∃ id' key' t, c.HasSegment id' key' t ∧ t.memory = s.memory)
    (hb : c'.memory.backend = c.memory.backend) : MemoryOk B c' := by
  refine ⟨hb ▸ h.valid, fun hseg => ?_⟩
  obtain ⟨id', key', t, ht, hmem⟩ := hs hseg
  rw [hb, ← hmem]
  exact h.chunk ht

theorem MemoryOk.release (h : MemoryOk B c) {m : ObjectSegmentMemory}
    (hm : B.memoryBackend.chunk c.memory.backend m.buffer = some m.size) :
    MemoryOk B (c.release B m) := by
  unfold Container.release
  split_ifs with hzero
  · refine ⟨B.memoryBackend.valid_deallocate h.valid hm, fun {id key s} hseg => ?_⟩
    have hne : s.memory.buffer ≠ m.buffer := useCount_eq_zero hzero hseg
    show B.memoryBackend.chunk (B.memoryBackend.deallocate _ _ _) _ = _
    rw [B.memoryBackend.chunk_deallocate _ h.valid hm, if_neg hne]
    exact h.chunk hseg
  · exact h

/-- A segment on a chunk in use is put into a map. -/
theorem MemoryOk.insertSegment (h : MemoryOk B c) {key : Nat} {s : ObjectSegment}
    (hs : B.memoryBackend.chunk c.memory.backend s.memory.buffer = some s.memory.size) :
    MemoryOk B (c.setSegments id ((c.segments id).insert key s)) := by
  refine ⟨h.valid, fun {id' key' t} hseg => ?_⟩
  unfold HasSegment at hseg
  rw [segments_setSegments] at hseg
  split_ifs at hseg with hid
  · rcases OrderedMap.mem_insert.mp hseg with heq | ⟨-, hold⟩
    · rw [(Prod.mk.inj heq).2]
      exact hs
    · exact h.chunk hold
  · exact h.chunk hseg

theorem MemoryOk.storeSegment (h : MemoryOk B c) {key : Nat} {s : ObjectSegment}
    (hs : B.memoryBackend.chunk c.memory.backend s.memory.buffer = some s.memory.size) :
    MemoryOk B (c.storeSegment B id key s) := by
  have hset : MemoryOk B (c.setSegments id ((c.segments id).insert key s)) := h.insertSegment hs
  unfold Container.storeSegment
  dsimp only
  cases hf : (c.segments id).find? key with
  | none => exact hset
  | some old => exact hset.release (h.chunk (OrderedMap.find?_eq_some.mp hf))

/-- After an allocation the new chunk is in use too, and no segment has it. -/
theorem MemoryOk.chunk_allocated (h : MemoryOk B c) {size : Nat} {backend : μ}
    (hbackend : backend = (c.memory.allocate B.memoryBackend size).2.backend) (a : Addr) :
    B.memoryBackend.chunk backend a =
      if a = (c.memory.allocate B.memoryBackend size).1 then some size
      else B.memoryBackend.chunk c.memory.backend a := by
  rw [hbackend]
  exact B.memoryBackend.chunk_allocate a h.valid

theorem MemoryOk.ne_allocated (h : MemoryOk B c) {key size : Nat} {s : ObjectSegment}
    (hs : c.HasSegment id key s) :
    s.memory.buffer ≠ (c.memory.allocate B.memoryBackend size).1 := by
  intro heq
  have hnone : B.memoryBackend.chunk c.memory.backend
      (c.memory.allocate B.memoryBackend size).1 = none := B.memoryBackend.allocate_fresh h.valid
  have hchunk := h.chunk hs
  rw [heq, hnone] at hchunk
  exact absurd hchunk (by simp)

theorem MemoryOk.allocate (h : MemoryOk B c) {size : Nat} {m : Memory μ} {st : σ}
    (hbackend : m.backend = (c.memory.allocate B.memoryBackend size).2.backend) :
    MemoryOk B ({ c with memory := m, storage := st } : Container μ σ) := by
  refine ⟨?_, fun {id key s} hs => ?_⟩
  · show B.memoryBackend.Valid m.backend
    rw [hbackend]
    exact B.memoryBackend.valid_allocate h.valid
  · have hs' : c.HasSegment id key s := hs
    show B.memoryBackend.chunk m.backend _ = _
    rw [h.chunk_allocated hbackend, if_neg (h.ne_allocated hs')]
    exact h.chunk hs'

/-- Giving the new chunk back leaves the chunks in use that there were. -/
theorem MemoryOk.chunk_returned (h : MemoryOk B c) {size : Nat} {backend : μ}
    (hbackend : backend = (c.memory.allocate B.memoryBackend size).2.backend) :
    B.memoryBackend.Valid (B.memoryBackend.deallocate backend
      (c.memory.allocate B.memoryBackend size).1 size) ∧
    ∀ a, B.memoryBackend.chunk (B.memoryBackend.deallocate backend
      (c.memory.allocate B.memoryBackend size).1 size) a =
        B.memoryBackend.chunk c.memory.backend a := by
  have hchunk := h.chunk_allocated hbackend
  have hvalid : B.memoryBackend.Valid backend := by
    rw [hbackend]
    exact B.memoryBackend.valid_allocate h.valid
  have hown : B.memoryBackend.chunk backend (c.memory.allocate B.memoryBackend size).1 =
      some size := by
    rw [hchunk, if_pos rfl]
  refine ⟨B.memoryBackend.valid_deallocate hvalid hown, fun a => ?_⟩
  rw [B.memoryBackend.chunk_deallocate _ hvalid hown, hchunk]
  split_ifs with heq
  · rw [heq]
    exact (B.memoryBackend.allocate_fresh h.valid).symm
  · rfl

theorem MemoryOk.deallocate (h : MemoryOk B c) {size : Nat} {m : Memory μ} {st : σ}
    (hbackend : m.backend = (c.memory.allocate B.memoryBackend size).2.backend) :
    MemoryOk B ({ c with
      memory := m.deallocate B.memoryBackend (c.memory.allocate B.memoryBackend size).1 size
      storage := st } : Container μ σ) := by
  obtain ⟨hvalid, hchunk⟩ := h.chunk_returned hbackend
  exact ⟨hvalid, fun {id key s} hs =>
    (hchunk _).trans (h.chunk (show c.HasSegment id key s from hs))⟩

/-! ## Calls to the memory backend -/

/-- Every call made so far satisfies the allocators' assertions. -/
def CallsOk (A : Nat) (c : Container μ σ) : Prop := ∀ call ∈ c.memory.calls, call.Ok A

/-- The one call a release may make gives a chunk back with its own size. -/
theorem calls_release {m : ObjectSegmentMemory} {call : MemoryCall}
    (hm : B.memoryBackend.chunk c.memory.backend m.buffer = some m.size)
    (h : call ∈ (c.release B m).memory.calls) :
    call ∈ c.memory.calls ∨ call = .deallocate (some m.size) m.size := by
  unfold release at h
  split_ifs at h
  · rcases List.mem_append.mp h with h | h
    · exact Or.inl h
    · rw [List.mem_singleton] at h
      exact Or.inr (by rw [h, hm])
  · exact Or.inl h

theorem calls_storeSegment (hok : MemoryOk B c) {key : Nat} {s : ObjectSegment} {call : MemoryCall}
    (h : call ∈ (c.storeSegment B id key s).memory.calls) :
    call ∈ c.memory.calls ∨
      ∃ old, c.HasSegment id key old ∧ call = .deallocate (some old.getSize) old.getSize := by
  unfold storeSegment at h
  dsimp only at h
  cases hf : (c.segments id).find? key with
  | none =>
    rw [hf] at h
    exact Or.inl h
  | some old =>
    rw [hf] at h
    have hold : c.HasSegment id key old := OrderedMap.find?_eq_some.mp hf
    rcases calls_release (c := c.setSegments id ((c.segments id).insert key s))
      (hok.chunk hold) h with h | h
    · exact Or.inl h
    · exact Or.inr ⟨old, hold, h⟩

/-! ## Fresh segments -/

/-- `c'` is `c` with `s`, on a buffer no segment of `c` owned, stored under
`key` in object `id`. -/
structure FreshStore (B : Backends μ σ) (c c' : Container μ σ) (id : ObjectId) (key : Nat)
    (s : ObjectSegment) : Prop where
  segments : ∀ id', c'.segments id' =
    if id' = id then (c.segments id).insert key s else c.segments id'
  header   : SameHeader c c'
  unowned  : ∀ {id' key' t}, c.HasSegment id' key' t → t.memory.buffer ≠ s.memory.buffer
  bytes    : ∀ a, a ≠ s.memory.buffer → c'.memory.bytes a = c.memory.bytes a
  overrun  : c'.memory.overruns = c.memory.overruns
  memoryOk : MemoryOk B c'
  calls    : ∀ {call}, call ∈ c'.memory.calls → call ∈ c.memory.calls ∨
    call = .allocate s.getSize ∨
    ∃ old, c.HasSegment id key old ∧ call = .deallocate (some old.getSize) old.getSize

/-- Storing a segment on a newly allocated chunk, whatever else happened to
the chunk's bytes and to the storage in between. -/
theorem freshStore_of_allocate (h : MemoryOk B c) {size : Nat} {key : Nat} {s : ObjectSegment}
    {m : Memory μ} {st : σ}
    (hs : s.memory = ⟨(c.memory.allocate B.memoryBackend size).1, size⟩)
    (hbackend : m.backend = (c.memory.allocate B.memoryBackend size).2.backend)
    (hbytes : ∀ a, a ≠ s.memory.buffer → m.bytes a = c.memory.bytes a)
    (hover : m.overruns = c.memory.overruns)
    (hcalls : m.calls = c.memory.calls ++ [.allocate size]) :
    FreshStore B c ({ c with memory := m, storage := st }.storeSegment B id key s) id key s := by
  have hbuf : s.memory.buffer = (c.memory.allocate B.memoryBackend size).1 := by rw [hs]
  have hfresh : ∀ {id' key' t}, c.HasSegment id' key' t → t.memory.buffer ≠ s.memory.buffer :=
    fun ht => hbuf ▸ h.ne_allocated ht
  have hok : MemoryOk B ({ c with memory := m, storage := st } : Container μ σ) :=
    h.allocate hbackend
  refine ⟨fun id' => ?_, ?_, hfresh, fun a ha => ?_, ?_, ?_, fun {call} hcall => ?_⟩
  · rw [segments_storeSegment]
    rfl
  · have hc : SameHeader c { c with memory := m, storage := st } := sameHeader_of_objects rfl rfl
    exact hc.trans (sameHeader_storeSegment ..)
  · rw [bytes_storeSegment]
    exact hbytes a ha
  · rw [overrun_storeSegment]
    exact hover
  · refine hok.storeSegment ?_
    show B.memoryBackend.chunk m.backend _ = _
    rw [h.chunk_allocated hbackend, hbuf, if_pos rfl, hs]
  · rcases calls_storeSegment hok hcall with hold | hold
    · rw [show ({ c with memory := m, storage := st } : Container μ σ).memory.calls =
        c.memory.calls ++ [.allocate size] from hcalls, List.mem_append, List.mem_singleton] at hold
      rcases hold with hold | hold
      · exact Or.inl hold
      · refine Or.inr (Or.inl ?_)
        rw [hold, ObjectSegment.getSize, hs]
    · exact Or.inr (Or.inr hold)

theorem FreshStore.hasSegment {key : Nat} {s : ObjectSegment} (h : FreshStore B c c' id key s)
    {key' : Nat} {t : ObjectSegment} : c'.HasSegment id' key' t ↔
      (id' = id ∧ key' = key ∧ t = s) ∨
        (¬ (id' = id ∧ key' = key) ∧ c.HasSegment id' key' t) := by
  unfold HasSegment
  rw [h.segments]
  by_cases hid : id' = id
  · subst hid
    simp only [if_true, OrderedMap.mem_insert, Prod.mk.injEq, true_and]
  · simp [hid]

theorem FreshStore.self {key : Nat} {s : ObjectSegment} (h : FreshStore B c c' id key s) :
    c'.HasSegment id key s :=
  h.hasSegment.mpr (Or.inl ⟨rfl, rfl, rfl⟩)

/-- The stored segment is the only owner of its buffer. -/
theorem FreshStore.exclusive {key : Nat} {s : ObjectSegment} (h : FreshStore B c c' id key s) :
    c'.Exclusive id key s.memory.buffer := by
  intro id' key' t ht hbuf
  rcases h.hasSegment.mp ht with ⟨hid, hkey, -⟩ | ⟨-, hold⟩
  · exact ⟨hid, hkey⟩
  · exact absurd hbuf (h.unowned hold)

/-- A segment that owned its buffer alone still does after a fresh store. -/
theorem FreshStore.exclusive_mono {key key' : Nat} {s t : ObjectSegment}
    (h : FreshStore B c c' id key s) (ht : c.HasSegment id' key' t)
    (hex : c.Exclusive id' key' t.memory.buffer) : c'.Exclusive id' key' t.memory.buffer := by
  intro id'' key'' u hu hbuf
  rcases h.hasSegment.mp hu with ⟨-, -, rfl⟩ | ⟨-, hold⟩
  · exact absurd hbuf.symm (h.unowned ht)
  · exact hex id'' key'' u hold hbuf

/-! ## `applyCow` -/

/-- The segment `applyCow` produces is the old one on a fresh buffer. -/
theorem applyCow_fresh (h : MemoryOk B c) (id : ObjectId) (key : Nat) (s : ObjectSegment) :
    FreshStore B c (c.applyCow B id key s).2 id key (c.applyCow B id key s).1 := by
  unfold applyCow
  dsimp only
  refine freshStore_of_allocate h rfl rfl ?_ rfl rfl
  intro a ha
  funext i
  exact if_neg fun hc => ha hc.1

/-- The new buffer holds the bytes of the shared one. -/
theorem applyCow_bytes (c : Container μ σ) (id : ObjectId) (key : Nat) (s : ObjectSegment) {i : Nat}
    (hi : i < s.getSize) :
    (c.applyCow B id key s).2.memory.bytes (c.applyCow B id key s).1.memory.buffer i =
      c.memory.bytes s.memory.buffer i := by
  unfold applyCow
  simp [Memory.fill, Memory.allocate, hi]

@[simp] theorem storage_applyCow (c : Container μ σ) (id : ObjectId) (key : Nat)
    (s : ObjectSegment) : (c.applyCow B id key s).2.storage = c.storage := by
  simp [applyCow]

end Container

end IoCatcher
