import IoCatcher.Lib.Tiling
import IoCatcher.Model.Layout
import IoCatcher.Model.Ownership

/-!
# IO Catcher — what `getBuffers` does

`getBuffers` runs three pieces of code over the segment map: a loop that
collects (and unshares) the segments in the range, a loop that loads the gaps
between them, and a step for the tail. Each piece does one of two things to the
container, and both are instances of one relation:

* `Grows` — the segments of one object are kept (same range, flag and bytes),
  new clean segments may appear in its gaps, and nothing else changes.

Main result: `getBuffers_spec`. Every call, successful or not, for every 64-bit
request and every result of the storage, makes the container grow and keeps the
layout invariant. A successful call returns the descriptors of a run of
consecutive segments of the map (`Covers`), made of the segments that meet the
rounded range and of the gaps between them (`Weaves`), each the only owner of
its buffer when the access is a write.
-/

namespace IoCatcher

namespace Container

variable {μ σ : Type} {B : Backends μ σ} {c c' c'' : Container μ σ} {id : ObjectId}

/-- The content the storage backend holds. -/
def disk (B : Backends μ σ) (c : Container μ σ) : ObjectId → Bytes :=
  match B.storageBackend with
  | some sb => sb.disk c.storage
  | none => fun _ _ => 0

theorem disk_of_storage (h : c'.storage = c.storage) : c'.disk B = c.disk B := by
  unfold disk
  rw [h]

/-! ## Growth -/

/-- `s'` in `c'` is `s` in `c`: same range, same flag, same bytes. -/
structure SameData (c c' : Container μ σ) (s s' : ObjectSegment) : Prop where
  offset : s'.offset = s.offset
  size   : s'.getSize = s.getSize
  dirty  : s'.dirty = s.dirty
  bytes  : ∀ i < s.getSize,
    c'.memory.bytes s'.memory.buffer i = c.memory.bytes s.memory.buffer i

theorem SameData.of_bytes {s : ObjectSegment}
    (h : c'.memory.bytes s.memory.buffer = c.memory.bytes s.memory.buffer) : SameData c c' s s :=
  ⟨rfl, rfl, rfl, fun i _ => by rw [h]⟩

theorem SameData.trans {s s' s'' : ObjectSegment} (h : SameData c c' s s')
    (h' : SameData c' c'' s' s'') : SameData c c'' s s'' :=
  ⟨h'.offset.trans h.offset, h'.size.trans h.size, h'.dirty.trans h.dirty,
    fun i hi => (h'.bytes i (by rw [h.size]; exact hi)).trans (h.bytes i hi)⟩

/--
Object `id` may have gained segments between `c` and `c'`; every segment it
had is still there with its data, and nothing else changed. A new segment is
clean, and holds the stored bytes when `Loaded` says it was read. The new
segments keep the map aligned to `A` and so do the sizes asked of the
allocator.
-/
structure Grows (B : Backends μ σ) (A : Nat) (Loaded : Nat → Nat → Prop) (c c' : Container μ σ)
    (id : ObjectId) : Prop where
  memoryOk   : MemoryOk B c'
  layout     : LayoutOk (c'.segments id)
  header     : SameHeader c c'
  others     : ∀ {id'}, id' ≠ id → c'.segments id' = c.segments id'
  otherBytes : ∀ {id' k s}, id' ≠ id → c.HasSegment id' k s →
    c'.memory.bytes s.memory.buffer = c.memory.bytes s.memory.buffer
  kept       : ∀ {k s}, c.HasSegment id k s → ∃ s', c'.HasSegment id k s' ∧ SameData c c' s s'
  added      : ∀ {k s'}, c'.HasSegment id k s' → (∀ s, ¬ c.HasSegment id k s) →
    s'.dirty = false ∧ (Loaded s'.offset s'.getSize → ∀ i < s'.getSize,
      c'.memory.bytes s'.memory.buffer i = c.disk B id (s'.offset + i))
  exclusive  : ∀ {id' k s}, c.HasSegment id' k s → c.Exclusive id' k s.memory.buffer →
    c'.HasSegment id' k s ∧ c'.Exclusive id' k s.memory.buffer
  disk       : c'.disk B = c.disk B
  overrun    : c'.memory.overruns = c.memory.overruns
  aligned    : Aligned A (c.segments id) → Aligned A (c'.segments id)
  calls      : Aligned A (c.segments id) → CallsOk A c → CallsOk A c'

section Grows

variable {A : Nat} {Loaded : Nat → Nat → Prop}

theorem Grows.hasSegment_other (h : Grows B A Loaded c c' id) {id' : ObjectId} {k : Nat}
    {s : ObjectSegment} (hne : id' ≠ id) : c'.HasSegment id' k s ↔ c.HasSegment id' k s := by
  unfold HasSegment
  rw [h.others hne]

/-- A container whose segments and owned bytes did not change. -/
theorem Grows.of_same (hmem : MemoryOk B c') (hlayout : LayoutOk (c.segments id))
    (hdef : c'.objectSegmentsAlignement = c.objectSegmentsAlignement)
    (hobj : ∀ id', c'.object id' = c.object id')
    (hbytes : ∀ {id' k s}, c.HasSegment id' k s →
      c'.memory.bytes s.memory.buffer = c.memory.bytes s.memory.buffer)
    (hdisk : c'.disk B = c.disk B) (hover : c'.memory.overruns = c.memory.overruns)
    (hcalls : Aligned A (c.segments id) → CallsOk A c → CallsOk A c') :
    Grows B A Loaded c c' id := by
  have hseg : ∀ id', c'.segments id' = c.segments id' := fun id' => by
    rw [segments, hobj, segments]
  have hiff : ∀ {id' k s}, c'.HasSegment id' k s ↔ c.HasSegment id' k s := by
    intro id' k s
    unfold HasSegment
    rw [hseg]
  refine ⟨hmem, hseg id ▸ hlayout, sameHeader_of_object hdef hobj, fun _ => hseg _,
    fun _ hs => hbytes hs, fun hs => ⟨_, hiff.mpr hs, .of_bytes (hbytes hs)⟩,
    fun hs hno => absurd (hiff.mp hs) (hno _), fun hs hex => ⟨hiff.mpr hs, ?_⟩, hdisk, hover,
    fun ha => hseg id ▸ ha, hcalls⟩
  exact fun id' k t ht => hex id' k t (hiff.mp ht)

theorem Grows.refl (hmem : MemoryOk B c) (hlayout : LayoutOk (c.segments id)) :
    Grows B A Loaded c c id :=
  .of_same hmem hlayout rfl (fun _ => rfl) (fun _ => rfl) rfl rfl fun _ h => h

theorem Grows.trans (h : Grows B A Loaded c c' id) (h' : Grows B A Loaded c' c'' id) :
    Grows B A Loaded c c'' id := by
  refine ⟨h'.memoryOk, h'.layout, h.header.trans h'.header,
    fun hne => (h'.others hne).trans (h.others hne), fun hne hs => ?_, fun hs => ?_,
    fun {k s''} hs'' hno => ?_, fun hs hex => ?_, h'.disk.trans h.disk,
    h'.overrun.trans h.overrun, fun ha => h'.aligned (h.aligned ha),
    fun ha hc => h'.calls (h.aligned ha) (h.calls ha hc)⟩
  · rw [h'.otherBytes hne ((h.hasSegment_other hne).mpr hs), h.otherBytes hne hs]
  · obtain ⟨s', hs', hd⟩ := h.kept hs
    obtain ⟨s'', hs'', hd'⟩ := h'.kept hs'
    exact ⟨s'', hs'', hd.trans hd'⟩
  · by_cases hmid : ∃ s', c'.HasSegment id k s'
    · -- loaded in the first part, kept in the second
      obtain ⟨s', hs'⟩ := hmid
      obtain ⟨t, ht, hd⟩ := h'.kept hs'
      obtain rfl := hasSegment_unique ht hs''
      obtain ⟨hdirty, hload⟩ := h.added hs' hno
      refine ⟨hd.dirty.trans hdirty, fun hl i hi => ?_⟩
      rw [hd.offset, hd.size] at hl
      rw [hd.size] at hi
      rw [hd.bytes i hi, hload hl i hi, hd.offset]
    · obtain ⟨hdirty, hload⟩ := h'.added hs'' fun s' hs' => hmid ⟨s', hs'⟩
      refine ⟨hdirty, fun hl i hi => ?_⟩
      rw [hload hl i hi, h.disk]
  · obtain ⟨hs', hex'⟩ := h.exclusive hs hex
    exact h'.exclusive hs' hex'

/-- A shared segment moved to a fresh buffer with its bytes. -/
theorem FreshStore.grows_replace {k : Nat} {s s' : ObjectSegment}
    (h : FreshStore B c c' id k s') (hlayout : LayoutOk (c.segments id))
    (hs : c.HasSegment id k s) (hdata : SameData c c' s s') (hcow : c.isCow s = true)
    (hdisk : c'.disk B = c.disk B) : Grows B A Loaded c c' id := by
  have hstay : ∀ {id' k' t}, ¬ (id' = id ∧ k' = k) → c.HasSegment id' k' t →
      c'.HasSegment id' k' t := fun hne ht => h.hasSegment.mpr (Or.inr ⟨hne, ht⟩)
  have hbytes : ∀ {id' k' t}, c.HasSegment id' k' t →
      c'.memory.bytes t.memory.buffer = c.memory.bytes t.memory.buffer :=
    fun ht => h.bytes _ (h.unowned ht)
  refine ⟨h.memoryOk, ?_, h.header, fun hne => ?_, fun _ ht => hbytes ht, fun {k' t} ht => ?_,
    fun {k' t} ht hno => ?_, fun {id' k' t} ht hex => ?_, hdisk, h.overrun, fun ha => ?_,
    fun ha hc call hcall => ?_⟩
  · rw [h.segments, if_pos rfl]
    exact hlayout.insert_same hs hdata.offset hdata.size
  · rw [h.segments, if_neg hne]
  · by_cases hk : k' = k
    · subst hk
      obtain rfl := hasSegment_unique hs ht
      exact ⟨s', h.self, hdata⟩
    · exact ⟨t, hstay (fun hc => hk hc.2) ht, .of_bytes (hbytes ht)⟩
  · rcases h.hasSegment.mp ht with ⟨-, rfl, -⟩ | ⟨-, hold⟩
    · exact absurd hs (hno s)
    · exact absurd hold (hno t)
  · -- the moved segment was shared, so it is not the exclusive one
    have hne : ¬ (id' = id ∧ k' = k) := by
      rintro ⟨rfl, rfl⟩
      obtain rfl := hasSegment_unique hs ht
      rw [not_cow_of_exclusive ht hex] at hcow
      exact absurd hcow (by decide)
    exact ⟨hstay hne ht, h.exclusive_mono ht hex⟩
  · rw [h.segments, if_pos rfl]
    exact ha.insert (hdata.offset ▸ (ha hs).1) (hdata.size ▸ (ha hs).2)
  · rcases h.calls hcall with hold | rfl | ⟨old, hold, rfl⟩
    · exact hc call hold
    · exact ⟨hdata.size ▸ hlayout.pos hs, hdata.size ▸ (ha hs).2⟩
    · exact ⟨rfl, hlayout.pos hold, (ha hold).2⟩

/-- A clean segment on a fresh buffer put into a gap. -/
theorem FreshStore.grows_add {k : Nat} {s : ObjectSegment} (h : FreshStore B c c' id k s)
    (hlayout : LayoutOk (c'.segments id)) (hnew : ∀ t, ¬ c.HasSegment id k t)
    (hdirty : s.dirty = false) (hpos : 0 < s.getSize)
    (halign : Aligned A (c.segments id) → A ∣ s.offset ∧ A ∣ s.getSize)
    (hload : Loaded s.offset s.getSize → ∀ i < s.getSize,
      c'.memory.bytes s.memory.buffer i = c.disk B id (s.offset + i))
    (hdisk : c'.disk B = c.disk B) : Grows B A Loaded c c' id := by
  have hne : ∀ {id' k' t}, c.HasSegment id' k' t → ¬ (id' = id ∧ k' = k) := by
    rintro id' k' t ht ⟨rfl, rfl⟩
    exact hnew t ht
  have hstay : ∀ {id' k' t}, c.HasSegment id' k' t → c'.HasSegment id' k' t :=
    fun ht => h.hasSegment.mpr (Or.inr ⟨hne ht, ht⟩)
  have hbytes : ∀ {id' k' t}, c.HasSegment id' k' t →
      c'.memory.bytes t.memory.buffer = c.memory.bytes t.memory.buffer :=
    fun ht => h.bytes _ (h.unowned ht)
  refine ⟨h.memoryOk, hlayout, h.header, fun hid => ?_, fun _ ht => hbytes ht,
    fun ht => ⟨_, hstay ht, .of_bytes (hbytes ht)⟩, fun {k' t} ht hno => ?_,
    fun ht hex => ⟨hstay ht, h.exclusive_mono ht hex⟩, hdisk, h.overrun, fun ha => ?_,
    fun ha hc call hcall => ?_⟩
  · rw [h.segments, if_neg hid]
  · rcases h.hasSegment.mp ht with ⟨-, -, rfl⟩ | ⟨-, hold⟩
    · exact ⟨hdirty, hload⟩
    · exact absurd hold (hno t)
  · rw [h.segments, if_pos rfl]
    exact ha.insert (halign ha).1 (halign ha).2
  · rcases h.calls hcall with hold | rfl | ⟨old, hold, -⟩
    · exact hc call hold
    · exact ⟨hpos, (halign ha).2⟩
    · exact absurd hold (hnew old)

end Grows

/-! ## Loading a segment -/

/-- The storage is read back faithfully: there is one, and a result that is not
full is either refused or impossible. -/
def Readable (B : Backends μ σ) (acceptLoadFail : Bool) : Prop :=
  ∃ sb, B.storageBackend = some sb ∧ (acceptLoadFail = false ∨ sb.Reliable)

/-- There is a storage, and it reads the range in full into the chunk that
`loadSegment` allocates. -/
def readsInFull (B : Backends μ σ) (c : Container μ σ) (id : ObjectId) (offset size : Nat) : Bool :=
  B.storageBackend.isSome && decide (SizeT.ofInt (({ c with
    memory := (c.memory.allocate B.memoryBackend size).2 } : Container μ σ).pread B id
      (c.memory.allocate B.memoryBackend size).1 size offset).1 = size)

/-- The chunk that `loadSegment` allocates, filled when it loads, and the status. -/
def loadChunk (B : Backends μ σ) (c : Container μ σ) (id : ObjectId) (offset size : Nat)
    (load : Bool) : Int × Container μ σ :=
  if load then ({ c with
      memory := (c.memory.allocate B.memoryBackend size).2 } : Container μ σ).pread B id
    (c.memory.allocate B.memoryBackend size).1 size offset
  else ((size : Int), { c with memory := (c.memory.allocate B.memoryBackend size).2 })

theorem loadSegment_eq (c : Container μ σ) (id : ObjectId) (offset size : Nat)
    (load acceptLoadFail : Bool) :
    c.loadSegment B id offset size load acceptLoadFail =
      if load = true ∧ SizeT.ofInt (c.loadChunk B id offset size load).1 ≠ size ∧
          acceptLoadFail = false then
        (none, { (c.loadChunk B id offset size load).2 with
          memory := (c.loadChunk B id offset size load).2.memory.deallocate B.memoryBackend
            (c.memory.allocate B.memoryBackend size).1 size })
      else
        (some ⟨⟨(c.memory.allocate B.memoryBackend size).1, 0⟩, offset, size⟩,
          (c.loadChunk B id offset size load).2.storeSegment B id
            (SizeT.sub (SizeT.add offset size) 1)
            ⟨⟨(c.memory.allocate B.memoryBackend size).1, size⟩, offset, false⟩) := rfl

/-- Filling the chunk changes its bytes and the state of the storage only. -/
structure ChunkLoaded (B : Backends μ σ) (c : Container μ σ) (id : ObjectId) (offset size : Nat)
    (load : Bool) (status : Int) (m : Memory μ) (st : σ) : Prop where
  backend  : m.backend = (c.memory.allocate B.memoryBackend size).2.backend
  bytes    : ∀ a, a ≠ (c.memory.allocate B.memoryBackend size).1 → m.bytes a = c.memory.bytes a
  overruns : m.overruns = c.memory.overruns
  calls    : m.calls = c.memory.calls ++ [.allocate size]
  disk     : ({ c with memory := m, storage := st } : Container μ σ).disk B = c.disk B
  full     : load = true → B.storageBackend.isSome = true → SizeT.ofInt status = size →
    ∀ i < size, m.bytes (c.memory.allocate B.memoryBackend size).1 i = c.disk B id (offset + i)
  reliable : load = true → Readable B true → size < 2 ^ 64 → SizeT.ofInt status = size

theorem loadChunk_loaded (c : Container μ σ) (id : ObjectId) (offset size : Nat) (load : Bool) :
    ∃ m st, (c.loadChunk B id offset size load).2 = { c with memory := m, storage := st } ∧
      ChunkLoaded B c id offset size load (c.loadChunk B id offset size load).1 m st := by
  unfold loadChunk
  cases load with
  | false =>
    exact ⟨_, c.storage, rfl, rfl, fun _ _ => rfl, rfl, rfl, rfl,
      fun h => absurd h (by decide), fun h => absurd h (by decide)⟩
  | true =>
    rw [if_pos rfl, pread]
    cases hsb : B.storageBackend with
    | none =>
      refine ⟨_, c.storage, rfl, rfl, fun _ _ => rfl, rfl, rfl, rfl, fun _ h => ?_, ?_⟩
      · rw [hsb] at h
        exact absurd h (by simp)
      · rintro - ⟨sb, hsome, -⟩
        exact absurd (hsb.symm.trans hsome) (by simp)
    | some sb =>
      refine ⟨_, _, rfl, rfl, fun a ha => ?_, rfl, rfl, ?_, fun _ _ hfull i hi => ?_, ?_⟩
      · funext i
        exact if_neg fun hc => ha hc.1
      · rw [disk, disk, hsb]
        exact sb.disk_pread
      · rw [disk, hsb]
        exact (if_pos ⟨rfl, hi⟩).trans (sb.pread_full hfull i hi)
      · rintro - ⟨sb', hsome, hacc | hrel⟩ hlt
        · exact absurd hacc (by decide)
        · obtain rfl := Option.some.inj (hsb.symm.trans hsome)
          exact hrel.pread _ _ _ _ _ hlt

/-- `loadSegment` either gives the chunk back and reports a failure, or stores
a clean segment on it. -/
theorem loadSegment_cases (h : MemoryOk B c) (offset size : Nat) (load acceptLoadFail : Bool) :
    ((c.loadSegment B id offset size load acceptLoadFail).1 = none ∧
      acceptLoadFail = false ∧ (size < 2 ^ 64 → ¬ Readable B true) ∧
      ∃ m st, (c.loadSegment B id offset size load acceptLoadFail).2 =
          { c with memory := m, storage := st } ∧
        MemoryOk B ({ c with memory := m, storage := st } : Container μ σ) ∧
        (∀ {id' k s}, c.HasSegment id' k s →
          m.bytes s.memory.buffer = c.memory.bytes s.memory.buffer) ∧
        m.overruns = c.memory.overruns ∧
        ({ c with memory := m, storage := st } : Container μ σ).disk B = c.disk B ∧
        m.calls = c.memory.calls ++ [.allocate size, .deallocate (some size) size]) ∨
    ∃ s, (c.loadSegment B id offset size load acceptLoadFail).1 = some s.getSegmentDescr ∧
      s.offset = offset ∧ s.getSize = size ∧ s.dirty = false ∧
      FreshStore B c (c.loadSegment B id offset size load acceptLoadFail).2 id
        (SizeT.sub (SizeT.add offset size) 1) s ∧
      (c.loadSegment B id offset size load acceptLoadFail).2.disk B = c.disk B ∧
      (load = true → size < 2 ^ 64 → Readable B acceptLoadFail → ∀ i < size,
        (c.loadSegment B id offset size load acceptLoadFail).2.memory.bytes s.memory.buffer i =
          c.disk B id (offset + i)) ∧
      (load = true → c.readsInFull B id offset size = true → ∀ i < size,
        (c.loadSegment B id offset size load acceptLoadFail).2.memory.bytes s.memory.buffer i =
          c.disk B id (offset + i)) := by
  obtain ⟨m, st, hr, hl⟩ := c.loadChunk_loaded (B := B) id offset size load
  rw [loadSegment_eq, hr]
  split_ifs with hfail
  · refine Or.inl ⟨rfl, hfail.2.2, fun hlt hread => hfail.2.1 (hl.reliable hfail.1 hread hlt), _,
      st, rfl, h.deallocate hl.backend, fun hs => hl.bytes _ (h.ne_allocated hs), hl.overruns,
      hl.disk, ?_⟩
    have hown : B.memoryBackend.chunk m.backend (c.memory.allocate B.memoryBackend size).1 =
        some size := by
      rw [h.chunk_allocated hl.backend, if_pos rfl]
    rw [Memory.deallocate, hown, hl.calls, List.append_assoc]
    rfl
  · refine Or.inr ⟨⟨⟨(c.memory.allocate B.memoryBackend size).1, size⟩, offset, false⟩, rfl, rfl,
      rfl, rfl, freshStore_of_allocate h rfl hl.backend hl.bytes hl.overruns hl.calls, ?_, ?_, ?_⟩
    · rw [disk_of_storage (storage_storeSegment ..), hl.disk]
    · intro hload hlt hread i hi
      obtain ⟨sb, hsb, hok⟩ := hread
      have hst : SizeT.ofInt (c.loadChunk B id offset size load).1 = size := by
        rcases hok with hacc | hrel
        · by_contra hne
          exact hfail ⟨hload, hne, hacc⟩
        · exact hl.reliable hload ⟨sb, hsb, Or.inr hrel⟩ hlt
      rw [bytes_storeSegment]
      exact hl.full hload (by rw [hsb]; rfl) hst i hi
    · intro hload hread i hi
      unfold readsInFull at hread
      rw [Bool.and_eq_true, decide_eq_true_eq] at hread
      have hst : SizeT.ofInt (c.loadChunk B id offset size load).1 = size := by
        rw [loadChunk, if_pos hload]
        exact hread.2
      rw [bytes_storeSegment]
      exact hl.full hload hread.1 hst i hi

/-! ## Where segments appear -/

/-- No segment of `id` appeared between `c` and `c'`. -/
def SameKeys (c c' : Container μ σ) (id : ObjectId) : Prop :=
  ∀ k s, c'.HasSegment id k s → ∃ t, c.HasSegment id k t

theorem SameKeys.refl (c : Container μ σ) (id : ObjectId) : SameKeys c c id := fun _ s hs => ⟨s, hs⟩

theorem SameKeys.trans (h : SameKeys c c' id) (h' : SameKeys c' c'' id) : SameKeys c c'' id := by
  intro k s hs
  obtain ⟨t, ht⟩ := h' k s hs
  exact h k t ht

/-- The segments of `id` that appeared between `c` and `c'` lie in `[b, e)`. -/
def AddsInside (c c' : Container μ σ) (id : ObjectId) (b e : Nat) : Prop :=
  ∀ k s, c'.HasSegment id k s → (∃ t, c.HasSegment id k t) ∨ b ≤ s.offset ∧ s.stop ≤ e

theorem SameKeys.addsInside (h : SameKeys c c' id) (b e : Nat) : AddsInside c c' id b e :=
  fun k s hs => Or.inl (h k s hs)

theorem AddsInside.trans {A b e : Nat} {Loaded : Nat → Nat → Prop} (h : AddsInside c c' id b e)
    (hg : Grows B A Loaded c' c'' id) (h' : AddsInside c' c'' id b e) :
    AddsInside c c'' id b e := by
  intro k s hs
  rcases h' k s hs with ⟨t, ht⟩ | hin
  · -- it was there in between, with the same range
    obtain ⟨t', ht', hsame⟩ := hg.kept ht
    obtain rfl := hasSegment_unique ht' hs
    rcases h k t ht with hold | hin
    · exact Or.inl hold
    · unfold ObjectSegment.stop at *
      rw [hsame.offset, hsame.size]
      exact Or.inr hin
  · exact Or.inr hin

theorem AddsInside.mono {b b' e e' : Nat} (h : AddsInside c c' id b e) (hb : b' ≤ b)
    (he : e ≤ e') : AddsInside c c' id b' e' := fun k s hs =>
  (h k s hs).imp_right fun hin => ⟨hb.trans hin.1, hin.2.trans he⟩

/-! ## The extraction loop -/

/-- What the loop does with one segment: a write moves a shared one to its own
buffer, and from then on the segment is the buffer's only owner. -/
theorem unshare_spec {A base k : Nat} (Loaded : Nat → Nat → Prop) {mode : ObjectAccessMode}
    {s : ObjectSegment} {pre es : List (Nat × ObjectSegment)} (hmem : MemoryOk B c)
    (hlay : LayoutOk (c.segments id))
    (hlb : (c.segments id).lowerBound base = pre ++ (k, s) :: es)
    {r : ObjectSegment × Container μ σ}
    (hr : r = if mode = .write ∧ c.isCow s = true then c.applyCow B id k s else (s, c)) :
    (r.2.segments id).lowerBound base = pre ++ (k, r.1) :: es ∧ Grows B A Loaded c r.2 id ∧
      r.1.offset = s.offset ∧ r.1.getSize = s.getSize ∧ SameKeys c r.2 id ∧
      (mode = .write → r.2.Exclusive id k r.1.memory.buffer) := by
  have hs : c.HasSegment id k s := by
    have : (k, s) ∈ (c.segments id).lowerBound base := hlb ▸ by simp
    exact (OrderedMap.mem_lowerBound.mp this).1
  split_ifs at hr with hcow
  · have hfresh := applyCow_fresh hmem id k s
    rw [← hr] at hfresh
    refine ⟨?_, ?_, by rw [hr]; rfl, by rw [hr]; rfl, fun k' t ht => ?_,
      fun _ => hfresh.exclusive⟩
    · rw [hfresh.segments, if_pos rfl]
      exact OrderedMap.lowerBound_insert_replace hlb
    · refine hfresh.grows_replace hlay hs ?_ hcow.2 ?_
      · rw [hr]
        exact ⟨rfl, rfl, rfl, fun i hi => applyCow_bytes c id k s hi⟩
      · rw [hr]
        exact disk_of_storage (storage_applyCow ..)
    · rcases hfresh.hasSegment.mp ht with ⟨-, rfl, -⟩ | ⟨-, ht'⟩
      · exact ⟨s, hs⟩
      · exact ⟨t, ht'⟩
  · subst hr
    refine ⟨hlb, .refl hmem hlay, rfl, rfl, .refl c id, fun hmode => ?_⟩
    exact exclusive_of_not_cow hs (Bool.eq_false_iff.mpr fun hc => hcow ⟨hmode, hc⟩)

/-- The loop visits the segments of the map in order, takes those that
overlap the range until one does not, and leaves each of them, unshared when
the access is a write, in its place. -/
theorem extractSegments_spec {A base size : Nat} (Loaded : Nat → Nat → Prop)
    {mode : ObjectAccessMode} {es : List (Nat × ObjectSegment)} :
    ∀ {pre : List (Nat × ObjectSegment)} {c : Container μ σ}, MemoryOk B c →
      LayoutOk (c.segments id) → (c.segments id).lowerBound base = pre ++ es →
      ∀ {r}, r = extractSegments B id base size mode es c → ∃ taken rest,
        r.1 = taken.map (fun e => e.2.getSegmentDescr) ∧
        (r.2.segments id).lowerBound base = pre ++ taken ++ rest ∧
        Grows B A Loaded c r.2 id ∧ SameKeys c r.2 id ∧
        (∀ e ∈ taken, e.2.overlap base size = true ∧ ∃ s, (e.1, s) ∈ es) ∧
        (∀ e ∈ rest.head?, e.2.overlap base size = false) ∧
        (mode = .write → ∀ e ∈ taken, r.2.Exclusive id e.1 e.2.memory.buffer) := by
  induction es with
  | nil =>
    intro pre c hmem hlay hlb r hr
    subst hr
    refine ⟨[], [], rfl, ?_, .refl hmem hlay, .refl c id, by simp, by simp, by simp⟩
    simpa [extractSegments] using hlb
  | cons e es ih =>
    intro pre c hmem hlay hlb r hr
    by_cases hov : e.2.overlap base size = true
    · rw [extractSegments, if_pos hov] at hr
      obtain ⟨u, hu⟩ : ∃ u, u =
        if mode = .write ∧ c.isCow e.2 = true then c.applyCow B id e.1 e.2 else (e.2, c) := ⟨_, rfl⟩
      obtain ⟨hlb1, hgrow1, hoff, hsize, hkeys1, hex1⟩ :=
        unshare_spec (A := A) Loaded hmem hlay hlb hu
      rw [← hu] at hr
      have hpre1 : (u.2.segments id).lowerBound base = (pre ++ [(e.1, u.1)]) ++ es := by
        simpa using hlb1
      obtain ⟨taken, rest, hlist, hlb2, hgrow2, hkeys2, hovs, hrest, hex2⟩ :=
        ih hgrow1.memoryOk hgrow1.layout hpre1 rfl
      subst hr
      refine ⟨(e.1, u.1) :: taken, rest, congrArg _ hlist, by simpa using hlb2,
        hgrow1.trans hgrow2, hkeys1.trans hkeys2, ?_, hrest, fun hmode => ?_⟩
      · intro w hw
        rcases List.mem_cons.mp hw with rfl | hw
        · rw [ObjectSegment.overlap, hoff, hsize]
          exact ⟨hov, e.2, List.mem_cons_self ..⟩
        · obtain ⟨hw1, t, ht⟩ := hovs w hw
          exact ⟨hw1, t, List.mem_cons_of_mem _ ht⟩
      · intro w hw
        rcases List.mem_cons.mp hw with rfl | hw
        · -- a buffer with one owner keeps it through the rest of the loop
          have hs : u.2.HasSegment id e.1 u.1 := by
            have : (e.1, u.1) ∈ (u.2.segments id).lowerBound base := hlb1 ▸ by simp
            exact (OrderedMap.mem_lowerBound.mp this).1
          exact (hgrow2.exclusive hs (hex1 hmode)).2
        · exact hex2 hmode w hw
    · rw [extractSegments, if_neg hov] at hr
      subst hr
      refine ⟨[], e :: es, rfl, by simpa using hlb, .refl hmem hlay, .refl c id, by simp, ?_,
        by simp⟩
      intro w hw
      obtain rfl : e = w := by simpa using hw
      simpa using hov

/-! ## Loading the gaps -/

/-- A gap filled by the request `[origBase, origBase + origSize)` holds the
stored bytes: it was read, and the read was full. -/
def GapLoaded (B : Backends μ σ) (origBase origSize : Nat) (load isForWriteOp : Bool)
    (offset size : Nat) : Prop :=
  load = true ∧ Readable B isForWriteOp ∧
    ¬ (isForWriteOp = true ∧ isFullyOverlapped offset size origBase origSize = true)

/-- Filling a gap either fails and changes nothing, or stores a clean segment
over exactly that gap, on a buffer of its own. -/
theorem loadGap_spec {A origBase origSize lo hi : Nat} {load isForWriteOp : Bool}
    (hmem : MemoryOk B c) (hlay : LayoutOk (c.segments id)) (hlt : lo < hi) (hhi : hi < 2 ^ 64)
    (hgap : ∀ k t, c.HasSegment id k t → t.stop ≤ lo ∨ hi ≤ t.offset)
    (halign : Aligned A (c.segments id) → A ∣ lo ∧ A ∣ hi)
    {r : Option ObjectSegmentDescr × Container μ σ}
    (hr : r = c.loadGap B id origBase origSize load isForWriteOp lo (hi - lo)) :
    Grows B A (GapLoaded B origBase origSize load isForWriteOp) c r.2 id ∧
      AddsInside c r.2 id lo hi ∧ (r.1 = none → isForWriteOp = false ∧ ¬ Readable B true) ∧
      ∀ descr, r.1 = some descr → ∃ s, descr = s.getSegmentDescr ∧ s.offset = lo ∧
        s.getSize = hi - lo ∧ r.2.segments id = (c.segments id).insert (hi - 1) s ∧
        r.2.Exclusive id (hi - 1) s.memory.buffer := by
  have hkey : SizeT.sub (SizeT.add lo (hi - lo)) 1 = hi - 1 := by
    rw [SizeT.add_eq (by omega), SizeT.sub_eq (by omega) (by omega)]
    omega
  have hdvd : Aligned A (c.segments id) → A ∣ hi - lo := fun ha =>
    Nat.dvd_sub (halign ha).2 (halign ha).1
  rw [loadGap] at hr
  rcases loadSegment_cases hmem lo (hi - lo)
      (if isForWriteOp && isFullyOverlapped lo (hi - lo) origBase origSize then false else load)
      isForWriteOp with ⟨hnone, hacc, hno, m, st, hc', hok, hbytes, hover, hdisk, hcalls⟩ |
      ⟨s, hsome, hoff, hsize, hdirty, hfresh, hdisk, hload, -⟩
  · rw [← hr] at hnone hc'
    rw [hc']
    refine ⟨?_, fun k t ht => Or.inl ⟨t, ht⟩, fun _ => ⟨hacc, hno (by omega)⟩,
      fun descr hd => absurd (hnone.symm.trans hd) (by simp)⟩
    refine .of_same hok hlay rfl (fun _ => rfl) hbytes hdisk hover fun ha hc call hcall => ?_
    -- the chunk of the failed load was allocated and given back
    rw [show ({ c with memory := m, storage := st } : Container μ σ).memory.calls = _ from hcalls,
      List.mem_append] at hcall
    rcases hcall with hcall | hcall
    · exact hc call hcall
    · rcases List.mem_cons.mp hcall with rfl | hcall
      · exact ⟨by omega, hdvd ha⟩
      · rw [List.mem_singleton.mp hcall]
        exact ⟨rfl, by omega, hdvd ha⟩
  · rw [← hr] at hsome hfresh hdisk hload
    rw [hkey] at hfresh
    have hstop : s.stop = hi := by
      unfold ObjectSegment.stop
      omega
    have hnew : ∀ t, ¬ c.HasSegment id (hi - 1) t := by
      intro t ht
      have h1 := hlay.key ht
      have h2 := hlay.pos ht
      have h3 := hgap _ t ht
      unfold ObjectSegment.stop at h1 h3
      omega
    refine ⟨?_, fun k t ht => ?_, fun h => absurd (h.symm.trans hsome) (by simp),
      fun descr hd => ?_⟩
    · refine hfresh.grows_add ?_ hnew hdirty (by omega) (fun ha => ?_) ?_ hdisk
      · rw [hfresh.segments, if_pos rfl]
        refine hlay.insert_gap (by omega) (by omega) (by omega) fun k t ht => ?_
        rw [hoff, hstop]
        exact hgap k t ht
      · rw [hoff, hsize]
        exact ⟨(halign ha).1, hdvd ha⟩
      · rintro ⟨hl, hread, hcov⟩ i hi'
        rw [hoff, hsize] at hcov
        rw [hsize] at hi'
        rw [hoff]
        refine hload ?_ (by omega) hread i hi'
        rw [if_neg (by simpa using hcov), hl]
    · rcases hfresh.hasSegment.mp ht with ⟨-, -, rfl⟩ | ⟨-, ht'⟩
      · exact Or.inr ⟨hoff.ge, hstop.le⟩
      · exact Or.inl ⟨t, ht'⟩
    · refine ⟨s, Option.some.inj (hd.symm.trans hsome), hoff, hsize, ?_, hfresh.exclusive⟩
      rw [hfresh.segments, if_pos rfl]

/-- The bindings from `lower_bound(b)` on are segments of the object. -/
theorem hasSegment_of_lowerBound {b : Nat} {pre post : List (Nat × ObjectSegment)}
    {e : Nat × ObjectSegment} (hlb : (c.segments id).lowerBound b = pre ++ post)
    (he : e ∈ pre ++ post) : c.HasSegment id e.1 e.2 :=
  (OrderedMap.mem_lowerBound.mp (hlb ▸ he : e ∈ (c.segments id).lowerBound b)).1

/-- Position `x` is `lo`, or the end of a segment of `taken`. -/
def Follows (lo : Nat) (taken : List (Nat × ObjectSegment)) (x : Nat) : Prop :=
  x = lo ∨ ∃ t ∈ taken, t.2.stop = x

theorem Follows.cons {lo x : Nat} {t : Nat × ObjectSegment} {ts : List (Nat × ObjectSegment)}
    (h : Follows t.2.stop ts x) : Follows lo (t :: ts) x := by
  rcases h with rfl | ⟨t', ht', hx⟩
  · exact Or.inr ⟨t, List.mem_cons_self .., rfl⟩
  · exact Or.inr ⟨t', List.mem_cons_of_mem _ ht', hx⟩

/-- The gaps between the collected segments, loaded as `tmp`, are woven into
them: together they follow each other from `lo` to `last`, and each new segment
reaches from one collected segment to the next. -/
structure Woven (id : ObjectId) (A b lo last : Nat) (pre taken rest : List (Nat × ObjectSegment))
    (tmp : List ObjectSegmentDescr) (c : Container μ σ) (woven : List (Nat × ObjectSegment)) :
    Prop where
  lowerBound : (c.segments id).lowerBound b = pre ++ (woven ++ rest)
  tiles      : Tiles (fun e => e.2.offset) (fun e => e.2.getSize) lo woven last
  perm       : (taken.map (fun e => e.2.getSegmentDescr) ++ tmp).Perm
    (woven.map fun e => e.2.getSegmentDescr)
  old        : ∀ t ∈ taken, t ∈ woven
  new        : ∀ w ∈ woven, w ∈ taken ∨ c.Exclusive id w.1 w.2.memory.buffer ∧ b ≤ w.2.offset ∧
    Follows lo taken w.2.offset ∧ ∃ t ∈ taken, w.2.stop = t.2.offset
  le_last    : b ≤ last
  ends       : Follows lo taken last
  aligned    : Aligned A (c.segments id) → A ∣ last

/-- What a run of the second loop from `lo` on `taken` leaves: the container has
grown, and when no load failed all gaps are filled. -/
structure Completed (B : Backends μ σ) (id : ObjectId) (A origBase origSize : Nat)
    (load isForWriteOp : Bool) (b lo : Nat) (pre taken rest : List (Nat × ObjectSegment))
    (c : Container μ σ) (r : Option (List ObjectSegmentDescr × Nat) × Container μ σ) : Prop where
  grows  : Grows B A (GapLoaded B origBase origSize load isForWriteOp) c r.2 id
  inside : ∀ {e}, (∀ t ∈ taken, t.2.offset ≤ e) → AddsInside c r.2 id b e
  failed : r.1 = none → isForWriteOp = false ∧ ¬ Readable B true
  woven  : ∀ {tmp last}, r.1 = some (tmp, last) → ∃ woven,
    Woven id A b lo last pre taken rest tmp r.2 woven

section Completed

variable {A origBase origSize b lo last : Nat} {load isForWriteOp : Bool} {c1 c2 : Container μ σ}
  {pre ts rest woven : List (Nat × ObjectSegment)} {t : Nat × ObjectSegment}
  {tmp : List ObjectSegmentDescr}

/-- The new segments after a collected segment. -/
theorem Woven.new_cons (h : Woven id A b t.2.stop last pre ts rest tmp c woven) (lo : Nat) :
    ∀ w ∈ woven, w ∈ t :: ts ∨ c.Exclusive id w.1 w.2.memory.buffer ∧ b ≤ w.2.offset ∧
      Follows lo (t :: ts) w.2.offset ∧ ∃ t' ∈ t :: ts, w.2.stop = t'.2.offset := by
  intro w hmem
  rcases h.new w hmem with hold | ⟨hex, hb, hfol, t', ht', hstop⟩
  · exact Or.inl (List.mem_cons_of_mem _ hold)
  · exact Or.inr ⟨hex, hb, hfol.cons, t', List.mem_cons_of_mem _ ht', hstop⟩

/-- A segment that starts where the last one ended needs no load. -/
theorem Completed.cons_adjacent {r : Option (List ObjectSegmentDescr × Nat) × Container μ σ}
    (h : Completed B id A origBase origSize load isForWriteOp b t.2.stop (pre ++ [t]) ts rest c r)
    (heq : t.2.offset = lo) (hpos : 0 < t.2.getSize) :
    Completed B id A origBase origSize load isForWriteOp b lo pre (t :: ts) rest c r := by
  refine ⟨h.grows, fun he => h.inside fun t' ht' => he t' (List.mem_cons_of_mem _ ht'), h.failed,
    fun hsome => ?_⟩
  obtain ⟨woven, hw⟩ := h.woven hsome
  refine ⟨t :: woven, by simpa using hw.lowerBound, ⟨heq, hpos, hw.tiles⟩, hw.perm.cons _,
    fun t' ht' => ?_, fun w hmem => ?_, hw.le_last, hw.ends.cons, hw.aligned⟩
  · rcases List.mem_cons.mp ht' with rfl | ht'
    · exact List.mem_cons_self ..
    · exact List.mem_cons_of_mem _ (hw.old t' ht')
  · rcases List.mem_cons.mp hmem with rfl | hmem
    · exact Or.inl (List.mem_cons_self ..)
    · exact hw.new_cons lo w hmem

/-- A gap before a segment is loaded, then the loop goes on after the segment. -/
theorem Completed.cons_gap {k : Nat} {s : ObjectSegment}
    {q : Option (List ObjectSegmentDescr × Nat) × Container μ σ}
    (hgrow : Grows B A (GapLoaded B origBase origSize load isForWriteOp) c c1 id)
    (hadd : AddsInside c c1 id lo t.2.offset)
    (hs : c1.HasSegment id k s) (hex : c1.Exclusive id k s.memory.buffer) (hb : b ≤ lo)
    (hoff : s.offset = lo) (hstop : s.stop = t.2.offset) (hspos : 0 < s.getSize)
    (htpos : 0 < t.2.getSize)
    (h : Completed B id A origBase origSize load isForWriteOp b t.2.stop (pre ++ [(k, s), t]) ts
      rest c1 q) :
    Completed B id A origBase origSize load isForWriteOp b lo pre (t :: ts) rest c
      (q.1.map fun r => (s.getSegmentDescr :: r.1, r.2), q.2) := by
  have hin : ∀ {e}, (∀ t' ∈ t :: ts, t'.2.offset ≤ e) → AddsInside c q.2 id b e := by
    intro e he
    have h1 : AddsInside c c1 id b e := (hadd.mono hb (he t (List.mem_cons_self ..)))
    exact h1.trans h.grows (h.inside fun t' ht' => he t' (List.mem_cons_of_mem _ ht'))
  obtain ⟨q1, c2⟩ := q
  cases q1 with
  | none =>
    exact ⟨hgrow.trans h.grows, hin, fun _ => h.failed rfl, fun hsome => absurd hsome (by simp)⟩
  | some p =>
    refine ⟨hgrow.trans h.grows, hin, fun hnone => absurd hnone (by simp),
      fun {tmp last} hsome => ?_⟩
    obtain ⟨rfl, rfl⟩ := Prod.mk.inj (Option.some.inj hsome)
    obtain ⟨woven, hw⟩ := h.woven rfl
    refine ⟨(k, s) :: t :: woven, by simpa using hw.lowerBound,
      ⟨hoff, hspos, hstop.symm, htpos, hw.tiles⟩, ?_, fun t' ht' => ?_, fun w hmem => ?_,
      hw.le_last, hw.ends.cons, hw.aligned⟩
    · simp only [List.map_cons, List.cons_append]
      refine (List.Perm.cons _ List.perm_middle).trans ((List.Perm.swap _ _ _).trans ?_)
      exact (hw.perm.cons _).cons _
    · rcases List.mem_cons.mp ht' with rfl | ht'
      · exact List.mem_cons_of_mem _ (List.mem_cons_self ..)
      · exact List.mem_cons_of_mem _ (List.mem_cons_of_mem _ (hw.old t' ht'))
    · rcases List.mem_cons.mp hmem with rfl | hmem
      · exact Or.inr ⟨(h.grows.exclusive hs hex).2, hoff ▸ hb, Or.inl hoff, t,
          List.mem_cons_self .., hstop⟩
      · rcases List.mem_cons.mp hmem with rfl | hmem
        · exact Or.inl (List.mem_cons_self ..)
        · exact hw.new_cons lo w hmem

end Completed

/-- The second loop, on the segments of an iteration of the map. -/
theorem completeSegments_spec {A origBase origSize b : Nat} {load isForWriteOp : Bool}
    {rest taken : List (Nat × ObjectSegment)} :
    ∀ {pre : List (Nat × ObjectSegment)} {lo : Nat} {c : Container μ σ}, MemoryOk B c →
      LayoutOk (c.segments id) → (c.segments id).lowerBound b = pre ++ (taken ++ rest) →
      b ≤ lo → (∀ e ∈ pre, e.2.stop ≤ lo) → (∀ e ∈ taken, lo ≤ e.2.offset) →
      (Aligned A (c.segments id) → A ∣ lo) →
      Completed B id A origBase origSize load isForWriteOp b lo pre taken rest c
        (completeSegments B id origBase origSize load isForWriteOp
          (taken.map fun e => e.2.getSegmentDescr) lo c) := by
  induction taken with
  | nil =>
    intro pre lo c hmem hlay hlb hb hpre htaken hA
    refine ⟨.refl hmem hlay, fun _ => (SameKeys.refl c id).addsInside _ _,
      fun h => absurd h (by simp [completeSegments]), ?_⟩
    intro tmp last hsome
    obtain ⟨rfl, rfl⟩ := Prod.mk.inj (Option.some.inj hsome)
    exact ⟨[], hlb, rfl, List.Perm.refl _, by simp, by simp, hb, Or.inl rfl, hA⟩
  | cons t ts ih =>
    intro pre lo c hmem hlay hlb hb hpre htaken hA
    have hlb' : (c.segments id).lowerBound b = (pre ++ [t]) ++ (ts ++ rest) := by simpa using hlb
    have ht : c.HasSegment id t.1 t.2 := hasSegment_of_lowerBound (e := t) hlb (by simp)
    have hpos := hlay.pos ht
    have hbound := hlay.bound ht
    have hlo := htaken t (List.mem_cons_self ..)
    have hadd : SizeT.add t.2.offset t.2.getSize = t.2.stop := SizeT.add_eq hbound
    have hstop : t.2.stop = t.2.offset + t.2.getSize := rfl
    have hnext : ∀ e ∈ ts ++ rest, t.2.stop ≤ e.2.offset := fun e he =>
      hlay.stop_le_offset hlb' (e := t) (by simp) he
    rw [List.map_cons, completeSegments]
    simp only [ObjectSegment.offset_getSegmentDescr, ObjectSegment.size_getSegmentDescr, hadd]
    by_cases hgap : lo < t.2.offset
    · rw [if_pos hgap]
      have hpost : ∀ e ∈ t :: (ts ++ rest), t.2.offset ≤ e.2.offset := by
        intro e he
        rcases List.mem_cons.mp he with rfl | he
        · exact le_rfl
        · have := hnext e he
          omega
      obtain ⟨hgrow, hadds, hnone, hsome⟩ := loadGap_spec (A := A) hmem hlay hgap
        (by omega) (fun k s hs => hlay.gap_of_lowerBound hlb hb hpre hpost hs)
        (fun ha => ⟨hA ha, (ha ht).1⟩) rfl
      generalize c.loadGap B id origBase origSize load isForWriteOp lo (t.2.offset - lo) = g
        at hgrow hadds hnone hsome ⊢
      obtain ⟨g1, c1⟩ := g
      cases g1 with
      | none =>
        exact ⟨hgrow, fun he => hadds.mono hb (he t (List.mem_cons_self ..)), fun _ => hnone rfl,
          fun h => absurd h (by simp)⟩
      | some descr =>
        obtain ⟨s, rfl, hoff, hsize, hseg, hex⟩ := hsome descr rfl
        dsimp only at hgrow hseg hex ⊢
        have hsstop : s.stop = t.2.offset := by
          unfold ObjectSegment.stop
          omega
        have hlb1 : (c1.segments id).lowerBound b =
            pre ++ (t.2.offset - 1, s) :: t :: (ts ++ rest) := by
          rw [hseg]
          refine OrderedMap.lowerBound_insert_between (by omega) hlb (fun e he => ?_) fun e he => ?_
          · have h1 := hlay.key (hasSegment_of_lowerBound hlb (List.mem_append_left _ he))
            have h2 := hpre e he
            omega
          · have h0 := hasSegment_of_lowerBound hlb (List.mem_append_right _ he)
            have h1 := hlay.key h0
            have h2 := hlay.pos h0
            have h3 := hpost e he
            unfold ObjectSegment.stop at h1
            omega
        have hs : c1.HasSegment id (t.2.offset - 1) s :=
          hasSegment_of_lowerBound (e := (t.2.offset - 1, s)) hlb1 (by simp)
        have ht1 : c1.HasSegment id t.1 t.2 := hasSegment_of_lowerBound (e := t) hlb1 (by simp)
        have hpre1 : (c1.segments id).lowerBound b =
            (pre ++ [(t.2.offset - 1, s), t]) ++ (ts ++ rest) := by
          simpa using hlb1
        have hrest := ih hgrow.memoryOk hgrow.layout hpre1 (by omega) (fun e he => by
            simp only [List.mem_append, List.mem_cons, List.not_mem_nil, or_false] at he
            rcases he with he | rfl | rfl
            · have := hpre e he
              omega
            · dsimp only
              omega
            · exact le_rfl)
          (fun e he => hnext e (List.mem_append_left _ he)) fun ha =>
          Nat.dvd_add (ha ht1).1 (ha ht1).2
        have hcons := Completed.cons_gap hgrow hadds hs hex hb hoff hsstop (by omega) hpos hrest
        generalize completeSegments B id origBase origSize load isForWriteOp
          (ts.map fun e => e.2.getSegmentDescr) t.2.stop c1 = q at hcons ⊢
        rcases q with ⟨_ | p, c2⟩ <;> exact hcons
    · rw [if_neg hgap]
      refine Completed.cons_adjacent ?_ (by omega) hpos
      refine ih hmem hlay hlb' (by omega) (fun e he => ?_)
        (fun e he => hnext e (List.mem_append_left _ he)) fun ha => Nat.dvd_add (ha ht).1 (ha ht).2
      rcases List.mem_append.mp he with he | he
      · have := hpre e he
        omega
      · rw [List.mem_singleton.mp he]

/-! ## The whole call -/

/-- `run` is a run of consecutive segments of `id` that reaches from `b` or
before to `e` or after, without a segment too many. -/
structure Covers (c : Container μ σ) (id : ObjectId) (b e : Nat)
    (run : List (Nat × ObjectSegment)) : Prop where
  held  : ∀ w ∈ run, c.HasSegment id w.1 w.2
  tiles : ∃ start last, start ≤ b ∧ e ≤ last ∧
    Tiles (fun w => w.2.offset) (fun w => w.2.getSize) start run last
  meets : ∀ w ∈ run, w.2.offset < e ∧ b < w.2.stop

/-- `run` is made of the segments that the object had in `c`, all of those that
meet the range, and of the gaps between them inside the range. -/
structure Weaves (c : Container μ σ) (id : ObjectId) (b e : Nat)
    (run : List (Nat × ObjectSegment)) : Prop where
  old : ∀ {k s}, c.HasSegment id k s → s.offset < e → b < s.stop → ∃ w ∈ run, w.1 = k
  new : ∀ w ∈ run, (∃ s, c.HasSegment id w.1 s) ∨ b ≤ w.2.offset ∧ w.2.stop ≤ e ∧
    (w.2.offset = b ∨ ∃ k s, c.HasSegment id k s ∧ b < s.stop ∧ s.stop = w.2.offset)

theorem Weaves.of_segments {b e : Nat} {run : List (Nat × ObjectSegment)}
    (h : Weaves c' id b e run) (hs : c'.segments id = c.segments id) : Weaves c id b e run := by
  have hiff : ∀ {k s}, c'.HasSegment id k s ↔ c.HasSegment id k s := by
    intro k s
    unfold HasSegment
    rw [hs]
  exact ⟨fun ht => h.old (hiff.mpr ht), fun w hw => by simpa only [hiff] using h.new w hw⟩

/-- What the first loop leaves: the segments that meet the range are a part of
the iteration from `lower_bound(b)`, and the object had them before. -/
structure Collected (B : Backends μ σ) (A : Nat) (Loaded : Nat → Nat → Prop) (id : ObjectId)
    (b e : Nat) (mode : ObjectAccessMode) (c c1 : Container μ σ)
    (taken rest : List (Nat × ObjectSegment)) : Prop where
  grows      : Grows B A Loaded c c1 id
  keys       : SameKeys c c1 id
  lowerBound : (c1.segments id).lowerBound b = taken ++ rest
  old        : ∀ t ∈ taken, ∃ s, c.HasSegment id t.1 s ∧ s.stop = t.2.stop
  meets      : ∀ t ∈ taken, t.2.offset < e
  beyond     : ∀ w ∈ rest, e ≤ w.2.offset
  exclusive  : mode = .write → ∀ t ∈ taken, c1.Exclusive id t.1 t.2.memory.buffer

/-- The first loop collects exactly the segments that meet the range. -/
theorem extractSegments_collects {A b e n : Nat} (Loaded : Nat → Nat → Prop)
    {mode : ObjectAccessMode} (hmem : MemoryOk B c) (hlay : LayoutOk (c.segments id))
    (he : e = SizeT.add b n) {found : List ObjectSegmentDescr × Container μ σ}
    (hfound : found = extractSegments B id b n mode ((c.segments id).lowerBound b) c) :
    ∃ taken rest, found.1 = taken.map (fun t => t.2.getSegmentDescr) ∧
      Collected B A Loaded id b e mode c found.2 taken rest := by
  obtain ⟨taken, rest, hlist, hlb, hgrow, hkeys, hov, hhead, hex⟩ :=
    extractSegments_spec (A := A) Loaded hmem hlay (List.nil_append _).symm hfound
  rw [List.nil_append] at hlb
  have hlay1 := hgrow.layout
  have hheld : ∀ t ∈ taken, found.2.HasSegment id t.1 t.2 := fun t ht =>
    hasSegment_of_lowerBound hlb (List.mem_append_left _ ht)
  refine ⟨taken, rest, hlist, hgrow, hkeys, hlb, fun t ht => ?_, fun t ht => ?_, ?_, hex⟩
  · obtain ⟨-, s, hs⟩ := hov t ht
    have hs' : c.HasSegment id t.1 s := (OrderedMap.mem_lowerBound.mp hs).1
    obtain ⟨t', ht', hsame⟩ := hgrow.kept hs'
    obtain rfl := hasSegment_unique ht' (hheld t ht)
    refine ⟨s, hs', ?_⟩
    unfold ObjectSegment.stop
    rw [hsame.offset, hsame.size]
  · have := (hlay1.overlap_iff (hheld t ht) b n).mp (hov t ht).1
    rw [← he] at this
    exact this.1
  · -- the first segment that does not meet the range starts after it
    cases rest with
    | nil => simp
    | cons w rest =>
      have hlb' : (found.2.segments id).lowerBound b = (taken ++ [w]) ++ rest := by simpa using hlb
      have hw : found.2.HasSegment id w.1 w.2 := hasSegment_of_lowerBound (e := w) hlb (by simp)
      have h1 : b < w.2.stop := hlay1.stop_of_lowerBound (k := w.1) (by rw [hlb]; simp)
      have h2 := hhead w rfl
      rw [Bool.eq_false_iff, ne_eq, hlay1.overlap_iff hw, ← he] at h2
      intro w' hw'
      rcases List.mem_cons.mp hw' with rfl | hw'
      · omega
      · have := hlay1.stop_le_offset hlb' (e := w) (by simp) hw'
        unfold ObjectSegment.stop at this
        omega

/-- The first collected segment may start before the range; the tiling then
starts there. -/
theorem completeSegments_around {A origBase origSize b : Nat} {load isForWriteOp : Bool}
    {rest taken : List (Nat × ObjectSegment)} (hmem : MemoryOk B c)
    (hlay : LayoutOk (c.segments id)) (hlb : (c.segments id).lowerBound b = taken ++ rest)
    (hA : Aligned A (c.segments id) → A ∣ b) :
    ∃ start ≤ b, Completed B id A origBase origSize load isForWriteOp b start [] taken rest c
      (completeSegments B id origBase origSize load isForWriteOp
        (taken.map fun e => e.2.getSegmentDescr) b c) := by
  by_cases hall : ∀ e ∈ taken, b ≤ e.2.offset
  · exact ⟨b, le_rfl, completeSegments_spec hmem hlay hlb le_rfl (by simp) hall hA⟩
  · -- only the first one can: the later ones start after its end
    cases taken with
    | nil => simp at hall
    | cons t ts =>
      have hlb' : (c.segments id).lowerBound b = [t] ++ (ts ++ rest) := hlb
      have ht : c.HasSegment id t.1 t.2 := hasSegment_of_lowerBound (e := t) hlb' (by simp)
      have hstop : b < t.2.stop := hlay.stop_of_lowerBound (k := t.1) (by rw [hlb]; simp)
      have hnext : ∀ e ∈ ts, t.2.stop ≤ e.2.offset := fun e he =>
        hlay.stop_le_offset hlb' (e := t) (by simp) (List.mem_append_left _ he)
      have hoff : t.2.offset < b := by
        by_contra hge
        refine hall fun e he => ?_
        rcases List.mem_cons.mp he with rfl | he
        · omega
        · have := hnext e he
          omega
      refine ⟨t.2.offset, by omega, ?_⟩
      have hno : ¬ b < t.2.getSegmentDescr.offset := by
        rw [ObjectSegment.offset_getSegmentDescr]
        omega
      rw [List.map_cons, completeSegments, if_neg hno, ObjectSegment.offset_getSegmentDescr,
        ObjectSegment.size_getSegmentDescr, show SizeT.add t.2.offset t.2.getSize = t.2.stop from
        SizeT.add_eq (hlay.bound ht)]
      refine Completed.cons_adjacent ?_ rfl (hlay.pos ht)
      exact completeSegments_spec hmem hlay hlb' (by omega) (by simp) hnext
        fun ha => Nat.dvd_add (ha ht).1 (ha ht).2

/-- Sorting the collected and the loaded descriptors puts them in the order of
the map. -/
theorem sortSegments_eq {lo hi : Nat} {l : List ObjectSegmentDescr}
    {run : List (Nat × ObjectSegment)}
    (htiles : Tiles (fun e => e.2.offset) (fun e => e.2.getSize) lo run hi)
    (hperm : l.Perm (run.map fun e => e.2.getSegmentDescr)) :
    sortSegments l = run.map fun e => e.2.getSegmentDescr := by
  have htotal : Std.Total fun a b : ObjectSegmentDescr => a.offset ≤ b.offset :=
    ⟨fun a b => Nat.le_total a.offset b.offset⟩
  have htrans : IsTrans ObjectSegmentDescr fun a b => a.offset ≤ b.offset :=
    ⟨fun _ _ _ => Nat.le_trans⟩
  have htiles' : Tiles (fun d : ObjectSegmentDescr => d.offset) (fun d => d.size) lo
      (run.map fun e => e.2.getSegmentDescr) hi := Tiles.map htiles
  exact htiles'.eq_of_perm ((List.perm_insertionSort _ l).trans hperm)
    (List.pairwise_insertionSort _ l)

section Assemble

variable {A b e start last : Nat} {Loaded : Nat → Nat → Prop} {mode : ObjectAccessMode}
  {c1 c2 c3 : Container μ σ} {taken rest woven : List (Nat × ObjectSegment)}
  {tmp : List ObjectSegmentDescr}

theorem Collected.lt_stop (h : Collected B A Loaded id b e mode c c1 taken rest) :
    ∀ t ∈ taken, b < t.2.stop := fun t ht =>
  h.grows.layout.stop_of_lowerBound (k := t.1) (by rw [h.lowerBound]; simp [ht])

/-- A new segment starts with the range or at the end of an old one. -/
theorem Collected.follows (h : Collected B A Loaded id b e mode c c1 taken rest)
    (hstart : start ≤ b) {x : Nat} (hx : b ≤ x) (hfol : Follows start taken x) :
    x = b ∨ ∃ k s, c.HasSegment id k s ∧ b < s.stop ∧ s.stop = x := by
  rcases hfol with rfl | ⟨t, ht, rfl⟩
  · exact Or.inl (Nat.le_antisymm hstart hx)
  · obtain ⟨s, hs, hstop⟩ := h.old t ht
    exact Or.inr ⟨t.1, s, hs, hstop ▸ h.lt_stop t ht, hstop⟩

/-- All segments of the object that meet the range are collected. -/
theorem Collected.complete (h : Collected B A Loaded id b e mode c c1 taken rest) {k : Nat}
    {s : ObjectSegment} (hs : c.HasSegment id k s) (hlt : s.offset < e) (hb : b < s.stop) :
    ∃ t ∈ taken, t.1 = k := by
  obtain ⟨s', hs', hsame⟩ := h.grows.kept hs
  have hstop : s'.stop = s.stop := by
    unfold ObjectSegment.stop
    rw [hsame.offset, hsame.size]
  have hkey := h.grows.layout.key hs'
  have hmem : (k, s') ∈ taken ++ rest :=
    h.lowerBound ▸ OrderedMap.mem_lowerBound.mpr ⟨hs', by dsimp only; omega⟩
  rcases List.mem_append.mp hmem with hmem | hmem
  · exact ⟨_, hmem, rfl⟩
  · have := h.beyond _ hmem
    have := hsame.offset
    dsimp only at *
    omega

theorem Woven.iteration (hw : Woven id A b start last [] taken rest tmp c2 woven) :
    (c2.segments id).lowerBound b = woven ++ rest := hw.lowerBound

theorem Woven.weaves (hw : Woven id A b start last [] taken rest tmp c2 woven)
    (h : Collected B A Loaded id b e mode c c1 taken rest) (hstart : start ≤ b) :
    Weaves c id b e woven := by
  refine ⟨fun hs hlt hb => ?_, fun w hmem => ?_⟩
  · obtain ⟨t, ht, hk⟩ := h.complete hs hlt hb
    exact ⟨t, hw.old t ht, hk⟩
  · rcases hw.new w hmem with hold | ⟨-, hb, hfol, t, ht, hstop⟩
    · obtain ⟨s, hs, -⟩ := h.old w hold
      exact Or.inl ⟨s, hs⟩
    · exact Or.inr ⟨hb, hstop ▸ (h.meets t ht).le, h.follows hstart hb hfol⟩

theorem Woven.meets (hw : Woven id A b start last [] taken rest tmp c2 woven)
    (h : Collected B A Loaded id b e mode c c1 taken rest) (hlay : LayoutOk (c2.segments id)) :
    ∀ w ∈ woven, w.2.offset < e ∧ b < w.2.stop := by
  intro w hmem
  refine ⟨?_, hlay.stop_of_lowerBound (k := w.1) (by rw [hw.lowerBound]; simp [hmem])⟩
  rcases hw.new w hmem with hold | ⟨-, -, -, t, ht, hstop⟩
  · exact h.meets w hold
  · have h1 := h.meets t ht
    have h2 : w.2.stop = w.2.offset + w.2.getSize := rfl
    omega

theorem Woven.exclusive (hw : Woven id A b start last [] taken rest tmp c2 woven)
    (h : Collected B A Loaded id b e mode c c1 taken rest) (hgrow : Grows B A Loaded c1 c2 id)
    (hmode : mode = .write) : ∀ w ∈ woven, c2.Exclusive id w.1 w.2.memory.buffer := by
  intro w hmem
  rcases hw.new w hmem with hold | ⟨hnew, -⟩
  · exact (hgrow.exclusive (hasSegment_of_lowerBound h.lowerBound (List.mem_append_left _ hold))
      (h.exclusive hmode w hold)).2
  · exact hnew

/-- The segments on both sides of the tail keep their place when it is
inserted. -/
theorem Woven.lowerBound_tail {s : ObjectSegment}
    (hw : Woven id A b start last [] taken rest tmp c2 woven) (hlay : LayoutOk (c2.segments id))
    (hbeyond : ∀ w ∈ rest, e ≤ w.2.offset) (hlt : last < e)
    (hseg : c3.segments id = (c2.segments id).insert (e - 1) s) :
    (c3.segments id).lowerBound b = (woven ++ [(e - 1, s)]) ++ rest := by
  have hle := hw.le_last
  rw [hseg, List.append_assoc, List.singleton_append]
  refine OrderedMap.lowerBound_insert_between (by omega) hw.iteration (fun w hmem => ?_)
    fun w hmem => ?_
  · have h1 := hlay.key (hasSegment_of_lowerBound hw.iteration (List.mem_append_left _ hmem))
    have h2 : w.2.stop ≤ last := (hw.tiles.mem_bounds hmem).2.2
    omega
  · have h0 := hasSegment_of_lowerBound hw.iteration (List.mem_append_right _ hmem)
    have h1 := hlay.key h0
    have h2 := hlay.pos h0
    have h3 := hbeyond w hmem
    unfold ObjectSegment.stop at h1
    omega

end Assemble

/-- What every call of `getBuffers` does, for every 64-bit request and every
result of the storage. -/
theorem getBuffers_spec {A base size : Nat} {mode : ObjectAccessMode} {load isForWriteOp : Bool}
    (hmem : MemoryOk B c) (hlay : LayoutOk (c.segments id)) {b e : Nat}
    (hb : b = (alignRange (c.object id).alignement base size).1)
    (he : e = SizeT.add b (alignRange (c.object id).alignement base size).2)
    (hA : A ∣ b ∧ A ∣ e) {r : Option (List ObjectSegmentDescr) × Container μ σ}
    (hr : r = c.getBuffers B id base size mode load isForWriteOp) :
    Grows B A (GapLoaded B base size load isForWriteOp) c r.2 id ∧ AddsInside c r.2 id b e ∧
      (r.1 = none → isForWriteOp = false ∧ ¬ Readable B true) ∧
      ∀ l, r.1 = some l → ∃ run, l = run.map (fun w => w.2.getSegmentDescr) ∧
        Covers r.2 id b e run ∧ Weaves c id b e run ∧
        (mode = .write → ∀ w ∈ run, r.2.Exclusive id w.1 w.2.memory.buffer) := by
  obtain ⟨n, hn⟩ : ∃ n, n = (alignRange (c.object id).alignement base size).2 := ⟨_, rfl⟩
  rw [getBuffers] at hr
  simp only [← hb, ← hn] at hr
  rw [← hn] at he
  rw [← he] at hr
  -- the collected segments
  obtain ⟨found, hfound⟩ : ∃ found, found = extractSegments B id b n mode
    ((c.segments id).lowerBound b) c := ⟨_, rfl⟩
  rw [← hfound] at hr
  obtain ⟨taken, rest, hlist, hcol⟩ := extractSegments_collects (A := A)
    (GapLoaded B base size load isForWriteOp) hmem hlay he hfound
  -- the gaps between them
  obtain ⟨start, hstart, hdone⟩ := completeSegments_around (A := A) hcol.grows.memoryOk
    hcol.grows.layout hcol.lowerBound fun _ => hA.1
  rw [← hlist] at hdone
  generalize completeSegments B id base size load isForWriteOp found.1 b found.2 = q at hr hdone
  obtain ⟨q1, c2⟩ := q
  have hgrow2 := hcol.grows.trans hdone.grows
  have hin2 : AddsInside c c2 id b e := (hcol.keys.addsInside b e).trans hdone.grows
    (hdone.inside fun t ht => (hcol.meets t ht).le)
  cases q1 with
  | none =>
    subst hr
    exact ⟨hgrow2, hin2, fun _ => hdone.failed rfl, fun l hl => absurd hl (by simp)⟩
  | some tmp =>
    obtain ⟨woven, hw⟩ := hdone.woven rfl
    have hperm := hw.perm
    rw [← hlist] at hperm
    have hmeets := hw.meets hcol hgrow2.layout
    dsimp only at hr
    split_ifs at hr with htail
    · -- the tail of the range
      have helt : e < 2 ^ 64 := he ▸ SizeT.add_lt b n
      have hbound : ∀ w ∈ woven, w.2.stop ≤ tmp.2 := fun w hmem => (hw.tiles.mem_bounds hmem).2.2
      obtain ⟨hgrow3, hadds, hnone, hsome⟩ := loadGap_spec (A := A) hgrow2.memoryOk hgrow2.layout
        htail helt
        (fun k s hs => hgrow2.layout.gap_of_lowerBound hw.iteration hw.le_last hbound hcol.beyond
          hs)
        (fun ha => ⟨hw.aligned ha, hA.2⟩) rfl
      dsimp only at hgrow3 hadds hnone hsome
      generalize c2.loadGap B id base size load isForWriteOp tmp.2 (e - tmp.2) = g
        at hr hgrow3 hadds hnone hsome
      have hin3 := hin2.trans hgrow3 (hadds.mono hw.le_last le_rfl)
      obtain ⟨g1, c3⟩ := g
      cases g1 with
      | none =>
        subst hr
        exact ⟨hgrow2.trans hgrow3, hin3, fun _ => hnone rfl, fun l hl => absurd hl (by simp)⟩
      | some descr =>
        subst hr
        obtain ⟨s, rfl, hoff, hsize, hseg, hnew⟩ := hsome descr rfl
        refine ⟨hgrow2.trans hgrow3, hin3, fun hnone => absurd hnone (by simp), fun l hl => ?_⟩
        obtain rfl := Option.some.inj hl
        dsimp only at hseg hnew hgrow3 ⊢
        have hstop : s.stop = e := by
          unfold ObjectSegment.stop
          omega
        have hle := hw.le_last
        have htiles : Tiles (fun w => w.2.offset) (fun w => w.2.getSize) start
            (woven ++ [(e - 1, s)]) e :=
          hw.tiles.append ⟨hoff, by dsimp only; omega, hstop⟩
        refine ⟨woven ++ [(e - 1, s)], sortSegments_eq htiles ?_,
          ⟨fun w hmem => ?_, ⟨start, e, hstart, le_rfl, htiles⟩, fun w hmem => ?_⟩,
          ⟨fun hs hlt hb => ?_, fun w hmem => ?_⟩, fun hmode w hmem => ?_⟩
        · rw [List.map_append]
          exact hperm.append_right _
        · exact hasSegment_of_lowerBound
            (hw.lowerBound_tail hgrow2.layout hcol.beyond htail hseg) (List.mem_append_left _ hmem)
        · rcases List.mem_append.mp hmem with hmem | hmem
          · exact hmeets w hmem
          · rw [List.mem_singleton.mp hmem]
            dsimp only
            omega
        · obtain ⟨w, hmem, hk⟩ := (hw.weaves hcol hstart).old hs hlt hb
          exact ⟨w, List.mem_append_left _ hmem, hk⟩
        · rcases List.mem_append.mp hmem with hmem | hmem
          · exact (hw.weaves hcol hstart).new w hmem
          · rw [List.mem_singleton.mp hmem]
            dsimp only
            rw [hoff]
            exact Or.inr ⟨hle, hstop.le, hcol.follows hstart hle hw.ends⟩
        · rcases List.mem_append.mp hmem with hmem | hmem
          · exact (hgrow3.exclusive (hasSegment_of_lowerBound hw.iteration
              (List.mem_append_left _ hmem)) (hw.exclusive hcol hdone.grows hmode w hmem)).2
          · rw [List.mem_singleton.mp hmem]
            exact hnew
    · subst hr
      refine ⟨hgrow2, hin2, fun hnone => absurd hnone (by simp), fun l hl => ?_⟩
      obtain rfl := Option.some.inj hl
      refine ⟨woven, sortSegments_eq hw.tiles hperm,
        ⟨fun w hmem => ?_, ⟨start, tmp.2, hstart, by omega, hw.tiles⟩, hmeets⟩,
        hw.weaves hcol hstart, fun hmode => hw.exclusive hcol hdone.grows hmode⟩
      exact hasSegment_of_lowerBound hw.iteration (List.mem_append_left _ hmem)

end Container

end IoCatcher
