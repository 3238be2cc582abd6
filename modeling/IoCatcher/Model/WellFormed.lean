import IoCatcher.Model.Buffers

/-!
# IO Catcher — well-formed containers

`Wf B g c` collects what every operation may assume of a container: each
buffer is a chunk in use, each segment map has its layout, all offsets and
sizes are multiples of the grain `g`, and every call made so far satisfies the
allocators' assertions. With `g = 1` the last two say nothing about the
alignment, and the operations keep `Wf` for *every* 64-bit request; with the
container's alignment they keep it for the requests that do not wrap when
rounded (`rangeOk_grain`).

One lemma per operation: `Wf.getBuffers`, `Wf.markDirty`, `Wf.flush`,
`Wf.setBytes`; the copy-on-write operations have their own module.
-/

namespace IoCatcher

/-- The unit an alignment rounds to: 0 and 1 do not round. -/
def grain (A : Nat) : Nat := if A = 0 then 1 else A

/-- The range of a request, as `getBuffers` rounds it, starts and ends on a
multiple of `g`. -/
def RangeOk (g A base size : Nat) : Prop :=
  g ∣ (Container.alignRange A base size).1 ∧
    g ∣ SizeT.add (Container.alignRange A base size).1 (Container.alignRange A base size).2

theorem rangeOk_one (A base size : Nat) : RangeOk 1 A base size := ⟨Nat.one_dvd _, Nat.one_dvd _⟩

/-- The end of the rounded range, when it does not wrap. -/
theorem end_alignRange {A base size : Nat} (h : alignedEnd A base size < 2 ^ 64) :
    SizeT.add (Container.alignRange A base size).1 (Container.alignRange A base size).2 =
      alignedEnd A base size := by
  have hb := alignedBase_le A base
  have he := le_alignedEnd A base size
  rw [alignRange_eq h, SizeT.add_eq] <;> dsimp only <;> omega

/-- A request that does not wrap when rounded is rounded to the grain. -/
theorem rangeOk_grain {A base size : Nat} (h : alignedEnd A base size < 2 ^ 64) :
    RangeOk (grain A) A base size := by
  unfold RangeOk grain
  rw [end_alignRange h, alignRange_eq h]
  split_ifs with hA
  · exact ⟨Nat.one_dvd _, Nat.one_dvd _⟩
  · have hpos : 0 < A := Nat.pos_of_ne_zero hA
    exact ⟨dvd_alignedBase hpos base, dvd_alignedEnd hpos base size⟩

/-- An alignment that divides `2^64` survives a range that wraps. -/
theorem rangeOk_of_dvd {A : Nat} (hA : grain A ∣ 2 ^ 64) (base size : Nat) :
    RangeOk (grain A) A base size := by
  unfold RangeOk Container.alignRange
  unfold grain at hA ⊢
  by_cases h0 : A = 0
  · rw [if_pos h0]
    exact ⟨Nat.one_dvd _, Nat.one_dvd _⟩
  · rw [if_neg h0] at hA ⊢
    rw [if_pos (Nat.pos_of_ne_zero h0)]
    dsimp only
    obtain ⟨n, hn⟩ : ∃ n, n = SizeT.add size (base % A) := ⟨_, rfl⟩
    have hround : A ∣ (if 0 < n % A then SizeT.add n (A - n % A) else n) := by
      split_ifs with hmod
      · refine (Nat.dvd_mod_iff hA).mpr ⟨n / A + 1, ?_⟩
        have h1 := Nat.div_add_mod n A
        have h2 := Nat.mod_lt n (Nat.pos_of_ne_zero h0)
        rw [Nat.mul_add_one]
        omega
      · exact Nat.dvd_of_mod_eq_zero (by omega)
    rw [← hn]
    exact ⟨Nat.dvd_sub_mod base,
      (Nat.dvd_mod_iff hA).mpr (Nat.dvd_add (Nat.dvd_sub_mod base) hround)⟩

namespace Container

variable {μ σ : Type} {B : Backends μ σ} {c c' : Container μ σ} {id : ObjectId} {g : Nat}

/-- The invariant of a container, to the grain `g`. -/
structure Wf (B : Backends μ σ) (g : Nat) (c : Container μ σ) : Prop where
  memoryOk : MemoryOk B c
  layout   : ∀ id, LayoutOk (c.segments id)
  aligned  : ∀ id, Aligned g (c.segments id)
  calls    : CallsOk g c

/-- Every object has the alignment the container was configured with. -/
structure FixedAlignement (A : Nat) (c : Container μ σ) : Prop where
  default : c.objectSegmentsAlignement = A
  object  : ∀ id, (c.object id).alignement = A

theorem FixedAlignement.of_header {A : Nat} (h : FixedAlignement A c) (hh : SameHeader c c') :
    FixedAlignement A c' :=
  ⟨hh.default.trans h.default, fun id => (hh.alignement id).trans (h.object id)⟩

theorem Wf.grows {Loaded : Nat → Nat → Prop} (h : Wf B g c) (hg : Grows B g Loaded c c' id) :
    Wf B g c' := by
  refine ⟨hg.memoryOk, fun id' => ?_, fun id' => ?_, hg.calls (h.aligned id) h.calls⟩
  · by_cases hid : id' = id
    · rw [hid]
      exact hg.layout
    · rw [hg.others hid]
      exact h.layout id'
  · by_cases hid : id' = id
    · rw [hid]
      exact hg.aligned (h.aligned id)
    · rw [hg.others hid]
      exact h.aligned id'

/-- An operation that keeps the ranges and buffers of all segments and makes no
allocator call. -/
theorem Wf.of_sameRanges (h : Wf B g c)
    (hlayout : ∀ id, LayoutOk (c'.segments id))
    (hs : ∀ {id key s}, c'.HasSegment id key s →
      ∃ t, c.HasSegment id key t ∧ t.memory = s.memory ∧ t.offset = s.offset)
    (hb : c'.memory.backend = c.memory.backend) (hc : c'.memory.calls = c.memory.calls) :
    Wf B g c' := by
  refine ⟨h.memoryOk.of_segments (fun hseg => ?_) hb, hlayout, fun id' k s hseg => ?_, ?_⟩
  · obtain ⟨t, ht, hm, -⟩ := hs hseg
    exact ⟨_, _, t, ht, hm⟩
  · obtain ⟨t, ht, hm, ho⟩ := hs hseg
    have := h.aligned id' ht
    rw [ObjectSegment.getSize, ← hm, ← ho]
    exact this
  · unfold CallsOk
    rw [hc]
    exact h.calls

/-- Only bytes and the storage change. -/
theorem Wf.of_objects (h : Wf B g c) (ho : ∀ id, c'.segments id = c.segments id)
    (hb : c'.memory.backend = c.memory.backend) (hc : c'.memory.calls = c.memory.calls) :
    Wf B g c' := by
  refine h.of_sameRanges (fun id => ho id ▸ h.layout id) (fun {id key s} hs => ⟨s, ?_, rfl, rfl⟩)
    hb hc
  unfold HasSegment at hs ⊢
  rwa [ho] at hs

theorem Wf.getObject (h : Wf B g c) (id : ObjectId) : Wf B g (c.getObject id) :=
  h.of_objects (fun _ => segments_getObject ..) rfl rfl

theorem Wf.getBuffers (h : Wf B g c) {base size : Nat} (mode : ObjectAccessMode)
    (load isForWriteOp : Bool) (hr : RangeOk g (c.object id).alignement base size) :
    Wf B g (c.getBuffers B id base size mode load isForWriteOp).2 :=
  h.grows (getBuffers_spec h.memoryOk (h.layout id) rfl rfl hr rfl).1

/-! ## Flags -/

/-- Update the segments of one object in place. -/
theorem hasSegment_mapSegments {f : ObjectSegment → ObjectSegment} {id' : ObjectId} {k : Nat}
    {s : ObjectSegment} :
    (c.setSegments id ((c.segments id).mapValues f)).HasSegment id' k s ↔
      if id' = id then ∃ t, c.HasSegment id k t ∧ f t = s else c.HasSegment id' k s := by
  unfold HasSegment
  rw [segments_setSegments]
  split_ifs with hid
  · exact OrderedMap.mem_mapValues
  · exact Iff.rfl

theorem Wf.mapSegments (h : Wf B g c) {f : ObjectSegment → ObjectSegment}
    (hf : ∀ s, (f s).memory = s.memory ∧ (f s).offset = s.offset) :
    Wf B g (c.setSegments id ((c.segments id).mapValues f)) := by
  refine h.of_sameRanges (fun id' => ?_) (fun {id' key s} hs => ?_) rfl rfl
  · rw [segments_setSegments]
    split_ifs
    · refine (h.layout id).mapValues fun s => ⟨(hf s).2, ?_⟩
      rw [ObjectSegment.getSize, (hf s).1]
      rfl
    · exact h.layout id'
  · rw [hasSegment_mapSegments] at hs
    split_ifs at hs with hid
    · obtain ⟨t, ht, rfl⟩ := hs
      exact ⟨t, hid ▸ ht, (hf t).1.symm, (hf t).2.symm⟩
    · exact ⟨s, hs, rfl, rfl⟩

theorem Wf.markDirty (h : Wf B g c) (id : ObjectId) (base size : Nat) :
    Wf B g (c.markDirty id base size) :=
  h.mapSegments fun s => by split_ifs <;> exact ⟨rfl, rfl⟩

/-- A segment that is clean after `markDirty` was clean before and does not
meet the range. -/
theorem clean_of_markDirty {offset size : Nat} (hlay : LayoutOk (c.segments id))
    (hnw : offset + size < 2 ^ 64) {id' : ObjectId} {k : Nat} {s : ObjectSegment}
    (hs : (c.markDirty id offset size).HasSegment id' k s) (hd : s.dirty = false) :
    c.HasSegment id' k s ∧ (id' = id → s.stop ≤ offset ∨ offset + size ≤ s.offset) := by
  unfold markDirty at hs
  rw [hasSegment_mapSegments] at hs
  split_ifs at hs with hid
  · obtain ⟨t, ht, hf⟩ := hs
    split_ifs at hf with hov
    · rw [← hf] at hd
      exact absurd hd (by simp)
    · rw [hf] at ht hov
      rw [hlay.overlap_iff ht, SizeT.add_eq hnw] at hov
      refine ⟨hid ▸ ht, fun _ => ?_⟩
      omega
  · exact ⟨hs, fun heq => absurd heq hid⟩

/-! ## Flush -/

/-- `pwrite` changes the storage only. -/
theorem pwrite_eq (c : Container μ σ) (id : ObjectId) (buffer : Addr) (size offset : Nat) :
    ∃ st, (c.pwrite B id buffer size offset).2 = { c with storage := st } := by
  unfold pwrite
  split
  · exact ⟨c.storage, rfl⟩
  · exact ⟨_, rfl⟩

/-- The writes of a flush change the storage only. -/
theorem flushSegments_eq (c : Container μ σ) (id : ObjectId) (offset size : Nat)
    (es : List (Nat × ObjectSegment)) (ret : Int) :
    ∃ st, (flushSegments B id offset size es ret c).2 = { c with storage := st } := by
  induction es generalizing ret c with
  | nil => exact ⟨c.storage, rfl⟩
  | cons e rest ih =>
    unfold flushSegments
    split_ifs
    · obtain ⟨st, hst⟩ := pwrite_eq (B := B) c id e.2.memory.buffer e.2.getSize e.2.offset
      dsimp only
      rw [hst]
      exact ih { c with storage := st } _
    · exact ih c ret

/-- What a flush leaves: new flags on its object, and a storage. -/
theorem flush_eq (c : Container μ σ) (id : ObjectId) (offset size : Nat) :
    ∃ st, (c.flush B id offset size).2 =
      ({ c with storage := st } : Container μ σ).setSegments id ((c.segments id).mapValues fun s =>
        if flushed offset size s then { s with dirty := false } else s) := by
  obtain ⟨st, hst⟩ := flushSegments_eq (B := B) c id offset size (c.segments id).entries 0
  refine ⟨st, ?_⟩
  unfold flush
  dsimp only
  rw [hst]
  rfl

theorem hasSegment_flush {offset size : Nat} {id' : ObjectId} {k : Nat} {s : ObjectSegment} :
    (c.flush B id offset size).2.HasSegment id' k s ↔
      if id' = id then ∃ t, c.HasSegment id k t ∧
        (if flushed offset size t then { t with dirty := false } else t) = s
      else c.HasSegment id' k s := by
  obtain ⟨st, hst⟩ := flush_eq (B := B) c id offset size
  rw [hst]
  exact hasSegment_mapSegments (c := { c with storage := st })

@[simp] theorem memory_flush (c : Container μ σ) (id : ObjectId) (offset size : Nat) :
    (c.flush B id offset size).2.memory = c.memory := by
  obtain ⟨st, hst⟩ := flush_eq (B := B) c id offset size
  rw [hst]
  rfl

theorem Wf.flush (h : Wf B g c) (id : ObjectId) (offset size : Nat) :
    Wf B g (c.flush B id offset size).2 := by
  obtain ⟨st, hst⟩ := flush_eq (B := B) c id offset size
  rw [hst]
  have h' : Wf B g ({ c with storage := st } : Container μ σ) := h.of_objects (fun _ => rfl) rfl rfl
  refine h'.mapSegments fun s => ?_
  split_ifs <;> exact ⟨rfl, rfl⟩

theorem sameHeader_markDirty (c : Container μ σ) (id : ObjectId) (base size : Nat) :
    SameHeader c (c.markDirty id base size) := sameHeader_setSegments ..

theorem sameHeader_flush (c : Container μ σ) (id : ObjectId) (offset size : Nat) :
    SameHeader c (c.flush B id offset size).2 := by
  obtain ⟨st, hst⟩ := flush_eq (B := B) c id offset size
  rw [hst]
  have hs : SameHeader c { c with storage := st } := sameHeader_of_objects rfl rfl
  exact hs.trans (sameHeader_setSegments ..)

theorem sameHeader_getBuffers (hmem : MemoryOk B c) (hlay : LayoutOk (c.segments id))
    (base size : Nat) (mode : ObjectAccessMode) (load isForWriteOp : Bool) :
    SameHeader c (c.getBuffers B id base size mode load isForWriteOp).2 :=
  (getBuffers_spec (A := 1) hmem hlay rfl rfl ⟨Nat.one_dvd _, Nat.one_dvd _⟩ rfl).1.header

end Container

end IoCatcher
