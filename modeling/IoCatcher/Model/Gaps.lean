import IoCatcher.Model.Requests

/-!
# IO Catcher — gaps that a write leaves unfilled

A write puts the gaps of its rounded range into the segment map. It does not
read a gap it covers, and it accepts a gap that the storage could not read, or
that there is no storage to read from: such a gap shows what its buffer held
before. `unfilledByWrite` computes these gaps along `getBuffers`; in every other
new segment the stored bytes are found (`cached_of_filled`).
-/

namespace IoCatcher

namespace Container

variable {μ σ : Type} (B : Backends μ σ)

-- ---------------------------------------------------------------------------
-- The gaps
-- ---------------------------------------------------------------------------

/-- The gap, as `(offset, size)`, unless the write reads it in full. -/
def unfilledGap (c : Container μ σ) (id : ObjectId) (origBase origSize lastOffset size : Nat) :
    List (Nat × Nat) :=
  if isFullyOverlapped lastOffset size origBase origSize = false ∧
      c.readsInFull B id lastOffset size = true then []
  else [(lastOffset, size)]

/-- The unfilled gaps along the second loop of `getBuffers` and behind it. -/
def unfilledGaps (id : ObjectId) (origBase origSize endOffset : Nat) :
    List ObjectSegmentDescr → Nat → Container μ σ → List (Nat × Nat)
  | [], lastOffset, c =>
    if lastOffset < endOffset then
      c.unfilledGap B id origBase origSize lastOffset (endOffset - lastOffset)
    else []
  | it :: rest, lastOffset, c =>
    if lastOffset < it.offset then
      c.unfilledGap B id origBase origSize lastOffset (it.offset - lastOffset) ++
        unfilledGaps id origBase origSize endOffset rest (SizeT.add it.offset it.size)
          (c.loadGap B id origBase origSize true true lastOffset (it.offset - lastOffset)).2
    else unfilledGaps id origBase origSize endOffset rest (SizeT.add it.offset it.size) c

/-- The gaps that `getBuffers` puts into the map for a write of
`[base, base + size)` without having read them. -/
def unfilledByWrite (c : Container μ σ) (id : ObjectId) (base size : Nat) : List (Nat × Nat) :=
  let range := alignRange (c.object id).alignement base size
  let found := extractSegments B id range.1 range.2 .write ((c.segments id).lowerBound range.1) c
  unfilledGaps B id base size (SizeT.add range.1 range.2) found.1 range.1 found.2

variable {B} {c c' c'' : Container μ σ} {id : ObjectId}

-- ---------------------------------------------------------------------------
-- What is in the other gaps
-- ---------------------------------------------------------------------------

/-- The segments of `id` in `c'` are those of `c`, with their bytes, and new ones
that hold the stored bytes unless they are in `gaps`. -/
structure Fills (B : Backends μ σ) (id : ObjectId) (gaps : List (Nat × Nat))
    (c c' : Container μ σ) : Prop where
  memoryOk : MemoryOk B c'
  disk     : c'.disk B = c.disk B
  segment  : ∀ {k t}, c'.HasSegment id k t →
    (c.HasSegment id k t ∧ c'.memory.bytes t.memory.buffer = c.memory.bytes t.memory.buffer) ∨
      (t.offset, t.getSize) ∈ gaps ∨
      ∀ i < t.getSize, c'.memory.bytes t.memory.buffer i = c.disk B id (t.offset + i)

theorem Fills.refl (h : MemoryOk B c) : Fills B id [] c c := ⟨h, rfl, fun ht => Or.inl ⟨ht, rfl⟩⟩

theorem Fills.trans {gaps gaps' : List (Nat × Nat)} (h : Fills B id gaps c c')
    (h' : Fills B id gaps' c' c'') : Fills B id (gaps ++ gaps') c c'' := by
  refine ⟨h'.memoryOk, h'.disk.trans h.disk, fun {k t} ht => ?_⟩
  rcases h'.segment ht with ⟨hold, hbytes⟩ | hgap | hload
  · rcases h.segment hold with ⟨hold', hbytes'⟩ | hgap | hload
    · exact Or.inl ⟨hold', hbytes.trans hbytes'⟩
    · exact Or.inr (Or.inl (List.mem_append_left _ hgap))
    · refine Or.inr (Or.inr fun i hi => ?_)
      rw [hbytes]
      exact hload i hi
  · exact Or.inr (Or.inl (List.mem_append_right _ hgap))
  · rw [h.disk] at hload
    exact Or.inr (Or.inr hload)

/-- A write always gets its gap. -/
theorem loadGap_fills (h : MemoryOk B c) (id : ObjectId)
    (origBase origSize lastOffset size : Nat) :
    (∃ descr, (c.loadGap B id origBase origSize true true lastOffset size).1 = some descr) ∧
      Fills B id (c.unfilledGap B id origBase origSize lastOffset size) c
        (c.loadGap B id origBase origSize true true lastOffset size).2 := by
  unfold loadGap
  dsimp only
  rcases loadSegment_cases h lastOffset size
      (if true && isFullyOverlapped lastOffset size origBase origSize then false else true) true
      with ⟨-, hacc, -⟩ | ⟨s, hsome, hoff, hsize, -, hfresh, hdisk, -, hload⟩
  · exact absurd hacc (by decide)
  refine ⟨⟨_, hsome⟩, hfresh.memoryOk, hdisk, fun {k t} ht => ?_⟩
  rcases hfresh.hasSegment.mp ht with ⟨-, -, rfl⟩ | ⟨-, hold⟩
  · refine Or.inr ?_
    unfold unfilledGap
    rw [hoff, hsize]
    by_cases hread : isFullyOverlapped lastOffset size origBase origSize = false ∧
        c.readsInFull B id lastOffset size = true
    · refine Or.inr (hload ?_ hread.2)
      rw [hread.1]
      rfl
    · rw [if_neg hread]
      exact Or.inl (List.mem_singleton_self _)
  · exact Or.inl ⟨hold, hfresh.bytes _ (hfresh.unowned hold)⟩

/-- The second loop of `getBuffers`, and what it does behind it. -/
theorem completeSegments_fills (id : ObjectId) (origBase origSize endOffset : Nat)
    (es : List ObjectSegmentDescr) :
    ∀ (lastOffset : Nat) {c : Container μ σ}, MemoryOk B c →
      ∃ gaps tmp c', completeSegments B id origBase origSize true true es lastOffset c =
          (some tmp, c') ∧ Fills B id gaps c c' ∧
        unfilledGaps B id origBase origSize endOffset es lastOffset c =
          gaps ++ unfilledGaps B id origBase origSize endOffset [] tmp.2 c' := by
  induction es with
  | nil => exact fun lastOffset {c} h => ⟨[], ([], lastOffset), c, rfl, .refl h, rfl⟩
  | cons it rest ih =>
    intro lastOffset c h
    unfold completeSegments
    by_cases hgap : lastOffset < it.offset
    · obtain ⟨⟨descr, hdescr⟩, hfill⟩ := loadGap_fills h id origBase origSize lastOffset
        (it.offset - lastOffset)
      obtain ⟨gaps, tmp, c', hrest, hfill', hgaps⟩ := ih (SizeT.add it.offset it.size)
        hfill.memoryOk
      rw [if_pos hgap]
      rw [show c.loadGap B id origBase origSize true true lastOffset (it.offset - lastOffset) =
        (some descr, (c.loadGap B id origBase origSize true true lastOffset
          (it.offset - lastOffset)).2) from Prod.ext hdescr rfl]
      dsimp only
      rw [hrest]
      refine ⟨_ ++ gaps, (descr :: tmp.1, tmp.2), c', rfl, hfill.trans hfill', ?_⟩
      conv_lhs => rw [unfilledGaps, if_pos hgap, hgaps]
      exact (List.append_assoc ..).symm
    · obtain ⟨gaps, tmp, c', hrest, hfill, hgaps⟩ := ih (SizeT.add it.offset it.size) h
      rw [if_neg hgap]
      refine ⟨gaps, tmp, c', hrest, hfill, ?_⟩
      conv_lhs => rw [unfilledGaps, if_neg hgap, hgaps]

/-- A write gets its buffers, and what it adds to the map is filled or in the
list. -/
theorem getBuffers_fills (h : MemoryOk B c) (hlay : LayoutOk (c.segments id)) (base size : Nat) :
    ∃ c₁, Grows B 1 (fun _ _ => True) c c₁ id ∧ SameKeys c c₁ id ∧
      Fills B id (c.unfilledByWrite B id base size) c₁
        (c.getBuffers B id base size .write true true).2 := by
  obtain ⟨range, hrange⟩ : ∃ range, range = alignRange (c.object id).alignement base size :=
    ⟨_, rfl⟩
  obtain ⟨found, hfound⟩ : ∃ found, found = extractSegments B id range.1 range.2 .write
    ((c.segments id).lowerBound range.1) c := ⟨_, rfl⟩
  obtain ⟨taken, rest, -, -, hgrow, hkeys, -⟩ := extractSegments_spec (A := 1)
    (fun _ _ => True) h hlay (show (c.segments id).lowerBound range.1 =
      [] ++ (c.segments id).lowerBound range.1 from rfl) hfound
  refine ⟨found.2, hgrow, hkeys, ?_⟩
  obtain ⟨gaps, tmp, c', hcomplete, hfill, hgaps⟩ := completeSegments_fills id base size
    (SizeT.add range.1 range.2) found.1 range.1 hgrow.memoryOk
  have hlist : c.unfilledByWrite B id base size =
      gaps ++ unfilledGaps B id base size (SizeT.add range.1 range.2) [] tmp.2 c' := by
    unfold unfilledByWrite
    dsimp only
    rw [← hrange, ← hfound, hgaps]
  rw [hlist]
  unfold getBuffers
  dsimp only
  rw [← hrange, ← hfound, hcomplete]
  dsimp only
  unfold unfilledGaps
  by_cases htail : tmp.2 < SizeT.add range.1 range.2
  · obtain ⟨⟨descr, hdescr⟩, hfill'⟩ := loadGap_fills hfill.memoryOk id base size tmp.2
      (SizeT.add range.1 range.2 - tmp.2)
    rw [if_pos htail, if_pos htail]
    rw [show c'.loadGap B id base size true true tmp.2 (SizeT.add range.1 range.2 - tmp.2) =
      (some descr, (c'.loadGap B id base size true true tmp.2
        (SizeT.add range.1 range.2 - tmp.2)).2) from Prod.ext hdescr rfl]
    exact hfill.trans hfill'
  · rw [if_neg htail, if_neg htail, List.append_nil]
    exact hfill

/-- **A new position of a write shows the stored byte**, unless it is in an
unfilled gap. -/
theorem cached_of_filled (h : MemoryOk B c) (hlay : LayoutOk (c.segments id)) {base size x : Nat}
    {v : UInt8}
    (hlay' : LayoutOk ((c.getBuffers B id base size .write true true).2.segments id))
    (hv : (c.getBuffers B id base size .write true true).2.cached id x = some v)
    (hno : c.cached id x = none)
    (hgap : ∀ gap ∈ c.unfilledByWrite B id base size, ¬ (gap.1 ≤ x ∧ x < gap.1 + gap.2)) :
    v = c.disk B id x := by
  obtain ⟨c₁, hgrow, hkeys, hfill⟩ := getBuffers_fills h hlay base size
  obtain ⟨k, t, ht, hx, rfl⟩ := (cached_eq_some hlay').mp hv
  have hstop : t.stop = t.offset + t.getSize := rfl
  have hx1 := hx.1
  have hx2 := hx.2
  rcases hfill.segment ht with ⟨hold, -⟩ | hin | hload
  · -- it was in the map before, and so was the position
    obtain ⟨t₀, ht₀⟩ := hkeys k t hold
    exact absurd ht₀ (hgrow.new_of_cached hold hx hno t₀)
  · exact absurd ⟨hx1, by omega⟩ (hgap _ hin)
  · rw [hload _ (by omega), hgrow.disk]
    congr 1
    omega

end Container

end IoCatcher
