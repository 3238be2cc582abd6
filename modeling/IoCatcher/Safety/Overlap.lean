import IoCatcher.Lib.Wrapping
import IoCatcher.Safety.Flush
import IoCatcher.Safety.Registrations

/-!
# IO Catcher — the two overlap tests

`ConsistencyTracker::overlap` decides which registrations exclude each other, and
`ObjectSegment::overlap` which segments a flush writes. Both say that they tell whether
two ranges overlap, and both compute the end of a range on a `size_t`. The first asks
whether one range starts inside the other, the second whether each starts before the
other ends.

A range that reaches `2 ^ 64` has a small end, and meets ranges that no test sees. A
registration of `SIZE_MAX` bytes from 8 on is granted beside every range that starts past
8, and a flush of it writes no segment that does.

* `tracker_exact_iff`, `segment_exact_iff` — where each of the tests is right;
* `overlapExact_iff`     — where both are, with what follows for requests;
* `overlap_misses_range` — a range that both miss.
-/

namespace IoCatcher

open Wrapping

variable {offset1 size1 offset2 size2 : Nat}

-- ---------------------------------------------------------------------------
-- The tests
-- ---------------------------------------------------------------------------

/-- The test asks whether each of the ranges starts before the other ends. -/
theorem ObjectSegment.overlap_iff_crossed {s : ObjectSegment} {segBase segSize : Nat} :
    s.overlap segBase segSize = true ↔
      Crossed (2 ^ 64) s.offset s.getSize segBase segSize := by
  unfold ObjectSegment.overlap
  rw [Bool.and_eq_true, decide_eq_true_eq, decide_eq_true_eq]
  exact Iff.rfl

theorem ConsistencyTracker.overlap_comm (offset1 size1 offset2 size2 : Nat) :
    overlap offset1 size1 offset2 size2 = overlap offset2 size2 offset1 size1 :=
  Bool.or_comm ..

/-- What the two tests promise about two ranges, and what depends on it: a registration
is refused beside a live one that it meets, and a flush writes the dirty segments that it
meets. -/
structure OverlapExact (offset1 size1 offset2 size2 : Nat) : Prop where
  tracker : ConsistencyTracker.overlap offset1 size1 offset2 size2 = true ↔
    Meet offset1 size1 offset2 size2
  segment : ∀ s : ObjectSegment, s.offset = offset1 → s.getSize = size1 →
    (s.overlap offset2 size2 = true ↔ Meet offset1 size1 offset2 size2)
  agree : ∀ s : ObjectSegment, s.offset = offset1 → s.getSize = size1 →
    s.overlap offset2 size2 = ConsistencyTracker.overlap offset1 size1 offset2 size2
  trackerSymm : ConsistencyTracker.overlap offset1 size1 offset2 size2 =
    ConsistencyTracker.overlap offset2 size2 offset1 size1
  segmentSymm : ∀ s s' : ObjectSegment, s.offset = offset1 → s.getSize = size1 →
    s'.offset = offset2 → s'.getSize = size2 →
    s.overlap offset2 size2 = s'.overlap offset1 size1
  registration : ∀ (t : ConsistencyTracker) (it : ConsistencyRange) (tcpClientId : Nat)
    (accessMode : ConsistencyAccessMode), it ∈ t.ranges → it.offset = offset1 →
    it.size = size1 → it.accessMode = .write ∨ accessMode = .write →
    Meet offset1 size1 offset2 size2 →
    t.registerRange tcpClientId offset2 size2 accessMode = (-1, t)
  flush : ∀ {μ σ : Type} (B : Backends μ σ) (c : Container μ (σ × List StorageCall))
    (id : ObjectId) (k : Nat) (s : ObjectSegment), B.storageBackend.isSome = true →
    c.HasSegment id k s → s.dirty = true → s.offset = offset1 → s.getSize = size1 →
    Meet offset1 size1 offset2 size2 →
    ∃ calls, (c.flush B.logged id offset2 size2).2.log = c.log ++ calls ∧
      ∃ result, .pwrite id (c.memory.bytes s.memory.buffer) size1 offset1 result ∈ calls

section Exact

variable (ho1 : offset1 < 2 ^ 64) (hs1 : 0 < size1) (hs1' : size1 < 2 ^ 64)
  (ho2 : offset2 < 2 ^ 64) (hs2 : 0 < size2) (hs2' : size2 < 2 ^ 64)

include ho1 hs1 hs1' ho2 hs2 hs2'

/-- The test of the tracker is right when at most one range wraps, and that one does not
start before the other. -/
theorem tracker_exact_iff :
    (ConsistencyTracker.overlap offset1 size1 offset2 size2 = true ↔
      Meet offset1 size1 offset2 size2) ↔
      (offset1 + size1 < 2 ^ 64 ∨ offset2 ≤ offset1 ∧ offset2 + size2 < 2 ^ 64) ∧
      (offset2 + size2 < 2 ^ 64 ∨ offset1 ≤ offset2 ∧ offset1 + size1 < 2 ^ 64) := by
  rw [ConsistencyTracker.overlap_iff_nested]
  exact nested_iff_meet_iff ho1 hs1 hs1' ho2 hs2 hs2'

/-- The test of a segment is right when no wrapped end does harm. -/
theorem segment_exact_iff {s : ObjectSegment} (ho : s.offset = offset1) (hs : s.getSize = size1) :
    (s.overlap offset2 size2 = true ↔ Meet offset1 size1 offset2 size2) ↔
      Harmless (2 ^ 64) offset1 size1 offset2 size2 ∧
        Harmless (2 ^ 64) offset2 size2 offset1 size1 := by
  rw [ObjectSegment.overlap_iff_crossed, ho, hs]
  exact crossed_iff_meet_iff ho1 hs1 hs1' ho2 hs2 hs2'

end Exact

-- ---------------------------------------------------------------------------
-- Registrations and flushes
-- ---------------------------------------------------------------------------

/-- A registration is refused when the test sees a live range that excludes it. -/
theorem ConsistencyTracker.registerRange_of_overlap {t : ConsistencyTracker}
    {it : ConsistencyRange} {offset size tcpClientId : Nat} {accessMode : ConsistencyAccessMode}
    (hit : it ∈ t.ranges) (hmode : it.accessMode = .write ∨ accessMode = .write)
    (hov : overlap offset size it.offset it.size = true) :
    t.registerRange tcpClientId offset size accessMode = (-1, t) := by
  have hmode' : accessMode ≠ it.accessMode ∨ it.accessMode = .write := by
    cases hold : it.accessMode with
    | write => exact Or.inr rfl
    | read =>
      rw [hold] at hmode
      obtain rfl := hmode.resolve_left (by decide)
      exact Or.inl (by decide)
  have hcol : t.hasCollision offset size accessMode = true := by
    refine List.any_eq_true.mpr ⟨it, hit, ?_⟩
    rw [hov, Bool.true_and, Bool.or_eq_true, decide_eq_true_eq, decide_eq_true_eq]
    exact hmode'
  unfold registerRange
  rw [if_pos hcol]

/-- A flush writes every dirty segment that the test sees. -/
theorem Container.pwrite_of_overlap {μ σ : Type} {B : Backends μ σ}
    {c : Container μ (σ × List StorageCall)} {id : ObjectId} {k offset size : Nat}
    {s : ObjectSegment} (hsb : B.storageBackend.isSome = true) (hs : c.HasSegment id k s)
    (hdirty : s.dirty = true) (hov : s.overlap offset size = true) :
    ∃ calls, (c.flush B.logged id offset size).2.log = c.log ++ calls ∧
      ∃ result, .pwrite id (c.memory.bytes s.memory.buffer) s.getSize s.offset result ∈ calls := by
  have hlog : (c.flush B.logged id offset size).2.log =
      (flushSegments B.logged id offset size (c.segments id).entries 0 c).2.log := rfl
  have hfl : flushed offset size s = true := by
    unfold flushed
    rw [hdirty, hov, Bool.or_true, Bool.and_true]
  have hmem : (k, s) ∈ (c.segments id).entries.filter fun w => flushed offset size w.2 :=
    List.mem_filter.mpr ⟨hs, hfl⟩
  obtain ⟨r, hr⟩ := exists_mem_zip (length_flushResults (B := B.logged) _ c) hmem
  refine ⟨_, hlog.trans (log_flushSegments _ 0 c), r, ?_⟩
  rw [if_pos hsb, ← List.map_uncurry_zip_eq_zipWith]
  exact List.mem_map.mpr ⟨_, hr, rfl⟩

-- ---------------------------------------------------------------------------
-- Where the tests are right
-- ---------------------------------------------------------------------------

/-- **The tests are right exactly where no wrapped end does harm.** For any two ranges:
each of them ends below `2 ^ 64`, or starts past the other one, or wraps past the start
of the other one. -/
theorem overlapExact_iff (ho1 : offset1 < 2 ^ 64) (hs1 : 0 < size1) (hs1' : size1 < 2 ^ 64)
    (ho2 : offset2 < 2 ^ 64) (hs2 : 0 < size2) (hs2' : size2 < 2 ^ 64) :
    OverlapExact offset1 size1 offset2 size2 ↔
      Harmless (2 ^ 64) offset1 size1 offset2 size2 ∧
        Harmless (2 ^ 64) offset2 size2 offset1 size1 := by
  constructor
  · intro h
    exact (segment_exact_iff ho1 hs1 hs1' ho2 hs2 hs2' rfl rfl).mp
      (h.segment ⟨⟨0, size1⟩, offset1, false⟩ rfl rfl)
  · rintro ⟨h1, h2⟩
    have htracker : ConsistencyTracker.overlap offset1 size1 offset2 size2 = true ↔
        Meet offset1 size1 offset2 size2 := by
      rw [ConsistencyTracker.overlap_iff_nested]
      exact nested_iff_meet ho1 hs1 hs1' ho2 hs2 hs2' h1 h2
    have hsegment : ∀ s : ObjectSegment, s.offset = offset1 → s.getSize = size1 →
        (s.overlap offset2 size2 = true ↔ Meet offset1 size1 offset2 size2) :=
      fun s ho hs => (segment_exact_iff ho1 hs1 hs1' ho2 hs2 hs2' ho hs).mpr ⟨h1, h2⟩
    refine ⟨htracker, hsegment, fun s ho hs => ?_, ConsistencyTracker.overlap_comm ..,
      fun s s' ho hs ho' hs' => ?_, fun t it tcpClientId accessMode hit ho hs hmode hmeet => ?_,
      fun B c id k s hsb hseg hdirty ho hs hmeet => ?_⟩
    · rw [Bool.eq_iff_iff, hsegment s ho hs, htracker]
    · rw [Bool.eq_iff_iff, ObjectSegment.overlap_iff_crossed, ObjectSegment.overlap_iff_crossed,
        ho, hs, ho', hs']
      exact and_comm
    · refine ConsistencyTracker.registerRange_of_overlap hit hmode ?_
      rw [ho, hs, ConsistencyTracker.overlap_comm]
      exact htracker.mpr hmeet
    · have hov := (hsegment s ho hs).mpr hmeet
      subst ho hs
      exact Container.pwrite_of_overlap hsb hseg hdirty hov

/-- The size `SIZE_MAX` means everything from 0 on. -/
theorem overlapExact_of_sizeMax : OverlapExact 0 (2 ^ 64 - 1) 100 10 :=
  (overlapExact_iff (by omega) (by omega) (by omega) (by omega) (by omega) (by omega)).mpr
    ⟨Or.inl (by omega), Or.inl (by omega)⟩

/-- **From 8 on it does not**: both tests miss position 100, which is in both ranges. -/
theorem overlap_misses_range :
    ¬ ∀ offset1 size1 offset2 size2 : Nat, offset1 < 2 ^ 64 → 0 < size1 → size1 < 2 ^ 64 →
      offset2 < 2 ^ 64 → 0 < size2 → size2 < 2 ^ 64 →
      OverlapExact offset1 size1 offset2 size2 := by
  intro hall
  have hmeet : Meet 8 (2 ^ 64 - 1) 100 10 :=
    (meet_iff (by omega) (by omega)).mpr ⟨by omega, by omega⟩
  have hmissed : ConsistencyTracker.overlap 8 (2 ^ 64 - 1) 100 10 = false := by decide
  have hseen := (hall 8 (2 ^ 64 - 1) 100 10 (by omega) (by omega) (by omega) (by omega)
    (by omega) (by omega)).tracker.mpr hmeet
  rw [hmissed] at hseen
  exact absurd hseen (by decide)

/-- Two clients then hold the position for writing, and a flush leaves it out. -/
example : ((ConsistencyTracker.new.registerRange 1 100 10 .write).2.registerRange 2 8
    (2 ^ 64 - 1) .write).1 = 2 ∧
    Container.flushed 8 (2 ^ 64 - 1) ⟨⟨0, 10⟩, 100, true⟩ = false := by decide

end IoCatcher
