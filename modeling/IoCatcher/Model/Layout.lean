import IoCatcher.Model.Object

/-!
# IO Catcher — the layout of a segment map

`LayoutOk` is the invariant every lookup of the source relies on: a segment is
stored under its last byte, is not empty, and shares no byte with another
segment of the map; so key order is offset order. `Aligned` is the second half
of it, present when the container has an alignment.

The results of this file are the two ways the source changes a map — a
segment in a gap, a segment in the place of one with the same range — and what
`alignRange` computes when the rounded range does not wrap.
-/

namespace IoCatcher

/-- End of a segment. -/
def ObjectSegment.stop (s : ObjectSegment) : Nat := s.offset + s.getSize

/-- The layout invariant of a segment map. -/
structure LayoutOk (m : ObjectSegmentMap) : Prop where
  key      : ∀ {k s}, (k, s) ∈ m.entries → k + 1 = s.stop
  pos      : ∀ {k s}, (k, s) ∈ m.entries → 0 < s.getSize
  bound    : ∀ {k s}, (k, s) ∈ m.entries → s.stop < 2 ^ 64
  disjoint : ∀ {k s k' s'}, (k, s) ∈ m.entries → (k', s') ∈ m.entries → k < k' →
    s.stop ≤ s'.offset

/-- Offsets and sizes are multiples of `A`. -/
def Aligned (A : Nat) (m : ObjectSegmentMap) : Prop :=
  ∀ {k s}, (k, s) ∈ m.entries → A ∣ s.offset ∧ A ∣ s.getSize

theorem layoutOk_empty : LayoutOk OrderedMap.empty := by
  constructor <;> intros <;> simp_all

theorem aligned_empty (A : Nat) : Aligned A OrderedMap.empty := by
  intro k s h
  simp at h

section

variable {m : ObjectSegmentMap} {k k' : Nat} {s s' : ObjectSegment}

/-- Two segments of a map that share a byte are the same segment. -/
theorem LayoutOk.eq_of_shared (h : LayoutOk m) (hs : (k, s) ∈ m.entries)
    (hs' : (k', s') ∈ m.entries) {x : Nat} (h1 : s.offset ≤ x) (h2 : x < s.stop)
    (h3 : s'.offset ≤ x) (h4 : x < s'.stop) : k = k' ∧ s = s' := by
  rcases Nat.lt_trichotomy k k' with hlt | rfl | hgt
  · have := h.disjoint hs hs' hlt
    omega
  · exact ⟨rfl, OrderedMap.mem_unique hs hs'⟩
  · have := h.disjoint hs' hs hgt
    omega

theorem LayoutOk.overlap_iff (h : LayoutOk m) (hs : (k, s) ∈ m.entries) (base size : Nat) :
    s.overlap base size = true ↔ s.offset < SizeT.add base size ∧ base < s.stop := by
  have hb := h.bound hs
  unfold ObjectSegment.stop at hb ⊢
  rw [ObjectSegment.overlap, Bool.and_eq_true, decide_eq_true_eq, decide_eq_true_eq,
    SizeT.add_eq hb]

/-- A segment put into a gap of the map, under its last byte. -/
theorem LayoutOk.insert_gap (h : LayoutOk m) (hk : k + 1 = s.stop) (hpos : 0 < s.getSize)
    (hbound : s.stop < 2 ^ 64)
    (hgap : ∀ k' t, (k', t) ∈ m.entries → t.stop ≤ s.offset ∨ s.stop ≤ t.offset) :
    LayoutOk (m.insert k s) := by
  refine ⟨fun {a t} ha => ?_, fun {a t} ha => ?_, fun {a t} ha => ?_,
    fun {a t a' t'} ha ha' hlt => ?_⟩
  · rcases OrderedMap.mem_insert.mp ha with heq | ⟨-, ha⟩
    · cases heq
      exact hk
    · exact h.key ha
  · rcases OrderedMap.mem_insert.mp ha with heq | ⟨-, ha⟩
    · cases heq
      exact hpos
    · exact h.pos ha
  · rcases OrderedMap.mem_insert.mp ha with heq | ⟨-, ha⟩
    · cases heq
      exact hbound
    · exact h.bound ha
  · rcases OrderedMap.mem_insert.mp ha with heq | ⟨-, ha⟩ <;>
      rcases OrderedMap.mem_insert.mp ha' with heq' | ⟨-, ha'⟩
    · cases heq
      cases heq'
      omega
    · cases heq
      have := h.key ha'
      rcases hgap a' t' ha' with hg | hg
      · unfold ObjectSegment.stop at *
        omega
      · exact hg
    · cases heq'
      have := h.key ha
      rcases hgap a t ha with hg | hg
      · exact hg
      · have := h.pos ha
        unfold ObjectSegment.stop at *
        omega
    · exact h.disjoint ha ha' hlt

/-- A segment put in the place of one with the same range. -/
theorem LayoutOk.insert_same (h : LayoutOk m) (hs : (k, s) ∈ m.entries)
    (hoff : s'.offset = s.offset) (hsize : s'.getSize = s.getSize) : LayoutOk (m.insert k s') := by
  have hstop : s'.stop = s.stop := by
    unfold ObjectSegment.stop
    rw [hoff, hsize]
  -- each binding of the new map has the range of a binding of the old one
  have hold : ∀ {a t}, (a, t) ∈ (m.insert k s').entries →
      ∃ t₀, (a, t₀) ∈ m.entries ∧ t.offset = t₀.offset ∧ t.getSize = t₀.getSize ∧
        t.stop = t₀.stop := by
    intro a t ha
    rcases OrderedMap.mem_insert.mp ha with heq | ⟨-, ha⟩
    · cases heq
      exact ⟨s, hs, hoff, hsize, hstop⟩
    · exact ⟨t, ha, rfl, rfl, rfl⟩
  refine ⟨fun ha => ?_, fun ha => ?_, fun ha => ?_, fun ha ha' hlt => ?_⟩
  · obtain ⟨t₀, h0, -, -, he⟩ := hold ha
    rw [he]
    exact h.key h0
  · obtain ⟨t₀, h0, -, he, -⟩ := hold ha
    rw [he]
    exact h.pos h0
  · obtain ⟨t₀, h0, -, -, he⟩ := hold ha
    rw [he]
    exact h.bound h0
  · obtain ⟨t₀, h0, -, -, he⟩ := hold ha
    obtain ⟨t₁, h1, he', -, -⟩ := hold ha'
    rw [he, he']
    exact h.disjoint h0 h1 hlt

theorem Aligned.insert {A : Nat} (h : Aligned A m) (hoff : A ∣ s.offset) (hsize : A ∣ s.getSize) :
    Aligned A (m.insert k s) := by
  intro a t ha
  rcases OrderedMap.mem_insert.mp ha with heq | ⟨-, ha⟩
  · cases heq
    exact ⟨hoff, hsize⟩
  · exact h ha

/-- Updating flags or buffers in place changes no range. -/
theorem LayoutOk.mapValues (h : LayoutOk m) {f : ObjectSegment → ObjectSegment}
    (hf : ∀ s, (f s).offset = s.offset ∧ (f s).getSize = s.getSize) : LayoutOk (m.mapValues f) := by
  have hstop : ∀ s, (f s).stop = s.stop := fun s => by
    unfold ObjectSegment.stop
    rw [(hf s).1, (hf s).2]
  refine ⟨fun ha => ?_, fun ha => ?_, fun ha => ?_, fun ha ha' hlt => ?_⟩
  · obtain ⟨t, ht, rfl⟩ := OrderedMap.mem_mapValues.mp ha
    rw [hstop]
    exact h.key ht
  · obtain ⟨t, ht, rfl⟩ := OrderedMap.mem_mapValues.mp ha
    rw [(hf t).2]
    exact h.pos ht
  · obtain ⟨t, ht, rfl⟩ := OrderedMap.mem_mapValues.mp ha
    rw [hstop]
    exact h.bound ht
  · obtain ⟨t, ht, rfl⟩ := OrderedMap.mem_mapValues.mp ha
    obtain ⟨t', ht', rfl⟩ := OrderedMap.mem_mapValues.mp ha'
    rw [hstop, (hf t').1]
    exact h.disjoint ht ht' hlt

/-- Keys at or past `b` belong to segments that end past `b`. -/
theorem LayoutOk.stop_of_lowerBound (h : LayoutOk m) {b : Nat} (hs : (k, s) ∈ m.lowerBound b) :
    b < s.stop := by
  obtain ⟨hmem, hb⟩ := OrderedMap.mem_lowerBound.mp hs
  have := h.key hmem
  dsimp only at hb
  omega

/-- The segments of a map follow each other. -/
theorem LayoutOk.pairwise (h : LayoutOk m) :
    m.entries.Pairwise fun a b => a.2.stop ≤ b.2.offset := by
  refine (List.Pairwise.and_mem.mp m.sorted).imp ?_
  rintro a b ⟨ha, hb, hlt⟩
  exact h.disjoint ha hb hlt

/-- An iteration visits the segments in the order of their ranges. -/
theorem LayoutOk.stop_le_offset (h : LayoutOk m) {b : Nat} {pre post : List (Nat × ObjectSegment)}
    (hlb : m.lowerBound b = pre ++ post) {e e' : Nat × ObjectSegment} (he : e ∈ pre)
    (he' : e' ∈ post) : e.2.stop ≤ e'.2.offset := by
  have hs := hlb ▸ m.lowerBound_sorted b
  have hmem : ∀ w ∈ pre ++ post, w ∈ m.entries := fun w hw =>
    (OrderedMap.mem_lowerBound.mp (hlb ▸ hw : w ∈ m.lowerBound b)).1
  exact h.disjoint (hmem e (List.mem_append_left _ he)) (hmem e' (List.mem_append_right _ he'))
    ((List.pairwise_append.mp hs).2.2 e he e' he')

/-- A range between two parts of an iteration is a gap of the map. -/
theorem LayoutOk.gap_of_lowerBound (h : LayoutOk m) {b lo hi : Nat}
    {pre post : List (Nat × ObjectSegment)} (hlb : m.lowerBound b = pre ++ post) (hb : b ≤ lo)
    (hpre : ∀ e ∈ pre, e.2.stop ≤ lo) (hpost : ∀ e ∈ post, hi ≤ e.2.offset)
    (hs : (k, s) ∈ m.entries) : s.stop ≤ lo ∨ hi ≤ s.offset := by
  by_cases hk : b ≤ k
  · have hmem : (k, s) ∈ pre ++ post := hlb ▸ OrderedMap.mem_lowerBound.mpr ⟨hs, hk⟩
    rcases List.mem_append.mp hmem with hmem | hmem
    · exact Or.inl (hpre _ hmem)
    · exact Or.inr (hpost _ hmem)
  · have := h.key hs
    omega

end

/-! ## Rounding a request -/

/-- First byte of a request rounded out to `A`. -/
def alignedBase (A base : Nat) : Nat := if A = 0 then base else base / A * A

/-- End of a request rounded out to `A`. -/
def alignedEnd (A base size : Nat) : Nat :=
  if A = 0 then base + size else (base + size + (A - 1)) / A * A

theorem alignedBase_le (A base : Nat) : alignedBase A base ≤ base := by
  unfold alignedBase
  split_ifs
  · exact le_rfl
  · exact Nat.div_mul_le_self _ _

theorem le_alignedEnd (A base size : Nat) : base + size ≤ alignedEnd A base size := by
  unfold alignedEnd
  split_ifs with hA
  · exact le_rfl
  · have hpos : 0 < A := Nat.pos_of_ne_zero hA
    have h := Nat.lt_div_mul_add (a := base + size + (A - 1)) hpos
    omega

theorem dvd_alignedBase {A : Nat} (hA : 0 < A) (base : Nat) : A ∣ alignedBase A base := by
  rw [alignedBase, if_neg (by omega)]
  exact Nat.dvd_mul_left _ _

theorem dvd_alignedEnd {A : Nat} (hA : 0 < A) (base size : Nat) : A ∣ alignedEnd A base size := by
  rw [alignedEnd, if_neg (by omega)]
  exact Nat.dvd_mul_left _ _

/-- The rounded end leaves less than one alignment unit past the request. -/
theorem alignedEnd_lt {A : Nat} (hA : 0 < A) (base size : Nat) :
    alignedEnd A base size < base + size + A := by
  rw [alignedEnd, if_neg (by omega)]
  have := Nat.div_mul_le_self (base + size + (A - 1)) A
  omega

/-- The rounded base leaves less than one alignment unit before the request. -/
theorem lt_alignedBase_add {A : Nat} (hA : 0 < A) (base : Nat) : base < alignedBase A base + A := by
  rw [alignedBase, if_neg (by omega)]
  exact Nat.lt_div_mul_add hA

/-- When the rounded range does not wrap, `alignRange` is that range. -/
theorem alignRange_eq {A base size : Nat} (h : alignedEnd A base size < 2 ^ 64) :
    Container.alignRange A base size =
      (alignedBase A base, alignedEnd A base size - alignedBase A base) := by
  rcases Nat.eq_zero_or_pos A with rfl | hA
  · simp [Container.alignRange, alignedBase, alignedEnd]
  · have hle := le_alignedEnd A base size
    have hbase : base - base % A = base / A * A := by
      have := Nat.div_add_mod base A
      rw [Nat.mul_comm] at this
      omega
    -- the grown size, in units of the alignment
    obtain ⟨n, hn⟩ : ∃ n, n = size + base % A := ⟨_, rfl⟩
    have hsum : base + size = base / A * A + n := by
      have := Nat.div_add_mod base A
      rw [Nat.mul_comm] at this
      omega
    have hend : alignedEnd A base size = base / A * A + (n + (A - 1)) / A * A := by
      rw [alignedEnd, if_neg (by omega), hsum, Nat.add_assoc, Nat.add_comm,
        Nat.add_mul_div_right _ _ hA, Nat.add_mul, Nat.add_comm]
    have hround : (n + (A - 1)) / A * A = if 0 < n % A then n + (A - n % A) else n := by
      have hdm := Nat.div_add_mod n A
      have hlt := Nat.mod_lt n hA
      have hq : n + (A - 1) = (n % A + (A - 1)) + n / A * A := by
        rw [Nat.mul_comm] at hdm
        omega
      rw [hq, Nat.add_mul_div_right _ _ hA, Nat.add_mul]
      split_ifs with hm
      · have h1 : (n % A + (A - 1)) / A = 1 := by
          rw [Nat.div_eq_iff hA]
          omega
        rw [h1]
        rw [Nat.mul_comm] at hdm
        omega
      · have h0 : (n % A + (A - 1)) / A = 0 := by
          rw [Nat.div_eq_zero_iff]
          omega
        rw [h0]
        rw [Nat.mul_comm] at hdm
        omega
    have hn64 : n < 2 ^ 64 := by omega
    have hadd : SizeT.add size (base % A) = n := by
      rw [SizeT.add_eq (by omega), hn]
    simp only [Container.alignRange, if_pos hA, hadd, alignedBase, if_neg (show A ≠ 0 by omega)]
    rw [hend, hbase, Nat.add_sub_cancel_left, hround]
    split_ifs with hm
    · rw [SizeT.add_eq]
      rw [hend, hround, if_pos hm] at h
      omega
    · rfl

end IoCatcher
