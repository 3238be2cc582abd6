import Mathlib.Order.Interval.Set.LinearOrder
import Mathlib.Tactic.Common

/-!
# Ranges with a wrapped end

A machine computes the end of the range of `n` positions at `a` modulo `M`. Two tests
tell from these ends whether two ranges meet. The crossed one asks that each range starts
before the other ends, the nested one that one of them starts inside the other. Both are
right on ranges that end below `M`.

On other ranges, each test is right exactly on the pairs of `crossed_iff_meet_iff` and
`nested_iff_meet_iff`. `Harmless M a n b m` says that the wrapped end of the first range
does no harm to the crossed test: the range does not wrap, or it starts past the second
one, or it wraps past the start of the second one.
-/

namespace Wrapping

variable {M a n b m : ℕ}

/-- The end of a range, as it is computed. -/
def stop (M a n : ℕ) : ℕ := (a + n) % M

/-- The two ranges have a position in common. -/
def Meet (a n b m : ℕ) : Prop := (Set.Ico a (a + n) ∩ Set.Ico b (b + m)).Nonempty

/-- Each range starts before the other ends. -/
def Crossed (M a n b m : ℕ) : Prop := a < stop M b m ∧ b < stop M a n

/-- One of the ranges starts inside the other. -/
def Nested (M a n b m : ℕ) : Prop := (b ≤ a ∧ a < stop M b m) ∨ (a ≤ b ∧ b < stop M a n)

/-- The wrapped end of the first range does no harm. -/
def Harmless (M a n b m : ℕ) : Prop := a + n < M ∨ b + m ≤ a ∨ b + M < a + n

theorem meet_iff (hn : 0 < n) (hm : 0 < m) : Meet a n b m ↔ a < b + m ∧ b < a + n := by
  unfold Meet
  rw [Set.Ico_inter_Ico, Set.nonempty_Ico, sup_lt_iff, lt_inf_iff, lt_inf_iff]
  omega

theorem stop_of_lt (h : a + n < M) : stop M a n = a + n := Nat.mod_eq_of_lt h

theorem stop_of_le (ha : a < M) (hn : n < M) (h : M ≤ a + n) : stop M a n = a + n - M := by
  unfold stop
  rw [Nat.mod_eq_sub_mod h, Nat.mod_eq_of_lt (by omega)]

theorem harmless_of_lt (h : a + n < M) : Harmless M a n b m := Or.inl h

section Exact

variable (ha : a < M) (hn : 0 < n) (hn' : n < M) (hb : b < M) (hm : 0 < m) (hm' : m < M)

include ha hn hn' hb hm hm'

/-- **The crossed test is right exactly where no wrapped end does harm.** -/
theorem crossed_iff_meet_iff :
    (Crossed M a n b m ↔ Meet a n b m) ↔ Harmless M a n b m ∧ Harmless M b m a n := by
  rw [meet_iff hn hm]
  unfold Crossed Harmless
  rcases Nat.lt_or_ge (a + n) M with hlt | hge <;> rcases Nat.lt_or_ge (b + m) M with hlt' | hge'
  · rw [stop_of_lt hlt, stop_of_lt hlt']
    omega
  · rw [stop_of_lt hlt, stop_of_le hb hm' hge']
    omega
  · rw [stop_of_le ha hn' hge, stop_of_lt hlt']
    omega
  · -- both ranges have the last position, and the test needs a cycle
    rw [stop_of_le ha hn' hge, stop_of_le hb hm' hge']
    omega

/-- **The nested test is right exactly where at most one range wraps, the one that
starts last.** -/
theorem nested_iff_meet_iff :
    (Nested M a n b m ↔ Meet a n b m) ↔
      (a + n < M ∨ b ≤ a ∧ b + m < M) ∧ (b + m < M ∨ a ≤ b ∧ a + n < M) := by
  rw [meet_iff hn hm]
  unfold Nested
  rcases Nat.lt_or_ge (a + n) M with hlt | hge <;> rcases Nat.lt_or_ge (b + m) M with hlt' | hge'
  · rw [stop_of_lt hlt, stop_of_lt hlt']
    omega
  · rw [stop_of_lt hlt, stop_of_le hb hm' hge']
    omega
  · rw [stop_of_le ha hn' hge, stop_of_lt hlt']
    omega
  · rw [stop_of_le ha hn' hge, stop_of_le hb hm' hge']
    omega

/-- The nested test is right wherever the crossed one is. -/
theorem nested_iff_meet (h : Harmless M a n b m) (h' : Harmless M b m a n) :
    Nested M a n b m ↔ Meet a n b m := by
  refine (nested_iff_meet_iff ha hn hn' hb hm hm').mpr ?_
  unfold Harmless at h h'
  omega

end Exact

end Wrapping
