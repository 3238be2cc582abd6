import Mathlib.Data.List.Sort
import Mathlib.Tactic.Common

/-!
# Tilings of a range

`Tiles off size lo l hi`: the elements of `l`, read as the half-open ranges
`[off a, off a + size a)`, are not empty and follow each other without gap or
overlap from `lo` to `hi`.

The lemmas say that such a list is sorted, stays inside the range, and covers
it (`Tiles.mem_bounds`, `Tiles.exists_mem`), and that it is determined by its
elements (`Tiles.eq_of_perm`): a sort of any rearrangement gives it back.
-/

universe u

variable {α : Type u} {off size : α → Nat}

/-- The ranges of `l` follow each other from `lo` to `hi`. -/
def Tiles (off size : α → Nat) : Nat → List α → Nat → Prop
  | lo, [], hi => lo = hi
  | lo, a :: l, hi => off a = lo ∧ 0 < size a ∧ Tiles off size (off a + size a) l hi

namespace Tiles

theorem le {lo hi : Nat} : ∀ {l : List α}, Tiles off size lo l hi → lo ≤ hi := by
  intro l
  induction l generalizing lo with
  | nil => exact fun h => Nat.le_of_eq h
  | cons a l ih =>
    rintro ⟨ha, hpos, hrest⟩
    have := ih hrest
    omega

theorem append {lo mid hi : Nat} : ∀ {l l' : List α}, Tiles off size lo l mid →
    Tiles off size mid l' hi → Tiles off size lo (l ++ l') hi := by
  intro l l' h h'
  induction l generalizing lo with
  | nil =>
    obtain rfl : lo = mid := h
    exact h'
  | cons a l ih => exact ⟨h.1, h.2.1, ih h.2.2⟩

theorem of_append {lo hi : Nat} {l l' : List α} (h : Tiles off size lo (l ++ l') hi) :
    ∃ mid, Tiles off size lo l mid ∧ Tiles off size mid l' hi := by
  induction l generalizing lo with
  | nil => exact ⟨lo, rfl, h⟩
  | cons a l ih =>
    obtain ⟨mid, hl, hl'⟩ := ih h.2.2
    exact ⟨mid, ⟨h.1, h.2.1, hl⟩, hl'⟩

theorem mem_bounds {lo hi : Nat} {a : α} : ∀ {l : List α}, Tiles off size lo l hi → a ∈ l →
    lo ≤ off a ∧ 0 < size a ∧ off a + size a ≤ hi := by
  intro l
  induction l generalizing lo with
  | nil => simp
  | cons b l ih =>
    rintro ⟨hb, hpos, hrest⟩ ha
    rcases List.mem_cons.mp ha with rfl | ha
    · have := hrest.le
      omega
    · have := ih hrest ha
      omega

theorem exists_mem {lo hi x : Nat} : ∀ {l : List α}, Tiles off size lo l hi → lo ≤ x → x < hi →
    ∃ a ∈ l, off a ≤ x ∧ x < off a + size a := by
  intro l
  induction l generalizing lo with
  | nil =>
    intro h h1 h2
    obtain rfl : lo = hi := h
    omega
  | cons b l ih =>
    rintro ⟨hb, hpos, hrest⟩ h1 h2
    by_cases hx : x < off b + size b
    · exact ⟨b, List.mem_cons_self .., by omega, hx⟩
    · obtain ⟨a, ha, hcov⟩ := ih hrest (by omega) h2
      exact ⟨a, List.mem_cons_of_mem _ ha, hcov⟩

theorem pairwise {lo hi : Nat} : ∀ {l : List α}, Tiles off size lo l hi →
    l.Pairwise fun a b => off a + size a ≤ off b := by
  intro l
  induction l generalizing lo with
  | nil => exact fun _ => List.Pairwise.nil
  | cons a l ih =>
    rintro ⟨-, -, hrest⟩
    exact List.pairwise_cons.mpr ⟨fun b hb => (hrest.mem_bounds hb).1, ih hrest⟩

theorem map {β : Type u} {f : β → α} {lo hi : Nat} : ∀ {l : List β},
    Tiles (fun b => off (f b)) (fun b => size (f b)) lo l hi → Tiles off size lo (l.map f) hi := by
  intro l
  induction l generalizing lo with
  | nil => exact fun h => h
  | cons b l ih => exact fun h => ⟨h.1, h.2.1, ih h.2.2⟩

/-- An element of a tiling is determined by where it starts. -/
theorem eq_of_off_eq {lo hi : Nat} {a b : α} : ∀ {l : List α}, Tiles off size lo l hi →
    a ∈ l → b ∈ l → off a = off b → a = b := by
  intro l
  induction l generalizing lo with
  | nil => simp
  | cons x l ih =>
    rintro ⟨hx, hpos, hrest⟩ ha hb heq
    rcases List.mem_cons.mp ha with hax | ha' <;> rcases List.mem_cons.mp hb with hbx | hb'
    · rw [hax, hbx]
    · have := hrest.mem_bounds hb'
      rw [hax] at heq
      omega
    · have := hrest.mem_bounds ha'
      rw [hbx] at heq
      omega
    · exact ih hrest ha' hb' heq

/-- A tiling with a single element. -/
theorem eq_singleton {lo hi : Nat} {a : α} {l : List α} (h : Tiles off size lo l hi) (ha : a ∈ l)
    (hall : ∀ b ∈ l, b = a) : l = [a] := by
  cases l with
  | nil => exact absurd ha List.not_mem_nil
  | cons b l =>
    obtain rfl := hall b (List.mem_cons_self ..)
    cases l with
    | nil => rfl
    | cons b' l =>
      obtain ⟨-, -, hb', hpos, -⟩ := h
      rw [hall b' (List.mem_cons_of_mem _ (List.mem_cons_self ..))] at hb' hpos
      omega

/-- Sorting a rearrangement of a tiling by offset gives the tiling back. -/
theorem eq_of_perm {lo hi : Nat} {l l' : List α} (h : Tiles off size lo l hi)
    (hp : l'.Perm l) (hs : l'.Pairwise fun a b => off a ≤ off b) : l' = l := by
  refine hp.eq_of_pairwise (fun a b ha hb h1 h2 => ?_) hs (h.pairwise.imp ?_)
  · exact h.eq_of_off_eq (hp.mem_iff.mp ha) hb (Nat.le_antisymm h1 h2)
  · exact fun hab => Nat.le_trans (Nat.le_add_right _ _) hab

end Tiles
