import Mathlib.Data.List.Basic
import Mathlib.Tactic.Common

/-!
# Mailboxes

A list of things in flight, each for one address or for none. They are added at the end and
taken out anywhere. `Mailbox.of key a l` is what is in flight for the address `a`, in the order
it was added: what happens to the others does not change it (`of_eraseIdx_ne`), and when there
is one thing in it, that one is taken (`of_eraseIdx_only`).

Things may also be marked, each with a mark of its own (`filterMap_eraseIdx_some`).
-/

universe u v

namespace Mailbox

variable {α : Type u} {K : Type v} [DecidableEq K] {key key' : α → Option K} {a : K}
  {l l' : List α} {x y : α} {n : Nat}

/-- What is in flight for an address. -/
def of (key : α → Option K) (a : K) (l : List α) : List α := l.filter fun x => key x = some a

@[simp] theorem of_append : of key a (l ++ l') = of key a l ++ of key a l' :=
  List.filter_append ..

theorem mem_of : x ∈ of key a l ↔ x ∈ l ∧ key x = some a := by
  simp [of]

theorem of_singleton (h : key x = some a) : of key a [x] = [x] := by
  simp [of, h]

theorem of_singleton_ne (h : key x ≠ some a) : of key a [x] = [] := by
  simp [of, h]

/-- Everything is for one address. -/
theorem of_all {b : K} (h : ∀ x ∈ l, key x = some b) : of key a l = if a = b then l else [] := by
  unfold of
  split_ifs with hab
  · exact List.filter_eq_self.mpr fun x hx => by simp [h x hx, hab]
  · exact List.filter_eq_nil_iff.mpr fun x hx => by simpa [h x hx] using Ne.symm hab

/-- Only what the keys say of this address matters. -/
theorem of_congr (h : ∀ x ∈ l, key x = some a ↔ key' x = some a) : of key a l = of key' a l :=
  List.filter_congr fun x hx => by simp only [h x hx]

/-- What stands before and behind the thing that is taken. -/
theorem split_at (h : l[n]? = some x) :
    l = l.take n ++ x :: l.drop (n + 1) ∧ l.eraseIdx n = l.take n ++ l.drop (n + 1) := by
  obtain ⟨hn, rfl⟩ := List.getElem?_eq_some_iff.mp h
  refine ⟨?_, List.eraseIdx_eq_take_drop_succ l n⟩
  rw [List.getElem_cons_drop, List.take_append_drop]

/-- What is taken from somewhere else. -/
theorem of_eraseIdx_ne (h : l[n]? = some x) (hne : key x ≠ some a) :
    of key a (l.eraseIdx n) = of key a l := by
  obtain ⟨hl, herase⟩ := split_at h
  conv_rhs => rw [hl]
  rw [herase, of_append, of_append, ← List.singleton_append, of_append, of_singleton_ne hne,
    List.nil_append]

/-- The only thing is taken. -/
theorem of_eraseIdx_only (h : l[n]? = some x) (hkey : key x = some a) (honly : of key a l = [y]) :
    x = y ∧ of key a (l.eraseIdx n) = [] := by
  obtain ⟨hl, herase⟩ := split_at h
  rw [hl, of_append, ← List.singleton_append, of_append, of_singleton hkey] at honly
  have hlen := congrArg List.length honly
  simp only [List.length_append, List.length_singleton] at hlen
  have hbefore : of key a (l.take n) = [] := List.length_eq_zero_iff.mp (by omega)
  have hbehind : of key a (l.drop (n + 1)) = [] := List.length_eq_zero_iff.mp (by omega)
  rw [hbefore, hbehind] at honly
  refine ⟨by simpa using honly, ?_⟩
  rw [herase, of_append, hbefore, hbehind, List.append_nil]

omit [DecidableEq K] in
/-- The marks of what is left, when the thing that is taken has none. -/
theorem filterMap_eraseIdx_none {f : α → Option K} (h : l[n]? = some x) (hf : f x = none) :
    (l.eraseIdx n).filterMap f = l.filterMap f := by
  obtain ⟨hl, herase⟩ := split_at h
  conv_rhs => rw [hl]
  rw [herase, List.filterMap_append, List.filterMap_append, List.filterMap_cons_none hf]

/-- The marks of what is left, when no two things have the same one. -/
theorem filterMap_eraseIdx_some {f : α → Option K} (h : l[n]? = some x) (hf : f x = some a)
    (hnodup : (l.filterMap f).Nodup) :
    (l.eraseIdx n).filterMap f = (l.filterMap f).filter fun b => b ≠ a := by
  obtain ⟨hl, herase⟩ := split_at h
  rw [hl, List.filterMap_append, List.filterMap_cons_some hf] at hnodup ⊢
  obtain ⟨hbefore, hbehind⟩ : a ∉ (l.take n).filterMap f ∧ a ∉ (l.drop (n + 1)).filterMap f := by
    rw [List.nodup_append, List.nodup_cons] at hnodup
    exact ⟨fun ha => hnodup.2.2 a ha a List.mem_cons_self rfl, hnodup.2.1.1⟩
  have hkeep : ∀ l' : List K, a ∉ l' → (l'.filter fun b => b ≠ a) = l' := by
    intro l' ha
    exact List.filter_eq_self.mpr fun b hb => by
      simpa using fun heq : b = a => ha (heq ▸ hb)
  rw [← hl, herase, List.filterMap_append, List.filter_append, List.filter_cons_of_neg (by simp),
    hkeep _ hbefore, hkeep _ hbehind]

end Mailbox
