import Mathlib.Data.List.Perm.Subperm
import Mathlib.Tactic.Common

/-!
# Custody

Things are taken one after the other, held for a while and given back.
`Custody taken returned held` says that nothing is lost and nothing is made up: what was
taken, as often as it was taken, is what came back and what is still held. The order in
which things come back does not matter. `Custody.take`, `Custody.giveBack` and
`Custody.move` are the three things that can happen.
-/

universe u

variable {α : Type u} {a : α} {taken returned held held' : List α}

/-- What was taken has been returned, or is held. -/
def Custody (taken returned held : List α) : Prop := taken.Perm (returned ++ held)

namespace Custody

theorem start : Custody ([] : List α) [] [] := List.Perm.refl _

/-- One more thing is taken, and held. -/
theorem take (h : Custody taken returned held) (hp : held'.Perm (a :: held)) :
    Custody (taken ++ [a]) returned held' := by
  have hout : (taken ++ [a]).Perm (a :: (returned ++ held)) :=
    (List.perm_append_singleton a taken).trans (h.cons a)
  exact hout.trans ((List.perm_middle.symm).trans (hp.symm.append_left returned))

/-- One thing that is held is given back. -/
theorem giveBack (h : Custody taken returned held) (hp : held.Perm (a :: held')) :
    Custody taken (returned ++ [a]) held' := by
  refine h.trans ((hp.append_left returned).trans ?_)
  rw [List.append_assoc, List.singleton_append]

/-- What is held changes its place. -/
theorem move (h : Custody taken returned held) (hp : held.Perm held') :
    Custody taken returned held' := h.trans (hp.append_left returned)

/-- Nothing comes back more often than it was taken. -/
theorem subperm (h : Custody taken returned held) : returned.Subperm taken :=
  (List.sublist_append_left returned held).subperm.trans h.symm.subperm

theorem length_held (h : Custody taken returned held) :
    taken.length = returned.length + held.length := by
  rw [h.length_eq, List.length_append]

end Custody
