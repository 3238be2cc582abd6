import Mathlib.Tactic.Common

/-!
# Runs of a labelled transition system

`Run step guard s₀ s`: the state `s` is reached from `s₀` by steps whose event
meets `guard` in the state it is taken from. A property of every run under an
assumption on its steps is proved with `Run.invariant`: it holds at the start
and every allowed step keeps it. `Run.trace` executes a list of events, to show
a run that exists.

A system of threads is a list of the places its threads are at; a step of the
thread `t` writes the list at `t` (`Thread.getElem?_move`, `Thread.countP_move`).
-/

universe u v

/-- The states reached from `s₀` by steps that meet `guard`. -/
inductive Run {S : Type u} {E : Type v} (step : S → E → S → Prop) (guard : S → E → Prop)
    (s₀ : S) : S → Prop where
  | start : Run step guard s₀ s₀
  | next {s s' : S} {e : E} : Run step guard s₀ s → guard s e → step s e s' →
      Run step guard s₀ s'

namespace Run

variable {S : Type u} {E : Type v} {step : S → E → S → Prop} {guard : S → E → Prop} {s₀ s : S}

/-- The invariant rule. -/
theorem invariant {I : S → Prop} (h : Run step guard s₀ s) (hStart : I s₀)
    (hStep : ∀ {s s' e}, I s → guard s e → step s e s' → I s') : I s := by
  induction h with
  | start => exact hStart
  | next _ hGuard hNext ih => exact hStep ih hGuard hNext

/-- A run with fewer steps or a stronger guard is a run. -/
theorem mono {step' : S → E → S → Prop} {guard' : S → E → Prop} (h : Run step guard s₀ s)
    (hStep : ∀ {s e s'}, step s e s' → step' s e s') (hGuard : ∀ {s e}, guard s e → guard' s e) :
    Run step' guard' s₀ s := by
  induction h with
  | start => exact .start
  | next _ hg hn ih => exact .next ih (hGuard hg) (hStep hn)

/-- A run and a run from its end. -/
theorem trans {s' : S} (h : Run step guard s₀ s) (h' : Run step guard s s') :
    Run step guard s₀ s' := by
  induction h' with
  | start => exact h
  | next _ hg hn ih => exact .next ih hg hn

/-- Execute a list of events, as long as each is allowed and returns. -/
def trace {F : Type v} (exec : S → E → Except F S) (guard : S → E → Prop)
    [∀ s e, Decidable (guard s e)] : List E → S → Option S
  | [], s => some s
  | e :: rest, s =>
    if guard s e then
      match exec s e with
      | .ok s' => trace exec guard rest s'
      | .error _ => none
    else none

/-- The end of an execution is reached by a run. -/
theorem of_trace {F : Type v} {exec : S → E → Except F S} [∀ s e, Decidable (guard s e)]
    {es : List E} (hrun : Run (fun s e s' => exec s e = .ok s') guard s₀ s) {s' : S}
    (h : trace exec guard es s = some s') :
    Run (fun s e s' => exec s e = .ok s') guard s₀ s' := by
  induction es generalizing s with
  | nil =>
    obtain rfl := Option.some.inj h
    exact hrun
  | cons e rest ih =>
    unfold trace at h
    split_ifs at h with hGuard
    split at h
    · rename_i t ht
      exact ih (.next hrun hGuard ht) h
    · exact absurd h (by simp)

/-- An execution whose end passes a test shows that a run gets there. -/
theorem exists_of_trace {F : Type v} {exec : S → E → Except F S} [∀ s e, Decidable (guard s e)]
    {es : List E} {p : S → Prop} [DecidablePred p]
    (h : (trace exec guard es s₀).any (fun s => decide (p s)) = true) :
    ∃ s, Run (fun s e s' => exec s e = .ok s') guard s₀ s ∧ p s := by
  obtain ⟨s, hs, hp⟩ := (Option.any_eq_true _ _).mp h
  exact ⟨s, of_trace .start hs, of_decide_eq_true hp⟩

end Run

namespace Thread

variable {α : Type u} {l : List α} {t : Nat} {a b : α}

/-- What stands at an index after the write at `t`. -/
theorem getElem?_move (h : l[t]? = some a) (i : Nat) :
    (l.set t b)[i]? = if i = t then some b else l[i]? := by
  obtain ⟨hlt, -⟩ := List.getElem?_eq_some_iff.mp h
  by_cases hi : i = t
  · rw [if_pos hi, hi, List.getElem?_set_self hlt]
  · rw [if_neg hi, List.getElem?_set_ne (Ne.symm hi)]

/-- A count after the write at `t`, with the element that was there. -/
theorem countP_move (h : l[t]? = some a) (q : α → Bool) :
    (l.set t b).countP q + (if q a then 1 else 0) = l.countP q + if q b then 1 else 0 := by
  obtain ⟨hlt, rfl⟩ := List.getElem?_eq_some_iff.mp h
  rw [List.countP_set hlt]
  by_cases hq : q l[t]
  · have hpos : 0 < l.countP q := List.countP_pos_iff.mpr ⟨_, List.getElem_mem hlt, hq⟩
    simp only [hq, if_true]
    omega
  · simp [hq]

/-- What stands at an index after one more thread started. -/
theorem getElem?_spawn (i : Nat) :
    (l ++ [b])[i]? = if i = l.length then some b else l[i]? := by
  rw [List.getElem?_append]
  by_cases hlt : i < l.length
  · rw [if_pos hlt, if_neg (Nat.ne_of_lt hlt)]
  · rw [if_neg hlt]
    by_cases hi : i = l.length
    · simp [hi]
    · rw [if_neg hi, List.getElem?_eq_none (by simp; omega), List.getElem?_eq_none (by omega)]

end Thread
