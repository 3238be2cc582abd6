import Mathlib.Tactic.Common

/-!
# Traces and forward simulation

`Trace step s ls s'`: the labels `ls`, oldest first, lead from `s` to `s'`. A label
carries what the outside sees of a step, so that a trace is what a client sees of a run.

A forward simulation matches every step of one system by a step of another one with the
same label, and keeps the two related. Then every trace of the first is a trace of the
second (`Simulation.trace`): whatever holds of the labels of the second holds of the
labels of the first. `Trace.Takes` says that a trace takes a step of a kind, and where.
-/

universe u v w

/-- The labels `ls` lead from `s₀` to the state. -/
inductive Trace {S : Type u} {L : Type v} (step : S → L → S → Prop) (s₀ : S) :
    List L → S → Prop where
  | start : Trace step s₀ [] s₀
  | snoc {ls : List L} {s s' : S} {l : L} : Trace step s₀ ls s → step s l s' →
      Trace step s₀ (ls ++ [l]) s'

namespace Trace

variable {S : Type u} {L : Type v} {step step' : S → L → S → Prop} {s₀ s s' : S} {ls ls' : List L}

/-- A trace and a trace from its end. -/
theorem trans (h : Trace step s₀ ls s) (h' : Trace step s ls' s') :
    Trace step s₀ (ls ++ ls') s' := by
  induction h' with
  | start => simpa using h
  | snoc _ hstep ih =>
    rw [← List.append_assoc]
    exact ih.snoc hstep

theorem single {l : L} (h : step s l s') : Trace step s [l] s' := .snoc .start h

theorem of_nil (h : Trace step s [] s') : s' = s := by
  generalize hls : ([] : List L) = ls at h
  cases h with
  | start => rfl
  | snoc => simp at hls

theorem of_singleton {l : L} (h : Trace step s [l] s') : step s l s' := by
  generalize hls : [l] = ls at h
  cases h with
  | start => cases hls
  | snoc hinit hstep =>
    have hboth : [] ++ [l] = _ ++ [_] := hls
    obtain ⟨rfl, hlast⟩ := List.append_inj' hboth rfl
    obtain rfl := List.singleton_inj.mp hlast
    obtain rfl := hinit.of_nil
    exact hstep

/-- The invariant rule. -/
theorem invariant {I : S → Prop} (h : Trace step s₀ ls s) (hStart : I s₀)
    (hStep : ∀ {s l s'}, I s → step s l s' → I s') : I s := by
  induction h with
  | start => exact hStart
  | snoc _ hNext ih => exact hStep ih hNext

theorem mono (h : Trace step s₀ ls s) (hStep : ∀ {s l s'}, step s l s' → step' s l s') :
    Trace step' s₀ ls s := by
  induction h with
  | start => exact .start
  | snoc _ hNext ih => exact ih.snoc (hStep hNext)

/-- Labels of another kind. -/
theorem map {M : Type w} {step' : S → M → S → Prop} (f : L → M) (h : Trace step s₀ ls s)
    (hStep : ∀ {s l s'}, step s l s' → step' s (f l) s') : Trace step' s₀ (ls.map f) s := by
  induction h with
  | start => exact .start
  | snoc _ hNext ih =>
    rw [List.map_append]
    exact ih.snoc (hStep hNext)

/-- Steps that lessen a measure: a trace is no longer than the measure at its start. -/
theorem length_le {I : S → Prop} {work : S → Nat} (h : Trace step s₀ ls s) (hStart : I s₀)
    (hStep : ∀ {s l s'}, I s → step s l s' → I s' ∧ work s' < work s) :
    I s ∧ ls.length + work s ≤ work s₀ := by
  induction h with
  | start => exact ⟨hStart, by simp⟩
  | snoc _ hNext ih =>
    obtain ⟨hI, hle⟩ := ih
    obtain ⟨hI', hlt⟩ := hStep hI hNext
    refine ⟨hI', ?_⟩
    rw [List.length_append, List.length_singleton]
    omega

/-- The trace takes a step that satisfies `q`. -/
def Takes (step : S → L → S → Prop) (s₀ : S) (ls : List L) (s : S) (q : S → L → S → Prop) : Prop :=
  ∃ pre l post m m', ls = pre ++ l :: post ∧ Trace step s₀ pre m ∧ step m l m' ∧
    Trace step m' post s ∧ q m l m'

theorem Takes.last {q : S → L → S → Prop} {l : L} (h : Trace step s₀ ls s) (hstep : step s l s')
    (hq : q s l s') : Takes step s₀ (ls ++ [l]) s' q :=
  ⟨ls, l, [], s, s', rfl, h, hstep, .start, hq⟩

theorem Takes.snoc {q : S → L → S → Prop} {l : L} (h : Takes step s₀ ls s q)
    (hstep : step s l s') : Takes step s₀ (ls ++ [l]) s' q := by
  obtain ⟨pre, l', post, m, m', rfl, hpre, hm, hpost, hq⟩ := h
  exact ⟨pre, l', post ++ [l], m, m', by simp, hpre, hm, hpost.snoc hstep, hq⟩

theorem Takes.mono {q q' : S → L → S → Prop} (h : Takes step s₀ ls s q)
    (hq : ∀ {pre m l m'}, Trace step s₀ pre m → step m l m' → q m l m' → q' m l m') :
    Takes step s₀ ls s q' := by
  obtain ⟨pre, l, post, m, m', heq, hpre, hm, hpost, hqm⟩ := h
  exact ⟨pre, l, post, m, m', heq, hpre, hm, hpost, hq hpre hm hqm⟩

end Trace

/-- A forward simulation of the steps of one system by those of another, through the
relation `R`. -/
structure Simulation {S : Type u} {A : Type v} {L : Type w} (step : S → L → S → Prop)
    (spec : A → L → A → Prop) (R : S → A → Prop) : Prop where
  step : ∀ {s l s' a}, R s a → step s l s' → ∃ a', spec a l a' ∧ R s' a'

namespace Simulation

variable {S : Type u} {A : Type v} {L : Type w} {step : S → L → S → Prop}
  {spec : A → L → A → Prop} {R : S → A → Prop} {s s' : S} {a : A} {ls : List L}

/-- **Every trace of the first system is a trace of the second.** -/
theorem trace (h : Simulation step spec R) (hR : R s a) (ht : Trace step s ls s') :
    ∃ a', Trace spec a ls a' ∧ R s' a' := by
  induction ht with
  | start => exact ⟨a, .start, hR⟩
  | snoc _ hstep ih =>
    obtain ⟨b, hb, hR'⟩ := ih
    obtain ⟨b', hb', hR''⟩ := h.step hR' hstep
    exact ⟨b', hb.snoc hb', hR''⟩

end Simulation
