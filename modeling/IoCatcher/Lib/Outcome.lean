import Mathlib.Tactic.Common

/-!
# Outcomes of a computation with a state and faults

`Ends m s post fault`: the computation `m`, started in `s`, either returns with
`post` of its result and its last state, or stops with a fault that meets
`fault`. Partial correctness takes `fault` to be true, total correctness takes
it to be false, and a safety property takes the faults that are safe.

The rules below are equivalences, one per construct, so that rewriting with
them computes the exact precondition of a program.

`Twins R m s m' s'` relates two computations: both stop with a fault, or both
return the same value in states related by `R`.
-/

universe u v

/-- A computation whose result passes a test returns. -/
theorem Except.exists_ok {ε : Type u} {α : Type v} {x : Except ε α} {p : α → Bool}
    (h : x.toOption.any p = true) : ∃ a, x = .ok a ∧ p a = true := by
  cases x with
  | error e => exact absurd h (by simp [Except.toOption])
  | ok a => exact ⟨a, rfl, h⟩

variable {σ ε : Type u} {α β : Type u}

/-- What can be said of the end of a computation. -/
def Ends (m : StateT σ (Except ε) α) (s : σ) (post : α → σ → Prop) (fault : ε → Prop) : Prop :=
  match m s with
  | .ok (a, s') => post a s'
  | .error e => fault e

namespace Ends

variable {m : StateT σ (Except ε) α} {k : α → StateT σ (Except ε) β} {s : σ}
  {post post' : α → σ → Prop} {fault fault' : ε → Prop}

theorem of_ok {a : α} {s' : σ} (h : m s = .ok (a, s')) :
    Ends m s post fault ↔ post a s' := by
  unfold Ends
  rw [h]

theorem of_error {e : ε} (h : m s = .error e) : Ends m s post fault ↔ fault e := by
  unfold Ends
  rw [h]

@[simp] theorem pure_iff (a : α) : Ends (pure a) s post fault ↔ post a s := Iff.rfl

@[simp] theorem get_iff {post : σ → σ → Prop} :
    Ends (get : StateT σ (Except ε) σ) s post fault ↔ post s s := Iff.rfl

@[simp] theorem modify_iff {f : σ → σ} {post : PUnit → σ → Prop} :
    Ends (modify f : StateT σ (Except ε) PUnit) s post fault ↔ post ⟨⟩ (f s) := Iff.rfl

@[simp] theorem throw_iff (e : ε) :
    Ends (throw e : StateT σ (Except ε) α) s post fault ↔ fault e := Iff.rfl

@[simp] theorem bind_iff {post : β → σ → Prop} :
    Ends (m >>= k) s post fault ↔ Ends m s (fun a s' => Ends (k a) s' post fault) fault := by
  unfold Ends
  have h : (m >>= k) s = (m s >>= fun r => k r.1 r.2) := rfl
  rw [h]
  cases m s <;> rfl

@[simp] theorem map_iff {f : α → β} {post : β → σ → Prop} :
    Ends (f <$> m) s post fault ↔ Ends m s (fun a s' => post (f a) s') fault := by
  unfold Ends
  have h : (f <$> m) s = (m s >>= fun r => pure (f r.1, r.2)) := rfl
  rw [h]
  cases m s <;> rfl

@[simp] theorem ite_iff {c : Prop} [Decidable c] {m m' : StateT σ (Except ε) α} :
    Ends (if c then m else m') s post fault ↔
      if c then Ends m s post fault else Ends m' s post fault := by
  split_ifs <;> rfl

theorem mono (h : Ends m s post fault) (hpost : ∀ a s', post a s' → post' a s')
    (hfault : ∀ e, fault e → fault' e) : Ends m s post' fault' := by
  unfold Ends at h ⊢
  split at h
  · exact hpost _ _ h
  · exact hfault _ h

/-- A computation that cannot stop with a fault returns. -/
theorem returns (h : Ends m s post fun _ => False) : ∃ a s', m s = .ok (a, s') ∧ post a s' := by
  unfold Ends at h
  split at h
  · exact ⟨_, _, by assumption, h⟩
  · exact h.elim

end Ends

/-- A computation that returns leaves a state related to the first one by `R`. -/
def Moves (m : StateT σ (Except ε) α) (R : σ → σ → Prop) : Prop :=
  ∀ s, Ends m s (fun _ s' => R s s') fun _ => True

namespace Moves

variable {m : StateT σ (Except ε) α} {k : α → StateT σ (Except ε) β} {R S T : σ → σ → Prop}

theorem of_ok (h : Moves m R) {s s' : σ} {a : α} (hok : m s = .ok (a, s')) : R s s' :=
  (Ends.of_ok hok).mp (h s)

theorem mono (h : Moves m R) (hRS : ∀ s s', R s s' → S s s') : Moves m S :=
  fun s => (h s).mono (fun _ s' => hRS s s') fun _ hf => hf

theorem pure {a : α} (h : ∀ s, R s s) : Moves (pure a : StateT σ (Except ε) α) R := h

theorem throw {e : ε} : Moves (throw e : StateT σ (Except ε) α) R := fun _ => trivial

theorem get (h : ∀ s, R s s) : Moves (get : StateT σ (Except ε) σ) R := h

theorem modify {f : σ → σ} (h : ∀ s, R s (f s)) :
    Moves (modify f : StateT σ (Except ε) PUnit) R := h

theorem bind (h : Moves m R) (hk : ∀ a, Moves (k a) S)
    (hT : ∀ s s' s'', R s s' → S s' s'' → T s s'') : Moves (m >>= k) T := by
  intro s
  rw [Ends.bind_iff]
  refine (h s).mono (fun a s' hR => ?_) fun _ hf => hf
  exact (hk a s').mono (fun _ s'' hS => hT s s' s'' hR hS) fun _ hf => hf

theorem ite {c : Prop} [Decidable c] {m' : StateT σ (Except ε) α} (h : c → Moves m R)
    (h' : ¬ c → Moves m' R) : Moves (if c then m else m') R := by
  split_ifs with hc
  · exact h hc
  · exact h' hc

end Moves

/-- Two computations end alike. -/
def Twins (R : σ → σ → Prop) (m : StateT σ (Except ε) α) (s : σ) (m' : StateT σ (Except ε) α)
    (s' : σ) : Prop :=
  match m s, m' s' with
  | .ok (a, t), .ok (a', t') => a = a' ∧ R t t'
  | .error _, .error _ => True
  | _, _ => False

namespace Twins

variable {R : σ → σ → Prop} {m m' : StateT σ (Except ε) α} {k k' : α → StateT σ (Except ε) β}
  {s s' : σ}

theorem pure (a : α) (h : R s s') : Twins R (pure a : StateT σ (Except ε) α) s (pure a) s' :=
  ⟨rfl, h⟩

theorem throw (e e' : ε) : Twins R (throw e : StateT σ (Except ε) α) s (throw e') s' := trivial

theorem of_error {e e' : ε} (h : m s = .error e) (h' : m' s' = .error e') :
    Twins R m s m' s' := by
  unfold Twins
  rw [h, h']
  trivial

theorem modify {f f' : σ → σ} (h : R (f s) (f' s')) :
    Twins R (modify f : StateT σ (Except ε) PUnit) s (modify f') s' := ⟨rfl, h⟩

theorem get_bind {k k' : σ → StateT σ (Except ε) β} (h : Twins R (k s) s (k' s') s') :
    Twins R (get >>= k) s (get >>= k') s' := h

theorem bind_of_ok (h : Twins R m s m' s')
    (hk : ∀ a t t', m s = .ok (a, t) → m' s' = .ok (a, t') → R t t' →
      Twins R (k a) t (k' a) t') : Twins R (m >>= k) s (m' >>= k') s' := by
  unfold Twins at h ⊢
  have hm : (m >>= k) s = (m s >>= fun r => k r.1 r.2) := rfl
  have hm' : (m' >>= k') s' = (m' s' >>= fun r => k' r.1 r.2) := rfl
  rw [hm, hm']
  cases hr : m s with
  | error e =>
    cases hr' : m' s' with
    | error e' => trivial
    | ok r' =>
      rw [hr, hr'] at h
      exact h.elim
  | ok r =>
    cases hr' : m' s' with
    | error e' =>
      rw [hr, hr'] at h
      exact h.elim
    | ok r' =>
      rw [hr, hr'] at h
      obtain ⟨a, t⟩ := r
      obtain ⟨a', t'⟩ := r'
      obtain ⟨rfl, ht⟩ := h
      exact hk a t t' hr hr' ht

theorem bind (h : Twins R m s m' s') (hk : ∀ a t t', R t t' → Twins R (k a) t (k' a) t') :
    Twins R (m >>= k) s (m' >>= k') s' :=
  h.bind_of_ok fun a t t' _ _ ht => hk a t t' ht

theorem ite {c : Prop} [Decidable c] {n n' : StateT σ (Except ε) α} (h : c → Twins R m s m' s')
    (h' : ¬ c → Twins R n s n' s') :
    Twins R (if c then m else n) s (if c then m' else n') s' := by
  split_ifs with hc
  · exact h hc
  · exact h' hc

end Twins
