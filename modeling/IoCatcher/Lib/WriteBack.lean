import IoCatcher.Lib.Simulation

/-!
# Write-back stores

A store shows its users a value for each key, and has kept one that survives a restart.
It may keep what it shows at any time and for any keys, and keeps nothing else; a restart
shows what was kept, and may have cut off the store while it was keeping some of the
values it showed. What the other steps do to the shown values is left open.

The rules are for any system with a *view* as a store, and labels that tell its restarts
from its other steps. A key is *saved* where the kept value is the shown one.

* `recovered` — after a save, what the store shows or has kept is the saved value, or one
  that a step other than a restart put there since.
-/

universe u v w

/-- What a store shows, and what it has kept. -/
structure Store (κ : Type u) (ν : Type v) where
  shown : κ → ν
  kept  : κ → ν

namespace WriteBack

variable {κ : Type u} {ν : Type v}

/-- The store keeps nothing but what it shows. -/
def Operates (a a' : Store κ ν) : Prop :=
  ∀ k, a'.kept k = a.kept k ∨ a'.kept k = a'.shown k

/-- The store shows what it has kept, and this is what was kept or shown. -/
def Restarts (a a' : Store κ ν) : Prop :=
  ∀ k, a'.shown k = a'.kept k ∧ (a'.kept k = a.kept k ∨ a'.kept k = a.shown k)

/-- The kept value is the shown one. -/
def Saved (a : Store κ ν) (k : κ) : Prop := a.kept k = a.shown k

/-- The systems that are seen as a write-back store, in the states that satisfy `I`. -/
structure Keeps {S L : Type w} (step : S → L → S → Prop) (restart : L → Prop)
    (view : S → Store κ ν) (I : S → Prop) : Prop where
  invariant : ∀ {s l s'}, I s → step s l s' → I s'
  operates  : ∀ {s l s'}, I s → step s l s' → ¬ restart l → Operates (view s) (view s')
  restarts  : ∀ {s l s'}, I s → step s l s' → restart l → Restarts (view s) (view s')

variable {S L : Type w} {step : S → L → S → Prop} {restart : L → Prop} {view : S → Store κ ν}
  {I : S → Prop} {s s' : S} {ls : List L} {k : κ}

/-- A step other than a restart makes the store show the value `v`, which it did not show
before. -/
def Puts (restart : L → Prop) (view : S → Store κ ν) (k : κ) (v : ν) (s : S) (l : L) (s' : S) :
    Prop :=
  ¬ restart l ∧ (view s').shown k = v ∧ (view s).shown k ≠ v

/-- The value was saved at the start, or was put there on the way. -/
def Known (step : S → L → S → Prop) (restart : L → Prop) (view : S → Store κ ν) (k : κ) (s : S)
    (ls : List L) (s' : S) (v : ν) : Prop :=
  v = (view s).shown k ∨ Trace.Takes step s ls s' (Puts restart view k v)

theorem Known.snoc {v : ν} {t : S} {l : L} (h : Known step restart view k s ls t v)
    (hstep : step t l s') : Known step restart view k s (ls ++ [l]) s' v :=
  h.imp_right fun htakes => htakes.snoc hstep

/-- **What comes back after a save**: the saved value, or one that was put there since. -/
theorem recovered (h : Keeps step restart view I) (hs : I s) (ht : Trace step s ls s')
    (hsaved : Saved (view s) k) :
    Known step restart view k s ls s' ((view s').shown k) ∧
      Known step restart view k s ls s' ((view s').kept k) := by
  induction ht with
  | start => exact ⟨Or.inl rfl, Or.inl hsaved⟩
  | snoc htrace hnext ih =>
    rename_i ls t t' l
    obtain ⟨hshown, hkept⟩ := ih
    have hI := htrace.invariant hs h.invariant
    by_cases hl : restart l
    · have hk : Known step restart view k s (ls ++ [l]) t' ((view t').kept k) := by
        rcases (h.restarts hI hnext hl k).2 with heq | heq
        · exact heq ▸ hkept.snoc hnext
        · exact heq ▸ hshown.snoc hnext
      exact ⟨(h.restarts hI hnext hl k).1 ▸ hk, hk⟩
    · have hv : Known step restart view k s (ls ++ [l]) t' ((view t').shown k) := by
        by_cases hsame : (view t).shown k = (view t').shown k
        · exact hsame ▸ hshown.snoc hnext
        · exact Or.inr (.last htrace hnext ⟨hl, rfl, hsame⟩)
      refine ⟨hv, ?_⟩
      rcases h.operates hI hnext hl k with heq | heq
      · exact heq ▸ hkept.snoc hnext
      · exact heq ▸ hv

/-- A value that comes back after a save, shown or kept. -/
theorem known_of_saved (h : Keeps step restart view I) (hs : I s) (ht : Trace step s ls s')
    (hsaved : Saved (view s) k) {v : ν} (hv : v = (view s').shown k ∨ v = (view s').kept k) :
    Known step restart view k s ls s' v := by
  obtain ⟨hshown, hkept⟩ := recovered h hs ht hsaved
  rcases hv with rfl | rfl
  · exact hshown
  · exact hkept

end WriteBack
