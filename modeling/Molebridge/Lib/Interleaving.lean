import Mathlib.Logic.Relation
import Mathlib.Logic.Function.Basic

/-! Interleavings: a step of whichever goroutine runs next, and what every step keeps. -/

namespace Molebridge

variable {σ : Type*} {step : σ → σ → Prop} {s s' : σ}

/-- What every step keeps holds in every state that is reached. -/
theorem keeps_of_step {I : σ → Prop} (hkeep : ∀ {s s'}, step s s' → I s → I s')
    (h : Relation.ReflTransGen step s s') (hs : I s) : I s' := by
  induction h with
  | refl => exact hs
  | tail _ hstep ih => exact hkeep hstep ih

theorem update_true {ι : Type*} [DecidableEq ι] {f : ι → Bool} {i j : ι} (h : f j = true) :
    Function.update f i true j = true := by
  by_cases hji : j = i
  · rw [hji, Function.update_self]
  · rwa [Function.update_of_ne hji]

end Molebridge
