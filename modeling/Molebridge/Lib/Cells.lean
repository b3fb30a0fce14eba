import Mathlib.Tactic

/-! Finitely many intervals cut the numbers into cells; every number has a
neighbour at an interval's end that no interval can tell from it. -/

namespace Molebridge

/-- No interval starts or ends between the two numbers. -/
def SameCell (I : List (ℕ × ℕ)) (c v : ℕ) : Prop :=
  ∀ i ∈ I, (i.1 ≤ c ↔ i.1 ≤ v) ∧ (c ≤ i.2 ↔ v ≤ i.2)

/-- Downwards: the first number of the cell's run is 0, the start of an interval
or just behind the end of one. -/
theorem exists_low_end (I : List (ℕ × ℕ)) (v : ℕ) :
    ∃ c ≤ v, (c = 0 ∨ ∃ i ∈ I, c = i.1 ∨ c = i.2 + 1) ∧ SameCell I c v := by
  induction v with
  | zero => exact ⟨0, le_refl _, .inl rfl, fun _ _ => ⟨Iff.rfl, Iff.rfl⟩⟩
  | succ v ih =>
    by_cases hend : ∃ i ∈ I, v + 1 = i.1 ∨ v + 1 = i.2 + 1
    · exact ⟨v + 1, le_refl _, .inr hend, fun _ _ => ⟨Iff.rfl, Iff.rfl⟩⟩
    · push Not at hend
      obtain ⟨c, _, hends, hcell⟩ := ih
      refine ⟨c, by omega, hends, fun i hi => ?_⟩
      have h1 := hcell i hi
      have h2 := hend i hi
      omega

/-- Upwards: below the end of some interval, the last number of the cell's run is
the end of an interval or just before the start of one. -/
theorem exists_high_end (I : List (ℕ × ℕ)) (v : ℕ) (h : ∃ i ∈ I, v ≤ i.2) :
    ∃ c, v ≤ c ∧ (∃ i ∈ I, c + 1 = i.1 ∨ c = i.2) ∧ SameCell I c v := by
  obtain ⟨j, hj, _⟩ := h
  obtain ⟨n, _⟩ : ∃ n, n = j.2 - v := ⟨_, rfl⟩
  induction n generalizing v with
  | zero => exact ⟨v, le_refl _, ⟨j, hj, .inr (by omega)⟩, fun _ _ => ⟨Iff.rfl, Iff.rfl⟩⟩
  | succ n ih =>
    by_cases hend : ∃ i ∈ I, v + 1 = i.1 ∨ v = i.2
    · exact ⟨v, le_refl _, hend, fun _ _ => ⟨Iff.rfl, Iff.rfl⟩⟩
    · push Not at hend
      obtain ⟨c, _, hends, hcell⟩ := ih (v + 1) (by omega) (by omega)
      refine ⟨c, by omega, hends, fun i hi => ?_⟩
      have h1 := hcell i hi
      have h2 := hend i hi
      omega

end Molebridge
