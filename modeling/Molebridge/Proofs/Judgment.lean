import Molebridge.Proofs.Points

/-! What an empty list of violations says, of one state and of a change: the
points are within the limit and none of them escapes. -/

namespace Molebridge

variable {s base : State} {more : List State}

/-- A protected packet that can reach a place its class forbids. -/
def Escapes (s : State) (p : Packet) : Prop :=
  (s.classifier p).any = false ∧ ∃ o ∈ s.walk p, (s.classifier p).allows o = false

instance (s : State) (p : Packet) : Decidable (Escapes s p) :=
  inferInstanceAs (Decidable (_ ∧ _))

def Within (base : State) (more : List State) : Prop :=
  ∀ f, (gather f base more).total f ≤ maxPoints

theorem allPoints_of_within (h : Within base more) :
    allPoints base more = some ((gather .v4 base more).combinations .v4 ++
      (gather .v6 base more).combinations .v6) := by
  have hp : ∀ f, points f base more = some ((gather f base more).combinations f) := by
    intro f
    unfold points
    rw [if_neg (not_lt.2 (h f))]
  simp [allPoints, hp]

theorem allPoints_of_not_within (h : ¬ Within base more) :
    allPoints base more = none := by
  obtain ⟨f, hf⟩ := not_forall.1 h
  have hp : points f base more = none := by
    unfold points
    rw [if_pos (not_le.1 hf)]
  cases f with
  | v4 => simp [allPoints, hp]
  | v6 => cases h4 : points .v4 base more <;> simp [allPoints, hp]

theorem forall_mem_points {P : Packet → Prop} (base : State) (more : List State) :
    (∀ p ∈ (gather .v4 base more).combinations .v4 ++ (gather .v6 base more).combinations .v6, P p) ↔
      ∀ f, ∀ p ∈ (gather f base more).combinations f, P p := by
  simp only [List.mem_append, or_imp, forall_and]
  constructor
  · rintro ⟨h4, h6⟩ f
    cases f with
    | v4 => exact h4
    | v6 => exact h6
  · exact fun h => ⟨h .v4, h .v6⟩

theorem judge_eq_nil_iff (s : State) (pts : List Packet) :
    judge s pts = [] ↔ ∀ p ∈ pts, ¬ Escapes s p := by
  simp only [judge, List.filterMap_eq_nil_iff]
  refine forall₂_congr fun p _ => ?_
  unfold Escapes
  cases (s.classifier p).any <;> simp

theorem violations_eq_nil_iff (hs : s.spec.config.isGluetunSidecar = false) :
    s.violations = [] ↔ Within s [] ∧ ∀ f, ∀ p ∈ (gather f s []).combinations f, ¬ Escapes s p := by
  unfold State.violations
  rw [hs, if_neg (by simp)]
  by_cases hw : Within s []
  · rw [allPoints_of_within hw]
    simp only [judge_eq_nil_iff, forall_mem_points, hw, true_and]
  · rw [allPoints_of_not_within hw]
    simp [hw]

/-- What a change lets a point do that its class forbids, it could do before. -/
def NothingNew (before after : State) (p : Packet) : Prop :=
  (after.classifier p).any = false → ∀ o ∈ after.walk p, (after.classifier p).allows o = false →
    o ∈ before.walk p

theorem worsens_eq_nil_iff {before after : State}
    (hs : before.spec.config.isGluetunSidecar = false) :
    worsens before after = [] ↔ Within before [after] ∧
      ∀ f, ∀ p ∈ (gather f before [after]).combinations f, NothingNew before after p := by
  unfold worsens
  rw [hs, if_neg (by simp)]
  by_cases hw : Within before [after]
  · rw [allPoints_of_within hw]
    simp only [List.flatMap_eq_nil_iff, forall_mem_points before [after], hw, true_and]
    refine forall₃_congr fun f p _ => ?_
    unfold NothingNew
    cases (after.classifier p).any
    · simp
    · simp
  · rw [allPoints_of_not_within hw]
    simp [hw]

/-! ### A state against its own facts -/

theorem tableRoutes_subset (s : State) (f : Family) (t : ℕ) :
    s.tableRoutes f t ⊆ (s.routes f).flatMap (·.2) := by
  intro rt hrt
  unfold State.tableRoutes at hrt
  cases hl : (s.routes f).lookup t with
  | none => simp [hl] at hrt
  | some l =>
    rw [hl, Option.getD_some] at hrt
    obtain ⟨_, _, hsplit, -⟩ := List.lookup_eq_some_iff.1 hl
    rw [hsplit]
    simp [hrt]

theorem covers_self (s : State) (f : Family) : Covers (gather f s []) s f where
  config := rfl
  rules := by simp [gather]
  routes t := by simpa [gather] using tableRoutes_subset s f t
  prot a := by simp [gather]
  locals a := by simp [gather]
  hostSubnets := by simp [gather]
  lan := by simp [gather]

theorem escapes_congr {F : Facts} {p q : Packet} (hc : Covers F s p.f) (h : Alike F p q) :
    Escapes s p ↔ Escapes s q := by
  unfold Escapes
  rw [walk_congr hc h, classifier_congr hc h]

theorem not_escapes_of_listed (hs : s.spec.config.isGluetunSidecar = false)
    (h : s.violations = []) {f : Family} {q : Packet} (hq : Listed (gather f s []) f q) :
    ¬ Escapes s q := by
  obtain ⟨p, hp, halike⟩ := exists_point hq
  have hpf : p.f = f := halike.f.trans hq.fam
  rw [← escapes_congr (hpf ▸ covers_self s f) halike]
  exact ((violations_eq_nil_iff hs).1 h).2 f p hp

end Molebridge
