import Molebridge.Proofs.Items

/-! What an empty comparison says: every rule of the kernel at an owned priority
is an expected one item by item, and every expected rule is there. The scan over
the kernel's rules is followed one rule at a time (`diffStep_clean`); the removals
only grow, so a run that ends without one had none at any step. -/

namespace Molebridge

def Same (a e : Rule) : Prop := a.priority = e.priority ∧ equalItems a.items e.items = true

/-! ### One rule of the kernel -/

/-- What one actual rule did to the expected ones: they stay, it is kept only for
one it equals, and a new mark is on such a one. -/
def Marks (a : Rule) (want : Want) (res : Bool × Bool × Want) : Prop :=
  res.2.2.map Prod.fst = want.map Prod.fst ∧ (res.1 = true → ∃ w ∈ want, Same a w.1) ∧
    ∀ w ∈ res.2.2, w.2 = true → w ∈ want ∨ Same a w.1

theorem Marks.cons {a : Rule} {want : Want} {res : Bool × Bool × Want} (h : Marks a want res)
    (w : Rule × Bool) : Marks a (w :: want) (res.1, res.2.1, w :: res.2.2) := by
  obtain ⟨hmap, hkept, hmark⟩ := h
  refine ⟨by simp [hmap], fun hk => ?_, fun x hx hx2 => ?_⟩
  · obtain ⟨y, hy, hsame⟩ := hkept hk
    exact ⟨y, .tail _ hy, hsame⟩
  · rcases List.mem_cons.1 hx with rfl | hx
    · exact .inl (.head _)
    · exact (hmark x hx hx2).imp_left (.tail _)

theorem marks_matchWant (a : Rule) (want : Want) (covered : Bool) :
    Marks a want (matchWant a want covered) := by
  induction want generalizing covered with
  | nil => exact ⟨rfl, by simp [matchWant], by simp [matchWant]⟩
  | cons w rest ih =>
    obtain ⟨e, m⟩ := w
    unfold matchWant
    split_ifs with hprio hitems
    · exact (ih covered).cons (e, m)
    · have hsame : Same a e := by
        simp only [Bool.and_eq_true] at hitems
        exact ⟨(not_not.1 hprio).symm, hitems.2⟩
      refine ⟨rfl, fun _ => ⟨_, (.head _), hsame⟩, fun x hx _ => ?_⟩
      rcases List.mem_cons.1 hx with rfl | hx
      · exact .inr hsame
      · exact .inl (.tail _ hx)
    · exact (ih _).cons (e, m)

def Accounted (s : Spec) (f : Family) (want : List Rule) (a : Rule) : Prop :=
  s.owned a.priority = true →
    (s.skipped f a.priority = true ∧ s.returnPathShaped f a = true) ∨ ∃ e ∈ want, Same a e

theorem removals_del (st : DiffState) (a : Rule) : st.removals <+: (st.del a).removals :=
  List.prefix_append _ _

theorem removals_sub (st : DiffState) (a : Rule) : st.removals <+: (st.sub a).removals := by
  unfold DiffState.sub
  split_ifs
  · exact List.prefix_refl _
  · exact List.prefix_append _ _

section Step

variable {s : Spec} {f : Family} {left : List Rule}

theorem removals_diffStep (st : DiffState) (a : Rule) :
    st.removals <+: (diffStep s f left st a).removals := by
  unfold diffStep
  dsimp only
  split_ifs <;>
    first | exact removals_del st a | exact removals_sub st a | exact List.prefix_refl _

theorem removals_foldl (actual : List Rule) (st : DiffState) :
    st.removals <+: (actual.foldl (diffStep s f left) st).removals := by
  induction actual generalizing st with
  | nil => exact List.prefix_refl _
  | cons a t ih => exact (removals_diffStep st a).trans (ih _)

theorem del_removals_ne_nil (st : DiffState) (a : Rule) : (st.del a).removals ≠ [] := by
  simp [DiffState.del]

variable {st : DiffState}

theorem sub_removals_ne_nil (hsub : st.subbed = []) (a : Rule) :
    (st.sub a).removals ≠ [] := by
  simp [DiffState.sub, hsub]

theorem want_sub (st : DiffState) (a : Rule) : (st.sub a).want = st.want := by
  unfold DiffState.sub
  split_ifs <;> rfl

theorem diffStep_rules (st : DiffState) (a : Rule) :
    (diffStep s f left st a).want.map Prod.fst = st.want.map Prod.fst := by
  unfold diffStep
  dsimp only
  split_ifs <;> first | rfl | rw [want_sub] | exact (marks_matchWant a st.want false).1

theorem foldl_rules (actual : List Rule) (st : DiffState) :
    (actual.foldl (diffStep s f left) st).want.map Prod.fst = st.want.map Prod.fst := by
  induction actual generalizing st with
  | nil => rfl
  | cons a t ih => rw [List.foldl_cons, ih, diffStep_rules]

theorem diffStep_kind (h : ∀ x ∈ st.removals, x.kind ≠ .add)
    (a : Rule) : ∀ x ∈ (diffStep s f left st a).removals, x.kind ≠ .add := by
  have hdel : ∀ x ∈ (st.del a).removals, x.kind ≠ .add := by
    intro x hx
    rcases List.mem_append.1 hx with hx | hx
    · exact h x hx
    · rw [List.mem_singleton.1 hx]
      nofun
  have hsub : ∀ x ∈ (st.sub a).removals, x.kind ≠ .add := by
    unfold DiffState.sub
    split_ifs
    · exact h
    · intro x hx
      rcases List.mem_append.1 hx with hx | hx
      · exact h x hx
      · rw [List.mem_singleton.1 hx]
        nofun
  unfold diffStep
  dsimp only
  split_ifs <;> assumption

theorem foldl_kind {actual : List Rule} (h : ∀ x ∈ st.removals, x.kind ≠ .add) :
    ∀ x ∈ (actual.foldl (diffStep s f left) st).removals, x.kind ≠ .add := by
  induction actual generalizing st with
  | nil => exact h
  | cons a t ih => exact ih (diffStep_kind h a)

theorem diffStep_clean (hsub : st.subbed = []) {a : Rule} (h : (diffStep s f left st a).removals = []) :
    (diffStep s f left st a).subbed = [] ∧ Accounted s f (st.want.map Prod.fst) a ∧
      (diffStep s f left st a).want.map Prod.fst = st.want.map Prod.fst ∧
      ∀ w ∈ (diffStep s f left st a).want, w.2 = true → w ∈ st.want ∨ Same a w.1 := by
  unfold diffStep at h ⊢
  by_cases ho : s.owned a.priority = true
  · rw [if_neg (by simp [ho])] at h ⊢
    by_cases hskip : s.skipped f a.priority = true
    · split_ifs at h ⊢ with hshape htake
      · exact ⟨hsub, fun _ => .inl ⟨hskip, hshape⟩, rfl, fun w hw _ => .inl hw⟩
      · exact absurd h (sub_removals_ne_nil hsub a)
      · exact absurd h (del_removals_ne_nil st a)
    · obtain ⟨hmap, hkept, hmark⟩ := marks_matchWant a st.want false
      dsimp only at h ⊢
      split_ifs at h ⊢ with hany hk hcov
      · exact absurd h (del_removals_ne_nil st a)
      · obtain ⟨w, hw, hsame⟩ := hkept hk
        exact ⟨hsub, fun _ => .inr ⟨w.1, List.mem_map_of_mem hw, hsame⟩, hmap, hmark⟩
      · exact absurd h (sub_removals_ne_nil hsub a)
      · exact absurd h (del_removals_ne_nil st a)
  · rw [if_pos (by simpa using ho)] at h ⊢
    split_ifs at h ⊢ with hcopy
    · exact absurd h (del_removals_ne_nil st a)
    · exact ⟨hsub, fun h => absurd h ho, rfl, fun w hw _ => .inl hw⟩

theorem foldl_clean (actual : List Rule) (hsub : st.subbed = [])
    (h : (actual.foldl (diffStep s f left) st).removals = []) :
    (∀ a ∈ actual, Accounted s f (st.want.map Prod.fst) a) ∧
      (actual.foldl (diffStep s f left) st).want.map Prod.fst = st.want.map Prod.fst ∧
      ∀ w ∈ (actual.foldl (diffStep s f left) st).want, w.2 = true →
        w ∈ st.want ∨ ∃ a ∈ actual, Same a w.1 := by
  induction actual generalizing st with
  | nil => exact ⟨by simp, rfl, fun w hw _ => .inl hw⟩
  | cons a t ih =>
    rw [List.foldl_cons] at h ⊢
    have hstep : (diffStep s f left st a).removals = [] := by
      have hpre := @removals_foldl s f left t (diffStep s f left st a)
      rw [h] at hpre
      exact List.prefix_nil.1 hpre
    obtain ⟨hsub', hacc, hmap, hmark⟩ := diffStep_clean hsub hstep
    obtain ⟨haccs, hmaps, hmarks⟩ := ih hsub' h
    rw [hmap] at haccs hmaps
    refine ⟨List.forall_mem_cons.2 ⟨hacc, haccs⟩, hmaps, fun w hw hw2 => ?_⟩
    rcases hmarks w hw hw2 with hw' | ⟨b, hb, hsame⟩
    · rcases hmark w hw' hw2 with hw' | hsame
      · exact .inl hw'
      · exact .inr ⟨a, (.head _), hsame⟩
    · exact .inr ⟨b, .tail _ hb, hsame⟩

end Step

/-- An empty comparison: every owned rule is expected, and every expected rule of
a priority the comparison restores is there. -/
theorem diff_eq_nil {s : Spec} {f : Family} {actual : List Rule}
    (h : diff s f actual false = []) :
    (∀ a ∈ actual, Accounted s f (s.rules f) a) ∧
      ∀ e ∈ s.rules f,
        e.priority ∈ (if s.config.isNativeSidecar then sidecarAddOrder else addOrder) →
        ∃ a ∈ actual, Same a e := by
  unfold diff at h
  simp only [List.append_eq_nil_iff] at h
  obtain ⟨⟨hadds, -⟩, hrem⟩ := h
  have hmap : ((s.rules f).map fun e => (e, false)).map Prod.fst = s.rules f := by
    simp [Function.comp_def]
  obtain ⟨hacc, hwant, hmark⟩ := foldl_clean actual rfl hrem
  rw [hmap] at hacc hwant
  refine ⟨hacc, fun e he hprio => ?_⟩
  -- the expected rule is marked, or it would be added
  rw [← hwant] at he
  obtain ⟨w, hw, rfl⟩ := List.mem_map.1 he
  have hmarked : w.2 = true := by
    by_contra hm
    have hnone := List.flatMap_eq_nil_iff.1 hadds w.1.priority hprio
    rw [List.map_eq_nil_iff, List.filter_eq_nil_iff] at hnone
    exact hnone w hw (by simpa using hm)
  rcases hmark w hw hmarked with hw' | h
  · obtain ⟨e, -, rfl⟩ := List.mem_map.1 hw'
    cases hmarked
  · exact h

end Molebridge
