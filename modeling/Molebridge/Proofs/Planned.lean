import Molebridge.Proofs.Removals
import Molebridge.Proofs.OwnRules

/-! The actions of a plan. Removals are of rules that are there, in their order and
each under its own priority; additions are of rules that are expected or left alone;
and an expected rule that is not added stands already. -/

namespace Molebridge

variable {a : Action} {e : Rule}

section Diff

variable {s : Spec} {f : Family} {actual : List Rule} {hold : Bool}

theorem diffStep_notes (left : List Rule) (st : DiffState) (a : Rule) :
    (diffStep s f left st a).removals = st.removals ∨
      ∃ kind, kind ≠ .add ∧ (diffStep s f left st a).removals = st.removals ++ [⟨kind, a.priority, a⟩] := by
  have hdel : ∃ kind, kind ≠ ActionKind.add ∧ (st.del a).removals = st.removals ++ [⟨kind, a.priority, a⟩] :=
    ⟨.del, nofun, rfl⟩
  have hsub : (st.sub a).removals = st.removals ∨
      ∃ kind, kind ≠ .add ∧ (st.sub a).removals = st.removals ++ [⟨kind, a.priority, a⟩] := by
    unfold DiffState.sub
    split_ifs
    · exact .inl rfl
    · exact .inr ⟨.sub, nofun, rfl⟩
  unfold diffStep
  dsimp only
  split_ifs <;> first | exact .inl rfl | exact .inr hdel | exact hsub

theorem removals_sublist (left actual : List Rule) (st : DiffState) :
    ∃ l, (actual.foldl (diffStep s f left) st).removals = st.removals ++ l ∧
      (l.map Action.rule).Sublist actual ∧ ∀ x ∈ l, x.kind ≠ .add ∧ x.priority = x.rule.priority := by
  induction actual generalizing st with
  | nil => exact ⟨[], by simp, List.Sublist.slnil, by simp⟩
  | cons a t ih =>
    obtain ⟨l, heq, hsub, hall⟩ := ih (diffStep s f left st a)
    rw [List.foldl_cons, heq]
    rcases diffStep_notes left st a with h | ⟨kind, hk, h⟩
    · exact ⟨l, by rw [h], hsub.cons a, hall⟩
    · refine ⟨⟨kind, a.priority, a⟩ :: l, by rw [h, List.append_assoc]; rfl, hsub.cons_cons a, ?_⟩
      intro x hx
      rcases List.mem_cons.1 hx with rfl | hx
      · exact ⟨hk, rfl⟩
      · exact hall x hx

theorem diff_removals (s : Spec) (f : Family) (actual : List Rule) (hold : Bool) : ∃ adds removals, diff s f actual hold = adds ++ removals ∧
    (∀ a ∈ adds, a.kind = .add ∧ a.priority = a.rule.priority) ∧ (removals.map Action.rule).Sublist actual ∧
      ∀ a ∈ removals, a.kind ≠ .add ∧ a.priority = a.rule.priority := by
  obtain ⟨l, heq, hsub, hall⟩ := removals_sublist (leftReturnPath s f actual) actual
    { want := (s.rules f).map (·, false) }
  unfold diff
  dsimp only
  rw [heq]
  refine ⟨_, l, rfl, fun a ha => ?_, hsub, hall⟩
  rcases List.mem_append.1 ha with ha | ha
  all_goals
    obtain ⟨p, -, ha⟩ := List.mem_flatMap.1 ha
    obtain ⟨w, hw, rfl⟩ := List.mem_map.1 ha
    have hp := (List.mem_filter.1 hw).2
    simp only [Bool.and_eq_true, beq_iff_eq] at hp
  · exact ⟨rfl, hp.1.1.symm⟩
  · exact ⟨rfl, hp.1.symm⟩

theorem diff_priority (h : a ∈ diff s f actual hold) : a.priority = a.rule.priority := by
  obtain ⟨_, _, heq, hadds, -, hrem⟩ := diff_removals s f actual hold
  rw [heq] at h
  rcases List.mem_append.1 h with h | h
  · exact (hadds a h).2
  · exact (hrem a h).2

theorem mem_of_diff_removal (h : a ∈ diff s f actual hold) (hk : a.kind ≠ .add) : a.rule ∈ actual := by
  obtain ⟨_, _, heq, hadds, hsub, -⟩ := diff_removals s f actual hold
  rw [heq] at h
  rcases List.mem_append.1 h with h | h
  · exact absurd (hadds a h).1 hk
  · exact hsub.subset (List.mem_map_of_mem h)

theorem diff_ordered (hsorted : actual.Pairwise fun a b => a.priority ≤ b.priority) :
    (diff s f actual hold).Pairwise fun a b => a.kind ≠ .add → b.kind ≠ .add ∧ a.priority ≤ b.priority := by
  obtain ⟨_, removals, heq, hadds, hsub, hrem⟩ := diff_removals s f actual hold
  rw [heq]
  have hle : (removals.map Action.rule).Pairwise fun a b => a.priority ≤ b.priority := hsorted.sublist hsub
  rw [List.pairwise_map] at hle
  refine List.pairwise_append.2 ⟨?_, ?_, fun a ha b _ hk => absurd (hadds a ha).1 hk⟩
  · exact List.pairwise_of_forall_mem_list fun a ha b _ hk => absurd (hadds a ha).1 hk
  · refine hle.imp_of_mem fun {a b} ha hb h _ => ⟨(hrem b hb).1, ?_⟩
    rw [(hrem a ha).2, (hrem b hb).2]
    exact h

theorem stands_of_not_added (he : e ∈ s.rules f) (hskip : s.skipped f e.priority = false)
    (hhold : hold = false) (hno : ∀ a ∈ diff s f actual hold, a.kind = .add → a.priority = e.priority →
      equalItems a.rule.items e.items = false) :
    ∃ x ∈ actual, x.priority = e.priority ∧ equalItems x.items e.items = true := by
  subst hhold
  have hopen : openAt (scanned s f actual actual).want e.priority = _ := openAt_scanned hskip actual
  have hnot : e.itemSet ∉ openAt (scanned s f actual actual).want e.priority := by
    intro hmem
    obtain ⟨r, hr, hprio, hitems⟩ := mem_itemsAt.1 hmem
    obtain ⟨w, hw, rfl⟩ := List.mem_map.1 hr
    have hadd : (⟨.add, e.priority, w.1⟩) ∈ diff s f actual false := by
      refine List.mem_append_left _ (List.mem_append_left _ (List.mem_flatMap.2 ⟨e.priority, ?_, ?_⟩))
      · exact (rules_priority he).2
      · refine List.mem_map.2 ⟨w, List.mem_filter.2 ⟨(List.mem_filter.1 hw).1, ?_⟩, rfl⟩
        have hopenw : w.2 = false := by simpa using (List.mem_filter.1 hw).2
        simp [hprio, hopenw]
    have := hno _ hadd rfl rfl
    rw [(equalItems_iff_itemSet w.1 e).2 hitems] at this
    cases this
  rw [hopen, notMem_sub_iff] at hnot
  have hpos : 0 < (itemsAt (s.rules f) e.priority).count e.itemSet :=
    Multiset.count_pos.2 (mem_itemsAt.2 ⟨e, he, rfl, rfl⟩)
  obtain ⟨x, hx, hprio, hitems⟩ := mem_itemsAt.1 (Multiset.count_pos.1 (lt_of_lt_of_le hpos hnot))
  exact ⟨x, hx, hprio, (equalItems_iff_itemSet x e).2 hitems⟩

theorem rebuilt_expected {p : ℕ} (h : Rebuilt s f actual p) :
    s.skipped f p = true ∨ s.skipped f p = false ∧ ∃ e ∈ s.rules f, e.priority = p := by
  obtain ⟨-, b, -, rfl, hb⟩ := h
  cases hskip : s.skipped f b.priority with
  | true => exact .inl rfl
  | false =>
    rw [hskip] at hb
    obtain ⟨e, he, hcov⟩ := List.any_eq_true.1 hb.1
    exact .inr ⟨rfl, e, he, by simpa using (Bool.and_eq_true_iff.1 hcov).1⟩

end Diff

/-! ### The plan of a native backend -/

section Native

variable {s : Spec} {snap : Snapshot} {f : Family}

theorem effective_covers (hg : s.config.isGluetun = false) (hl : s.leaveReturnPath f = false) (snap : Snapshot) :
    (s.effective snap f).config = s.config ∧ (s.effective snap f).leaveReturnPath f = false ∧
      ∀ a, a ∈ s.returnPath f ∨ a ∈ liveGlobals snap s.config.exitIf f → a ∈ (s.effective snap f).returnPath f := by
  unfold Spec.effective
  rw [if_neg (by simp [hg]), if_neg (by simp [hl])]
  refine ⟨rfl, hl, fun a ha => ?_⟩
  simp only [Spec.setReturnPath, Function.update_self]
  exact (mem_foldl_add _ _ a).2 ha

theorem stands_of_clean (hg : s.config.isGluetun = false) (h : (planAll s snap f).clean = true)
    (he : e ∈ (s.effective snap f).rules f) :
    ∃ x ∈ snap.rules f, x.priority = e.priority ∧ equalItems x.items e.items = true := by
  have hrefresh : (planAll s snap f).hostRefresh = false := by simp [planAll, Spec.planFamily, hg]
  have hnil : diff (s.effective snap f) f (snap.rules f) (planAll s snap f).hostRefresh = [] := by
    unfold Plan.clean at h
    simp only [Bool.and_eq_true, List.isEmpty_iff] at h
    exact h.1.1
  rw [hrefresh] at hnil
  exact (diff_eq_nil hnil).2 e he (rules_priority he).2

theorem not_deleted_of_expected (he : e ∈ (s.effective snap f).rules f)
    (hskip : (s.effective snap f).skipped f e.priority = false) (ha : a ∈ (planAll s snap f).rules)
    (hk : a.kind = .del) (hp : a.priority = e.priority) : equalItems a.rule.items e.items = false := by
  obtain ⟨d, -, hdoom, rfl⟩ := (mem_diff_del hk).1 ha
  dsimp only at hp ⊢
  unfold doomed at hdoom
  rw [hp, if_pos (rules_priority he).1, if_neg (by simp [hskip]), Bool.not_eq_true'] at hdoom
  by_contra hitems
  rw [Bool.not_eq_false] at hitems
  rw [coveredBy_of_equal he hp.symm ((equalItems_iff_itemSet d e).1 hitems)] at hdoom
  cases hdoom

end Native

end Molebridge
