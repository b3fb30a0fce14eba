import Molebridge.Proofs.Passes
import Molebridge.Proofs.Rebuild
import Molebridge.Spec.Install

/-! Local delivery. A family is delivered to locally by the kernel's own rule at
priority 0, by the contract's rule 1, or by the copy of rule 1 that a rebuild puts at
priority 0; whatever the owner installs or repairs, one of them stands after every
change it makes. What can take rule 1 away unseen is a rule at priority 1 whose delete
request has every attribute of an exact rule 1 that stands there, while it is not taken
for the expected rule itself: a foreign rule 1 can carry an attribute, such as a
protocol, that the expected one leaves out. -/

namespace Molebridge

def localLookup (f : Family) : Rule := lookupRule 0 f tableLocal

/-- The three ways a family is delivered to locally. -/
def Kern.Delivers (c : Config) (f : Family) (k : Kern) : Prop :=
  k.has f 0 (localLookup f) ∨ k.has f prioLocalGuard (Spec.localGuard c f) ∨ k.has f 0 (Spec.localGuard c f)

/-- No rule at priority 1 takes an exact rule 1 with it, unless the comparison sees it. -/
def LocalSafe (c : Config) (f : Family) (k : Kern) : Prop :=
  ∀ a ∈ k.rulesAt f prioLocalGuard, ∀ x ∈ k.rulesAt f prioLocalGuard,
    equalItems x.items (Spec.localGuard c f).items = true → deleteMatches a x = true →
      coveredBy a [Spec.localGuard c f] = true

instance (c : Config) (f : Family) (k : Kern) : Decidable (k.Delivers c f) := inferInstanceAs (Decidable (_ ∨ _))

section Delivery

variable {spec : Spec} {f : Family} {k₀ : Kern}

/-- A rule at priority 1: one of the start, or the contract's. -/
def Known (c : Config) (f : Family) (k₀ : Kern) (x : Rule) : Prop :=
  x ∈ k₀.rulesAt f prioLocalGuard ∨ x = Spec.localGuard c f

/-- The rules at priority 1 are known, and each rule is filed under its family. -/
structure Filed (c : Config) (f : Family) (k₀ k : Kern) : Prop where
  familial : k.Familial
  known : ∀ x ∈ k.rulesAt f prioLocalGuard, Known c f k₀ x

theorem filed_limited (c : Config) (f : Family) (k₀ : Kern) :
    Limited (fun r => r.family = f → r.priority = prioLocalGuard → r = Spec.localGuard c f) (fun _ _ => True)
      fun k k' => Filed c f k₀ k → Filed c f k₀ k' where
  refl _ h := h
  trans h h' hk := h' (h hk)
  add k r hr hk := by
    refine ⟨familial_limited.add k r trivial hk.familial, fun x hx => ?_⟩
    rw [k.rulesAt_withRule] at hx
    split_ifs at hx with hat
    · rcases List.mem_append.1 hx with hx | hx
      · exact hk.known x hx
      · rw [List.mem_singleton.1 hx]
        exact .inr (hr hat.1.symm hat.2.symm)
    · exact hk.known x hx
  delete k r _ hk := by
    refine ⟨familial_limited.delete k r trivial hk.familial, fun x hx => ?_⟩
    rw [k.rulesAt_withoutRule] at hx
    split_ifs at hx
    · exact hk.known x (List.mem_of_mem_eraseP hx)
    · exact hk.known x hx
  clear k g q _ hk := by
    refine ⟨familial_limited.clear k g q trivial hk.familial, fun x hx => ?_⟩
    rw [k.rulesAt_withoutPriority] at hx
    split_ifs at hx
    · exact hk.known x (List.mem_of_mem_tail hx)
    · exact hk.known x hx
  route k r hk := ⟨hk.familial, hk.known⟩
  unroute k r hk := ⟨hk.familial, hk.known⟩

def Aside (f : Family) (k k' : Kern) : Prop := ∀ q ≤ prioLocalGuard, k'.rulesAt f q = k.rulesAt f q

def Elsewhere (f g : Family) (q : ℕ) : Prop := g = f → prioLocalGuard < q

theorem aside_limited (f : Family) :
    Limited (fun r => Elsewhere f r.family r.priority) (Elsewhere f) (Aside f) where
  refl _ _ _ := rfl
  trans h h' q hq := (h' q hq).trans (h q hq)
  add k r hr q hq := by
    rw [k.rulesAt_withRule, if_neg]
    rintro ⟨rfl, rfl⟩
    exact absurd (hr rfl) (by omega)
  delete k r hr q hq := by
    rw [k.rulesAt_withoutRule, if_neg]
    rintro ⟨rfl, rfl⟩
    exact absurd (hr rfl) (by omega)
  clear k g p hp q hq := by
    rw [k.rulesAt_withoutPriority, if_neg]
    rintro ⟨rfl, rfl⟩
    exact absurd (hp rfl) (by omega)
  route _ _ _ _ := rfl
  unroute _ _ _ _ := rfl

variable {c : Config} {k k' : Kern} {tx tx' : Tx Quiet} {s : Spec} {snap : Snapshot} {β : Type}
  {x : TxM Quiet β}
variable (hc : spec.config.NativeOverlay)

theorem Aside.delivers (h : Aside f k k') (hk : k.Delivers c f) : k'.Delivers c f := by
  unfold Kern.Delivers
  rw [Kern.has_congr (h 0 (by decide)), Kern.has_congr (h _ le_rfl), Kern.has_congr (h 0 (by decide))]
  exact hk

structure LocalSound (c : Config) (f : Family) (k₀ k : Kern) : Prop extends Filed c f k₀ k where
  delivers : k.Delivers c f

structure LocalGuarded (c : Config) (f : Family) (k₀ k : Kern) : Prop extends LocalSound c f k₀ k where
  guard : k.has f prioLocalGuard (Spec.localGuard c f)

/-- Additions, and requests that leave priorities 0 and 1 aside, keep a kernel sound,
and rule 1 in place. -/
theorem LocalSound.of_aside (h : LocalSound c f k₀ k) (hf : Filed c f k₀ k → Filed c f k₀ k')
    (ha : Aside f k k') : LocalSound c f k₀ k' := ⟨hf h.toFiled, ha.delivers h.delivers⟩

theorem LocalGuarded.of_aside (h : LocalGuarded c f k₀ k) (hf : Filed c f k₀ k → Filed c f k₀ k')
    (ha : Aside f k k') : LocalGuarded c f k₀ k' :=
  ⟨h.toLocalSound.of_aside hf ha, (Kern.has_congr (ha _ le_rfl)).2 h.guard⟩

theorem delivers_withRule (h : k.Delivers c f) (r : Rule) : (k.withRule r).Delivers c f :=
  h.imp (fun h => Kern.has_withRule h r) (Or.imp (fun h => Kern.has_withRule h r) fun h => Kern.has_withRule h r)

theorem sound_limited (c : Config) (f : Family) (k₀ : Kern) :
    Limited (fun r => r.family = f → r.priority = prioLocalGuard → r = Spec.localGuard c f) (Elsewhere f)
      (Preserves (LocalSound c f k₀)) where
  toChains := preserves_chains _
  add k r hr hk := ⟨(filed_limited c f k₀).add k r hr hk.toFiled, delivers_withRule hk.delivers r⟩
  delete k r hr hk := hk.of_aside ((filed_limited c f k₀).delete k r trivial) ((aside_limited f).delete k r hr)
  clear k g q hq hk := hk.of_aside ((filed_limited c f k₀).clear k g q trivial) ((aside_limited f).clear k g q hq)
  route k r hk := hk.of_aside ((filed_limited c f k₀).route k r) ((aside_limited f).route k r)
  unroute k r hk := hk.of_aside ((filed_limited c f k₀).unroute k r) ((aside_limited f).unroute k r)

theorem guarded_limited (c : Config) (f : Family) (k₀ : Kern) :
    Limited (fun r => r.family = f → r.priority = prioLocalGuard → r = Spec.localGuard c f)
      (fun g q => ¬ (g = f ∧ q = prioLocalGuard)) (Preserves (LocalGuarded c f k₀)) where
  toChains := preserves_chains _
  add k r hr hk := ⟨(sound_limited c f k₀).add k r hr hk.toLocalSound, Kern.has_withRule hk.guard r⟩
  delete k r hr hk := by
    have hguard : (k.withoutRule r).has f prioLocalGuard (Spec.localGuard c f) := by
      refine (Kern.has_congr ?_).2 hk.guard
      rw [k.rulesAt_withoutRule, if_neg fun h => hr ⟨h.1.symm, h.2.symm⟩]
    exact ⟨⟨(filed_limited c f k₀).delete k r trivial hk.toFiled, .inr (.inl hguard)⟩, hguard⟩
  clear k g q hq hk := by
    have hguard : (k.withoutPriority g q).has f prioLocalGuard (Spec.localGuard c f) := by
      refine (Kern.has_congr ?_).2 hk.guard
      rw [k.rulesAt_withoutPriority, if_neg fun h => hq ⟨h.1.symm, h.2.symm⟩]
    exact ⟨⟨(filed_limited c f k₀).clear k g q trivial hk.toFiled, .inr (.inl hguard)⟩, hguard⟩
  route k r hk := hk.of_aside ((filed_limited c f k₀).route k r) ((aside_limited f).route k r)
  unroute k r hk := hk.of_aside ((filed_limited c f k₀).unroute k r) ((aside_limited f).unroute k r)

/-- The owner's state along a run: what is expected, a sound kernel, and local delivery
after every change. -/
structure Delivering (spec : Spec) (f : Family) (k₀ : Kern) (tx : Tx Quiet) : Prop where
  expects : SpecOf spec tx.spec
  sound : LocalSound spec.config f k₀ tx.kernel.kern
  past : ∀ k ∈ tx.kernel.past, k.Delivers spec.config f

theorem Delivering.since {ks : List Kern} (h : Delivering spec f k₀ tx) (hs : Since tx ks tx')
    (hks : ∀ k ∈ ks, k.Delivers spec.config f) (hf : Filed spec.config f k₀ tx'.kernel.kern) :
    Delivering spec f k₀ tx' where
  expects := hs.spec ▸ h.expects
  sound := by
    refine ⟨hf, ?_⟩
    rw [hs.kern, List.getLastD_eq_getLast?]
    cases hl : ks.getLast? with
    | none => exact h.sound.delivers
    | some k => exact hks k (List.mem_of_getLast? hl)
  past k hk := by
    rw [hs.past, List.mem_append, List.mem_reverse] at hk
    exact hk.elim (hks k) (h.past k)

theorem Delivering.stepwise (h : Delivering spec f k₀ tx)
    (hs : Stepwise (Preserves (LocalSound spec.config f k₀)) tx tx') : Delivering spec f k₀ tx' := by
  have hlast := hs.last (preserves_chains _) h.sound
  obtain ⟨_, hsince, hks⟩ := hs
  exact h.since hsince (fun k hk => (hks k hk h.sound).delivers) hlast.toFiled

theorem Delivering.guarded (h : Delivering spec f k₀ tx)
    (hg : tx.kernel.kern.has f prioLocalGuard (Spec.localGuard spec.config f))
    (hs : Stepwise (Preserves (LocalGuarded spec.config f k₀)) tx tx') :
    Delivering spec f k₀ tx' ∧ tx'.kernel.kern.has f prioLocalGuard (Spec.localGuard spec.config f) := by
  have hlast := hs.last (preserves_chains _) ⟨h.sound, hg⟩
  obtain ⟨_, hsince, hks⟩ := hs
  exact ⟨h.since hsince (fun k hk => (hks k hk ⟨h.sound, hg⟩).delivers) hlast.toFiled, hlast.guard⟩

/-! ### The plan of the family -/

theorem AddedRule.eq_localGuard {r : Rule} (h : AddedRule c f r) (hp : r.priority = prioLocalGuard) :
    r = Spec.localGuard c f := by
  cases h <;> first | rfl | cases hp

theorem rulesAt_local (hc : s.config.NativeOverlay) (f : Family) :
    s.rulesAt f prioLocalGuard = [Spec.localGuard s.config f] := by
  have hperm : (s.rulesAt f prioLocalGuard).Perm ((s.addedRules f).filter (·.priority == prioLocalGuard)) := by
    unfold Spec.rulesAt Spec.rules
    rw [if_neg (by simp [hc.not_gluetunSidecar])]
    refine ((List.perm_insertionSort _ _).filter _).trans ?_
    rw [List.filter_filter]
    refine List.Perm.of_eq (List.filter_congr fun r _ => ?_)
    by_cases hr : r.priority = prioLocalGuard
    · simp [hr, Spec.skipped, prioLocalGuard, prioReturnPath, prioBackstop]
    · simp [hr]
  have hadded : (s.addedRules f).filter (·.priority == prioLocalGuard) = [Spec.localGuard s.config f] := by
    rw [Spec.addedRules_eq hc, List.cons_append, List.cons_append, List.cons_append,
      List.filter_cons_of_pos (by rfl)]
    refine congrArg _ (List.filter_eq_nil_iff.2 fun r hr => ?_)
    simp only [List.mem_append, List.mem_ite_nil_right, Option.mem_toList,
      Option.map_eq_some_iff, List.mem_flatMap, List.mem_cons, List.not_mem_nil, or_false] at hr
    rcases hr with ((⟨-, rfl⟩ | ⟨-, -, rfl⟩) | ⟨a, -, rfl | rfl⟩) | rfl | rfl | rfl <;> exact Bool.false_ne_true
  rw [hadded] at hperm
  exact List.perm_singleton.1 hperm

structure LocalPlan (c : Config) (f : Family) (k₀ : Kern) (p : Plan) (removals : Bool) : Prop where
  family : p.family = f
  guard : p.effective.rulesAt f prioLocalGuard = [Spec.localGuard c f]
  want : p.wantAt prioLocalGuard = [Spec.localGuard c f]
  add : ∀ a ∈ p.rules, a.kind = .add →
    a.rule.family = f ∧ (a.rule.priority = prioLocalGuard → a.rule = Spec.localGuard c f)
  sub : ∀ a ∈ p.rules, a.kind = .sub → a.priority = prioLocalGuard ∨
    (prioTempGuard ≤ a.priority ∧ a.priority ≤ prioBackstop ∧
      ∀ w ∈ p.wantAt a.priority, w.family = f ∧ w.priority = a.priority)
  del : ∀ a ∈ p.rules, a.kind = .del → a.rule.family = f ∧ a.priority = a.rule.priority
  spared : ∀ a ∈ p.rules, a.kind = .del → a.priority = prioLocalGuard → ∀ x, Known c f k₀ x →
    equalItems x.items (Spec.localGuard c f).items = true → deleteMatches a.rule x = false
  ordered : removals = true → p.rules.Pairwise fun a b => a.kind ≠ .add → a.priority ≤ b.priority

include hc in
theorem localPlan (hs : SpecOf spec s)
    (hsafe : LocalSafe spec.config f k₀) (hfiled : Filed spec.config f k₀ k) (hsees : Sees f snap k) :
    LocalPlan spec.config f k₀ (planAll s snap f) (!snap.unstable) := by
  have hcs : s.config.NativeOverlay := hs.config ▸ hc
  have hcfg : (s.effective snap f).config = spec.config := (effective_native hcs snap f).1.trans hs.config
  have hce : (s.effective snap f).config.NativeOverlay := hcfg ▸ hc
  have hguard : (s.effective snap f).rulesAt f prioLocalGuard = [Spec.localGuard spec.config f] := by
    rw [rulesAt_local hce, hcfg]
  have hskip : (s.effective snap f).skipped f prioLocalGuard = false := by
    simp [Spec.skipped, prioLocalGuard, prioReturnPath, prioBackstop]
  have hmem : Spec.localGuard spec.config f ∈ (s.effective snap f).rules f := by
    have : Spec.localGuard spec.config f ∈ (s.effective snap f).rulesAt f prioLocalGuard := by simp [hguard]
    exact (List.mem_filter.1 this).1
  have hfamilial : ∀ r ∈ snap.rules f, r.family = f := fun r hr => hfiled.familial f r (hsees.rules hr)
  obtain ⟨hfam, hwantfam⟩ := plan_familial (s := s) hfamilial
  have hadded : ∀ r ∈ (s.effective snap f).rules f, AddedRule spec.config f r := fun r hr =>
    hcfg ▸ addedRule_of_mem (mem_rules hr).2
  refine ⟨rfl, hguard, ?_, fun a ha hk => ⟨hfam a ha, fun hp => ?_⟩, fun a ha hk => ?_,
    fun a ha _ => ⟨hfam a ha, diff_priority ha⟩, fun a ha hk hp x hx hitems => ?_, fun hr => ?_⟩
  · unfold Plan.wantAt
    rw [if_neg (by simpa [planAll, Spec.planFamily] using hskip)]
    exact hguard
  · rcases diff_add ha hk with hr | hr
    · exact (hadded _ hr).eq_localGuard hp
    · rcases skipped_priority (mem_leftReturnPath hr).1 with h | h <;> rw [h] at hp <;> cases hp
  · have hwant : ∀ w ∈ (planAll s snap f).wantAt a.priority, w.family = f ∧ w.priority = a.priority := by
      intro w hw
      refine ⟨hwantfam _ w hw, ?_⟩
      unfold Plan.wantAt at hw
      split_ifs at hw <;> simpa using (List.mem_filter.1 hw).2
    rcases rebuilt_expected ((exists_diff_sub a.priority).1 ⟨a, ha, hk, rfl⟩) with hskipped | ⟨-, e, he, hep⟩
    · rcases skipped_priority hskipped with h | h
      · exact .inr ⟨by rw [h]; decide, by rw [h]; decide, hwant⟩
      · exact .inr ⟨by rw [h]; decide, h.le, hwant⟩
    · have hpm := (hadded e he).priority_mem
      unfold Config.priorities at hpm
      rw [if_neg (by simp [hc.not_sidecar]), if_neg (by simp [hc.not_gluetun]), hep] at hpm
      rcases (by decide : ∀ q ∈ [1, 80, 90, 94, 95, 96, 97, 98],
        q = prioLocalGuard ∨ (prioTempGuard ≤ q ∧ q ≤ prioBackstop)) _ hpm with h | h
      · exact .inl h
      · exact .inr ⟨h.1, h.2, hwant⟩
  · obtain ⟨d, hd, hdoom, rfl⟩ := (mem_diff_del hk).1 ha
    dsimp only at hp ⊢
    have hno : coveredBy d ((s.effective snap f).rules f) = false := by
      have hown : (s.effective snap f).owned d.priority = true := by
        rw [hp]
        simp [Spec.owned, prioLocalGuard, prioBackstop]
      unfold doomed at hdoom
      rw [if_pos hown, if_neg (by rw [hp, hskip]; decide)] at hdoom
      simpa using hdoom
    have hcover : coveredBy d [Spec.localGuard spec.config f] = false := by
      rw [Bool.eq_false_iff] at hno ⊢
      intro hcov
      obtain ⟨e, he, hcov⟩ := List.any_eq_true.1 hcov
      exact hno (List.any_eq_true.2 ⟨e, List.mem_singleton.1 he ▸ hmem, hcov⟩)
    have htaken : ∀ y, y = Spec.localGuard spec.config f → deleteMatches d y = false := by
      rintro y rfl
      rw [Bool.eq_false_iff]
      intro hdel
      rw [coveredBy, List.any_cons, hdel] at hcover
      simp [hp, Spec.localGuard, lookupRule] at hcover
    have hd' : d ∈ k.rulesAt f prioLocalGuard := Kern.mem_rulesAt.2 ⟨hsees.rules hd, hp⟩
    rcases hx with hx | hx
    · rcases hfiled.known d hd' with hd₀ | rfl
      · rw [Bool.eq_false_iff]
        intro hdel
        rw [hsafe d hd₀ x hx hitems hdel] at hcover
        cases hcover
      · simp [coveredBy, deleteMatches_refl] at hcover
    · exact htaken x hx
  · have hstable := (hsees.stable (by simpa using hr)).1
    have hsorted : (snap.rules f).Pairwise fun a b => a.priority ≤ b.priority := hstable ▸ k.rules_sorted f
    exact (diff_ordered hsorted).imp fun h hk => (h hk).2

/-! ### Its actions -/

/-- While the actions are worked on: local delivery, and as long as a rule at priority 0
is to go, rule 1 stands if the plan does not add it. -/
structure Pending (spec : Spec) (f : Family) (k₀ : Kern) (p : Plan) (removals : Bool) (rest : List Action)
    (tx : Tx Quiet) : Prop where
  suffix : rest <:+ p.rules
  delivering : Delivering spec f k₀ tx
  stands : removals = true → (∃ a ∈ rest, a.kind = .del ∧ a.priority = 0) →
    p.adds (Spec.localGuard spec.config f) = false →
      tx.kernel.kern.has f prioLocalGuard (Spec.localGuard spec.config f)

theorem Delivering.idle (h : Delivering spec f k₀ tx) (hi : Idle tx tx') :
    Delivering spec f k₀ tx' := h.stepwise hi.stepwise

section Pending

variable {p : Plan} {removals : Bool} {a : Action} {rest : List Action}

theorem Pending.idle {l : List Action} (h : Pending spec f k₀ p removals l tx) (hi : Idle tx tx') :
    Pending spec f k₀ p removals l tx' := by
  refine ⟨h.suffix, h.delivering.idle hi, ?_⟩
  rw [hi.kern]
  exact h.stands

theorem Pending.step (hs : Along (Stepwise (Preserves (LocalSound spec.config f k₀))) x)
    (hg : Along (Stepwise (Preserves (LocalGuarded spec.config f k₀))) x) :
    Ensures (Pending spec f k₀ p removals (a :: rest)) x fun _ => Pending spec f k₀ p removals rest := by
  intro tx h
  refine ⟨(List.suffix_cons a rest).trans h.suffix, h.delivering.stepwise (hs tx), fun hr hdel hno => ?_⟩
  obtain ⟨b, hb, hkb⟩ := hdel
  exact (h.delivering.guarded (h.stands hr ⟨b, .tail a hb, hkb⟩ hno) (hg tx)).2

theorem Pending.last (hlast : ∀ b ∈ rest, b.priority ≠ 0)
    (hx : Ensures (Delivering spec f k₀) x fun _ => Delivering spec f k₀) :
    Ensures (Pending spec f k₀ p removals (a :: rest)) x fun _ => Pending spec f k₀ p removals rest := by
  intro tx h
  refine ⟨(List.suffix_cons a rest).trans h.suffix, hx tx h.delivering, fun _ hdel => ?_⟩
  obtain ⟨b, hb, -, hb0⟩ := hdel
  exact absurd hb0 (hlast b hb)

end Pending

section Actions

variable {p : Plan} {removals : Bool} (hp : LocalPlan spec.config f k₀ p removals)

include hp

variable {a : Action} {rest : List Action}

theorem LocalPlan.limitedRebuild (ha : a ∈ p.rules) (hk : a.kind = .sub) (hne : a.priority ≠ prioLocalGuard) :
    LimitedRebuild (fun r => r.family = f → r.priority = prioLocalGuard → r = Spec.localGuard spec.config f)
      (fun r => Elsewhere f r.family r.priority) (Elsewhere f) p.family a.priority (p.wantAt a.priority) := by
  obtain ⟨_, _, hwant⟩ := (hp.sub a ha hk).resolve_left hne
  unfold prioTempGuard prioBackstop prioLocalGuard at *
  refine ⟨fun w hw _ hw1 => ?_, fun w hw _ hw1 => ?_, fun _ => ?_, fun w hw _ => ?_⟩
  · have := (hwant w hw).2
    omega
  · dsimp only at hw1
    omega
  · unfold prioLocalGuard
    omega
  · unfold prioLocalGuard
    dsimp only
    omega

theorem LocalPlan.none_behind (hr : removals = true) (hsuf : a :: rest <:+ p.rules)
    (hk : a.kind ≠ .add) (hprio : a.priority = prioLocalGuard) : ∀ b ∈ rest, b.priority ≠ 0 := by
  intro b hb
  have hpair := (hp.ordered hr).sublist hsuf.sublist
  have := (List.pairwise_cons.1 hpair).1 b hb hk
  unfold prioLocalGuard at hprio
  omega

include hc in
theorem LocalPlan.ensures_rebuild :
    Ensures (Delivering spec f k₀) (Tx.rebuild quiet p.family prioLocalGuard (p.wantAt prioLocalGuard))
      fun _ => Delivering spec f k₀ := by
  intro tx h
  rw [hp.want, hp.family]
  have hadded : AddedRule spec.config f (Spec.localGuard spec.config f) := .localGuard hc.not_sidecar
  have hwant : ContractRules spec.config f prioLocalGuard [Spec.localGuard spec.config f] := by
    intro w hw
    rw [List.mem_singleton.1 hw]
    exact ⟨rfl, rfl, _, hadded, rfl, (equalItems_iff_itemSet _ _).2 rfl⟩
  have hnamed : spec.config.Named := by
    refine .inr ⟨fun he => ?_, fun he => ?_⟩
    · have := hc.overlayIf_valid
      rw [he] at this
      cases this
    · have := hc.exitIf_valid
      rw [he] at this
      cases this
  obtain ⟨before, after, hgap⟩ := rebuild_spec hnamed (by simp) hwant tx
  have hreb : LimitedRebuild (fun r => r.family = f → r.priority = prioLocalGuard → r = Spec.localGuard spec.config f)
      (fun _ => True) (fun _ _ => True) f prioLocalGuard [Spec.localGuard spec.config f] :=
    ⟨fun w hw _ _ => List.mem_singleton.1 hw, fun w _ _ h => (nomatch h), trivial, fun _ _ => trivial⟩
  have hfiled := ((filed_limited spec.config f k₀).asks.rebuild hreb tx).last
    (filed_limited spec.config f k₀).toChains h.sound.toFiled
  refine h.since hgap.since (fun k hk => ?_) hfiled
  rcases List.mem_append.1 hk with hk | hk
  · have h1 := hgap.untouched k hk
    have h0 := hgap.grown k hk
    exact h.sound.delivers.imp (Kern.has_of_prefix h0)
      (Or.imp (Kern.has_congr h1).2 (Kern.has_of_prefix h0))
  · exact .inr (hgap.covered k hk _ (List.mem_singleton.2 rfl))

theorem LocalPlan.ensures_delete (ha : a ∈ p.rules) (hk : a.kind = .del)
    (hprio : a.priority = prioLocalGuard) : Along (Stepwise (Preserves (LocalSound spec.config f k₀))) (Tx.deleteRule quiet p a) := by
  have hs := stepwise_chains (preserves_chains (LocalSound spec.config f k₀))
  refine hs.bind (fun tx => (delRule_spec tx a.rule).stepwise fun _ hk' => ?_) fun x => ?_
  · have h0 : (tx.kernel.kern.withoutRule a.rule).rulesAt f 0 = tx.kernel.kern.rulesAt f 0 := by
      rw [Kern.rulesAt_withoutRule, if_neg]
      rintro ⟨-, h⟩
      rw [← (hp.del a ha hk).2, hprio] at h
      cases h
    refine ⟨(filed_limited spec.config f k₀).delete _ _ trivial hk'.toFiled, ?_⟩
    refine hk'.delivers.imp (Kern.has_congr h0).2 (Or.imp ?_ (Kern.has_congr h0).2)
    rintro ⟨x, hx, hitems⟩
    refine ⟨x, ?_, hitems⟩
    rw [Kern.rulesAt_withoutRule]
    split_ifs
    · exact (List.mem_eraseP_of_neg (by
        simp [hp.spared a ha hk hprio x (hk'.known x hx) hitems])).2 hx
    · exact hx
  · rcases x with ⟨-, _ | e⟩
    · exact hs.pure _
    · have hsome : (p.effective.rulesAt p.family a.priority).isEmpty = false := by
        rw [hp.family, hprio, hp.guard]
        rfl
      dsimp only
      rw [if_neg (by simp [hsome])]
      exact hs.pure _

theorem LocalPlan.ensures_replaced (hr : removals = true) (hk : a.kind = .del) (hprio : a.priority = 0) :
    Ensures (Pending spec f k₀ p removals (a :: rest)) (Tx.replaced quiet p a)
      fun e tx => Pending spec f k₀ p removals (a :: rest) tx ∧
        (e = none → tx.kernel.kern.has f prioLocalGuard (Spec.localGuard spec.config f)) := by
  have hdep : dependents p a = [Spec.localGuard spec.config f] := by
    unfold dependents
    rw [if_pos hprio, hp.family, hp.guard]
  unfold Tx.replaced
  rw [hdep, hp.family]
  split_ifs with hadds
  · intro tx h
    obtain ⟨hidle, hread⟩ := confirmed_spec f [Spec.localGuard spec.config f] tx
    refine ⟨h.idle hidle, fun he => ?_⟩
    rw [hidle.kern]
    exact (hasExact_iff _ _ _).1 (hread he _ (List.mem_singleton.2 rfl))
  · refine .pure fun tx h => ⟨h, fun _ => ?_⟩
    exact h.stands hr ⟨a, (.head _), hk, hprio⟩ (by simpa using hadds)

theorem LocalPlan.pending_del (hr : removals = true) (hsuf : a :: rest <:+ p.rules)
    (hk : a.kind = .del) (st : Ruling) :
    Ensures (Pending spec f k₀ p removals (a :: rest)) (Tx.applyDel quiet p a st)
      fun _ => Pending spec f k₀ p removals rest := by
  have ha : a ∈ p.rules := hsuf.subset (.head _)
  obtain ⟨-, hprio⟩ := hp.del a ha hk
  have hsound := neutral_stepwise (preserves_chains (LocalSound spec.config f k₀))
  have hguarded := neutral_stepwise (preserves_chains (LocalGuarded spec.config f k₀))
  rcases Nat.lt_or_ge prioLocalGuard a.priority with hgt | hle
  · have helse : Elsewhere f a.rule.family a.rule.priority ∧ Elsewhere f p.family a.priority :=
      ⟨fun _ => hprio ▸ hgt, fun _ => hgt⟩
    have hnot : ∀ g q, Elsewhere f g q → ¬ (g = f ∧ q = prioLocalGuard) := by
      rintro g q hq ⟨rfl, rfl⟩
      exact absurd (hq rfl) (lt_irrefl _)
    exact Pending.step (hsound.applyDel ((sound_limited spec.config f k₀).asks.deleteRule helse) st)
      (hguarded.applyDel ((guarded_limited spec.config f k₀).asks.deleteRule
        ⟨hnot _ _ helse.1, hnot _ _ helse.2⟩) st)
  · rcases Nat.le_one_iff_eq_zero_or_eq_one.1 hle with h0 | h1
    · refine Ensures.bind (Q := fun _ => Pending spec f k₀ p removals (a :: rest))
        (fun tx h => h.idle ((neutral_of_idle idle_chains fun h => h).behindGuard p _ _ tx)) fun x => ?_
      have hdone : ∀ tx, Pending spec f k₀ p removals (a :: rest) tx →
          tx.kernel.kern.has f prioLocalGuard (Spec.localGuard spec.config f) → ∀ {β : Type} {x : TxM Quiet β},
          Along (Stepwise (Preserves (LocalGuarded spec.config f k₀))) x → Pending spec f k₀ p removals rest (x tx).2 := by
        intro tx h hg β x hx
        obtain ⟨hd, hg'⟩ := h.delivering.guarded hg (hx tx)
        exact ⟨(List.suffix_cons a rest).trans h.suffix, hd, fun _ _ _ => hg'⟩
      have hstop : ∀ st : Ruling, Ensures (Pending spec f k₀ p removals (a :: rest)) (pure st)
          fun _ => Pending spec f k₀ p removals rest := fun st =>
        Pending.step (hsound.toChains.pure st) (hguarded.toChains.pure st)
      cases x with
      | error e => exact hstop _
      | ok read =>
        refine Ensures.bind (hp.ensures_replaced hr hk h0) fun e => ?_
        cases e with
        | some e => exact fun tx h => hstop _ tx h.1
        | none =>
          have hnot : ¬ (a.rule.family = f ∧ a.rule.priority = prioLocalGuard) ∧
              ¬ (p.family = f ∧ a.priority = prioLocalGuard) := by
            rw [← hprio, h0]
            exact ⟨nofun, nofun⟩
          exact fun tx h => hdone tx h.1 (h.2 rfl) (hguarded.toChains.bind
            ((guarded_limited spec.config f k₀).asks.deleteRule hnot) fun _ => hguarded.toChains.pure _)
    · exact Pending.last (hp.none_behind hr hsuf (by simp [hk]) h1) fun tx h =>
        h.stepwise (hsound.applyDel (hp.ensures_delete ha hk h1) st tx)

include hc

theorem LocalPlan.pending_sub (hr : removals = true)
    (hsuf : a :: rest <:+ p.rules) (hk : a.kind = .sub) (st : Ruling) :
    Ensures (Pending spec f k₀ p removals (a :: rest)) (Tx.applySub quiet p a st)
      fun _ => Pending spec f k₀ p removals rest := by
  have ha : a ∈ p.rules := hsuf.subset (.head _)
  by_cases h1 : a.priority = prioLocalGuard
  · have hneutral : Neutral fun tx tx' => Delivering spec f k₀ tx → Delivering spec f k₀ tx' :=
      neutral_of_idle ⟨fun _ h => h, fun h h' hd => h' (h hd)⟩ fun hi h => h.idle hi
    refine Pending.last (hp.none_behind hr hsuf (by simp [hk]) h1) (hneutral.applySub ?_ st)
    rw [h1]
    exact hp.ensures_rebuild hc
  · have hreb := hp.limitedRebuild ha hk h1
    have hnot : ∀ g q, Elsewhere f g q → ¬ (g = f ∧ q = prioLocalGuard) := by
      rintro g q hq ⟨rfl, rfl⟩
      exact absurd (hq rfl) (lt_irrefl _)
    exact Pending.step
      ((neutral_stepwise (preserves_chains _)).applySub ((sound_limited spec.config f k₀).asks.rebuild hreb) st)
      ((neutral_stepwise (preserves_chains _)).applySub ((guarded_limited spec.config f k₀).asks.rebuild
        ⟨hreb.rules, hreb.copies, hnot _ _ hreb.there, fun w hw => hnot _ _ (hreb.before w hw)⟩) st)

theorem LocalPlan.pending_rule (st : Ruling) :
    Ensures (Pending spec f k₀ p removals (a :: rest)) (Tx.applyRule quiet p removals st a)
      fun _ => Pending spec f k₀ p removals rest := by
  intro tx h
  have hsound := neutral_stepwise (preserves_chains (LocalSound spec.config f k₀))
  have hguarded := neutral_stepwise (preserves_chains (LocalGuarded spec.config f k₀))
  have hskip : Pending spec f k₀ p removals rest tx :=
    Pending.step (hsound.toChains.pure st) (hguarded.toChains.pure st) tx h
  unfold Tx.applyRule
  cases hk : a.kind with
  | add =>
    have hA := fun (_ : a.rule.family = f) => (hp.add a (h.suffix.subset (.head _)) hk).2
    exact Pending.step
      (hsound.toChains.bind ((sound_limited spec.config f k₀).asks.addRule hA) fun _ => hsound.toChains.pure _)
      (hguarded.toChains.bind ((guarded_limited spec.config f k₀).asks.addRule hA) fun _ => hguarded.toChains.pure _) tx h
  | sub =>
    split_ifs with hr
    · exact hp.pending_sub hc hr h.suffix hk st tx h
    · exact hskip
  | del =>
    split_ifs with hr
    · exact hp.pending_del hr h.suffix hk st tx h
    · exact hskip

omit hc

end Actions

/-! ### Passes and installations -/

theorem ensures_of_sound (h : Along (Stepwise (Preserves (LocalSound spec.config f k₀))) x) :
    Ensures (Delivering spec f k₀) x fun _ => Delivering spec f k₀ := fun tx hd => hd.stepwise (h tx)

include hc in
theorem ensures_apply_own (hsafe : LocalSafe spec.config f k₀) (hs : SpecOf spec s) :
    Ensures (fun tx => Delivering spec f k₀ tx ∧ Sees f snap tx.kernel.kern)
      (Tx.apply quiet (planAll s snap f) (!snap.unstable)) fun _ => Delivering spec f k₀ := by
  rintro tx ⟨hd, hsees⟩
  have hp := localPlan hc hs hsafe hd.sound.toFiled hsees
  have hcs : s.config.NativeOverlay := hs.config ▸ hc
  have hrefresh : (planAll s snap f).hostRefresh = false := by
    simp [planAll, Spec.planFamily, hcs.not_gluetun]
  have hguardMem : Spec.localGuard spec.config f ∈ (planAll s snap f).effective.rules f := by
    have : Spec.localGuard spec.config f ∈ (planAll s snap f).effective.rulesAt f prioLocalGuard := by
      rw [hp.guard]
      exact List.mem_singleton.2 rfl
    exact (List.mem_filter.1 this).1
  have hstart : Pending spec f k₀ (planAll s snap f) (!snap.unstable) (planAll s snap f).rules tx := by
    refine ⟨List.suffix_refl _, hd, fun hr _ hno => ?_⟩
    have hskip : (planAll s snap f).effective.skipped f (Spec.localGuard spec.config f).priority = false := by
      simp [Spec.skipped, Spec.localGuard, lookupRule, prioLocalGuard, prioReturnPath, prioBackstop]
    have hnone : ∀ a ∈ diff (planAll s snap f).effective f (snap.rules f) (planAll s snap f).hostRefresh,
        a.kind = .add → a.priority = (Spec.localGuard spec.config f).priority →
          equalItems a.rule.items (Spec.localGuard spec.config f).items = false := by
      intro a ha hk hap
      unfold Plan.adds at hno
      rw [List.any_eq_false] at hno
      simpa [hk, hap] using hno a ha
    obtain ⟨x, hx, hprio, hitems⟩ := stands_of_not_added hguardMem hskip hrefresh hnone
    exact ⟨x, Kern.mem_rulesAt.2 ⟨hsees.rules hx, hprio⟩, hitems⟩
  have hroutes : ∀ st : Routing, Ensures (Delivering spec f k₀)
      ((planAll s snap f).routes.foldlM (Tx.applyRoute quiet (planAll s snap f) (!snap.unstable)) st)
      fun _ => Delivering spec f k₀ := by
    have hn := neutral_stepwise (preserves_chains (LocalSound spec.config f k₀))
    refine fun st => ensures_of_sound (hn.toChains.foldlM (fun a _ st => ?_) st)
    exact hn.applyRoute (fun _ => (sound_limited spec.config f k₀).replaceRoute _)
      ((sound_limited spec.config f k₀).delRoute _) _ _ st
  unfold Tx.apply
  rw [hrefresh, Bool.false_and, if_neg (by decide), bind_run, pure_run]
  refine Ensures.bind (Q := fun _ => Delivering spec f k₀) (fun tx htx => ?_) (fun st =>
    (hroutes _).bind fun _ => .pure fun _ h => h) tx hstart
  exact (Ensures.foldlM_rest (J := fun rest _ => Pending spec f k₀ (planAll s snap f) (!snap.unstable) rest)
    (fun a rest st => hp.pending_rule hc st) _ _ tx htx).delivering

theorem ensures_apply_other {g : Family} (hg : g ≠ f) :
    Ensures (fun tx => Delivering spec f k₀ tx ∧ Sees g snap tx.kernel.kern)
      (Tx.apply quiet (planAll s snap g) (!snap.unstable)) fun _ => Delivering spec f k₀ := by
  rintro tx ⟨hd, hsees⟩
  have hfamilial : ∀ r ∈ snap.rules g, r.family = g := fun r hr => hd.sound.familial g r (hsees.rules hr)
  obtain ⟨hrules, hwant⟩ := plan_familial hfamilial
  refine ensures_of_sound ((sound_limited spec.config f k₀).allows ⟨fun a ha _ hf => ?_, fun a _ _ => ?_,
    fun a ha _ => ⟨fun hf => ?_, fun hf => ?_⟩⟩ _).apply tx hd
  · exact absurd ((hrules a ha).symm.trans hf) hg
  · exact ⟨fun w hw hf => absurd ((hwant _ w hw).symm.trans hf) hg,
      fun w hw hf => absurd ((hwant _ w hw).symm.trans hf) hg, fun hf => absurd hf hg,
      fun w hw hf => absurd ((hwant _ w hw).symm.trans hf) hg⟩
  · exact absurd ((hrules a ha).symm.trans hf) hg
  · exact absurd hf hg

include hc in
theorem upheld_delivering (hsafe : LocalSafe spec.config f k₀) :
    Upheld spec (Delivering spec f k₀) where
  expects h := h.expects
  familial h := h.sound.familial
  idle hi h := h.idle hi
  respec hs h := ⟨hs, h.sound, h.past⟩
  guard g hs := by
    rw [guardRule_eq (hs.config ▸ hc)]
    exact ensures_of_sound ((sound_limited spec.config f k₀).asks.addRule fun _ hp => (nomatch hp))
  unguard g hs := by
    rw [guardRule_eq (hs.config ▸ hc)]
    exact ensures_of_sound ((sound_limited spec.config f k₀).asks.delRule fun _ =>
      (by decide : prioLocalGuard < prioTempGuard))
  apply g hs := by
    by_cases hg : g = f
    · subst hg
      exact ensures_apply_own hc hsafe hs
    · exact ensures_apply_other hg

section Jobs

variable (hc : spec.config.NativeOverlay) (hsafe : LocalSafe spec.config f k₀)

include hc hsafe

theorem delivering_reconcile (guardRepairs : Bool) (reason : String) :
    Ensures (Delivering spec f k₀) (Tx.reconcile quiet guardRepairs reason) fun _ => Delivering spec f k₀ :=
  (upheld_delivering hc hsafe).reconcile (fun _ => hc.kind) reason

omit hsafe in
theorem delivering_installLocal (hs : SpecOf spec s) (snap : Snapshot) (fs : List Family) :
    Ensures (Delivering spec f k₀) (Tx.installLocal quiet s snap fs) fun _ => Delivering spec f k₀ := by
  induction fs with
  | nil => exact .pure fun _ h => h
  | cons g t ih =>
    unfold Tx.installLocal
    rw [rulesAt_local (hs.config ▸ hc)]
    dsimp only
    split_ifs
    · exact ih
    · have hA : ∀ (hf : (Spec.localGuard s.config g).family = f)
          (_ : (Spec.localGuard s.config g).priority = prioLocalGuard),
          Spec.localGuard s.config g = Spec.localGuard spec.config f := by
        intro hf _
        obtain rfl : g = f := hf
        rw [hs.config]
      refine Ensures.bind (ensures_of_sound ((sound_limited spec.config f k₀).asks.addRule hA)) fun x => ?_
      rcases x with ⟨changed, _ | e⟩
      · exact ih
      · exact .pure fun _ h => h

omit hsafe in
theorem delivering_installGuards (hs : SpecOf spec s) (fs : List Family) :
    Ensures (Delivering spec f k₀) (Tx.installGuards quiet s fs) fun _ => Delivering spec f k₀ := by
  induction fs with
  | nil => exact .pure fun _ h => h
  | cons g t ih =>
    unfold Tx.installGuards
    rw [guardRule_eq (hs.config ▸ hc)]
    refine Ensures.bind (ensures_of_sound ((sound_limited spec.config f k₀).asks.addRule fun _ hp => (nomatch hp)))
      fun x => ?_
    rcases x with ⟨changed, _ | e⟩
    · exact ih
    · exact .pure fun _ h => h

omit hc hsafe in
theorem delivering_installFallbacks (s : Spec) (fs : List Family) :
    Ensures (Delivering spec f k₀) (Tx.installFallbacks quiet s fs) fun _ => Delivering spec f k₀ := by
  induction fs with
  | nil => exact .pure fun _ h => h
  | cons g t ih =>
    refine Ensures.bind (ensures_of_sound ((sound_limited spec.config f k₀).replaceRoute _)) fun e => ?_
    cases e with
    | none => exact ih
    | some e => exact .pure fun _ h => h

theorem delivering_installAnew (guardRepairs : Bool) (hs : SpecOf spec s) (snap : Snapshot) :
    Ensures (Delivering spec f k₀) (Tx.installAnew quiet guardRepairs s snap) fun _ => Delivering spec f k₀ := by
  unfold Tx.installAnew
  rw [if_neg (by simp [(hs.config ▸ hc).not_sidecar])]
  refine Ensures.bind (delivering_installLocal hc hs snap families) fun e => ?_
  cases e with
  | some e => exact .pure fun _ h => h
  | none =>
    have hs' : SpecOf spec { s with tempGuard := fun _ => true } := ⟨hs.config, hs.returnPath, hs.leaveReturnPath⟩
    refine Ensures.bind (Q := fun _ => Delivering spec f k₀)
      (.modify fun _ h => (upheld_delivering hc hsafe).respec hs' h) fun _ => ?_
    refine Ensures.bind (delivering_installGuards hc hs' families) fun e => ?_
    cases e with
    | some e => exact .pure fun _ h => h
    | none =>
      refine Ensures.bind (delivering_installFallbacks _ families) fun e => ?_
      cases e with
      | some e => exact .pure fun _ h => h
      | none => exact Ensures.bind (delivering_reconcile hc hsafe _ _) fun _ => .pure fun _ h => h

omit hc hsafe in
theorem delivering_job (h : Ensures (Delivering spec f k₀) x fun _ => Delivering spec f k₀) :
    Ensures (Delivering spec f k₀) (Tx.job x) fun _ => Delivering spec f k₀ :=
  Ensures.bind (Q := fun _ => Delivering spec f k₀) (.modify fun _ hd => ⟨hd.expects, hd.sound, hd.past⟩) fun _ => h

theorem delivering_install (guardRepairs : Bool) :
    Ensures (Delivering spec f k₀) (Tx.install quiet guardRepairs) fun _ => Delivering spec f k₀ := by
  refine delivering_job (Ensures.bind (Q := fun tx₀ tx => Delivering spec f k₀ tx ∧ SpecOf spec tx₀.spec)
    (fun tx h => ⟨h, h.expects⟩) fun tx₀ => .assuming fun hs => ?_)
  dsimp only
  split_ifs
  · exact .pure fun _ h => h
  · refine Ensures.bind (Q := fun _ => Delivering spec f k₀) (fun tx h => h.idle (idle_snapshot tx)) fun x => ?_
    cases x with
    | error e => exact .pure fun _ h => h
    | ok snap =>
      have hnew := delivering_installAnew hc hsafe (Tx.guards guardRepairs tx₀.spec) hs snap
      dsimp only
      split_ifs
      · refine Ensures.bind (delivering_reconcile hc hsafe _ _) fun res => ?_
        split_ifs
        · exact .pure fun _ h => h
        · exact hnew
      · exact hnew

theorem delivering_runJobs (guardRepairs : Bool) (jobs : List OwnerJob) :
    Ensures (Delivering spec f k₀) (runJobs quiet guardRepairs jobs) fun _ => Delivering spec f k₀ := by
  induction jobs with
  | nil => exact .pure fun _ h => h
  | cons j t ih =>
    refine Ensures.bind ?_ fun _ => ih
    cases j with
    | install => exact Ensures.bind (delivering_install hc hsafe guardRepairs) fun _ => .pure fun _ h => h
    | reconcile reason =>
      refine Ensures.bind (delivering_job ?_) fun _ => .pure fun _ h => h
      exact Ensures.get.bind fun _ tx h => delivering_reconcile hc hsafe _ reason tx h.1

end Jobs

end Delivery

/-- Whatever the owner installs and repairs, and whatever fails or cannot be read
meanwhile: a family that is delivered to locally still is after every change, unless a
rule at priority 1 takes an exact rule 1 with it unseen. -/
theorem local_delivery_kept (spec : Spec) (hc : spec.config.NativeOverlay) (f : Family) (w : Quiet)
    (hw : w.past = []) (hfam : w.kern.Familial) (hstart : w.kern.Delivers spec.config f)
    (hsafe : LocalSafe spec.config f w.kern) (guardRepairs : Bool) (jobs : List OwnerJob) :
    ∀ k ∈ (runJobs quiet guardRepairs jobs { kernel := w, spec := spec }).2.kernel.past,
      k.Delivers spec.config f := by
  refine (delivering_runJobs hc hsafe guardRepairs jobs _ ?_).past
  exact ⟨⟨rfl, rfl, rfl⟩, ⟨⟨hfam, fun x hx => .inl hx⟩, hstart⟩, by simp [hw]⟩

/-! ### Two starts -/

def guardedSpec : Spec :=
  { config := { kind := .overlay, backend := .native, overlayIf := "wt0", exitIf := "mole0", table := 1000 } }

theorem guardedSpec_native : guardedSpec.config.NativeOverlay :=
  ⟨rfl, rfl, by decide, by decide, by decide, by decide, by decide⟩

/-- A new network namespace: the kernel's own three rules. -/
def newKern : Kern where
  rules f := [localLookup f, lookupRule 32766 f tableMain, lookupRule 32767 f 253]
  links := [{ index := 2, name := "eth0" }]
  rules_sorted f := by cases f <;> decide
  routes_table := Kern.no_routes

theorem local_delivery_kept_new :
    ((runJobs quiet true [.install, .reconcile "start"] { kernel := { kern := newKern }, spec := guardedSpec }).2.kernel.past.all
      fun k => decide (k.Delivers guardedSpec.config .v4)) = true := by
  have hfam : newKern.Familial := fun f => by cases f <;> decide
  have hsafe : LocalSafe guardedSpec.config .v4 newKern := by
    have hnone : newKern.rulesAt .v4 prioLocalGuard = [] := by decide
    intro a ha
    cases ha
  rw [List.all_eq_true]
  intro k hk
  exact decide_eq_true (local_delivery_kept guardedSpec guardedSpec_native .v4 { kern := newKern } rfl hfam
    (by decide) hsafe true [.install, .reconcile "start"] k hk)

/-- Rule 1 as somebody's script adds it, with the protocol `ip rule add` sets. -/
def bootGuard : Rule := { Spec.localGuard guardedSpec.config .v4 with protocol := some 3 }

/-- Another rule of the script's at priority 1, with a flag the contract does not use. -/
def bootLocal : Rule :=
  { lookupRule prioLocalGuard .v4 tableLocal with iifName := "wt0", flags := 0x10000, protocol := some 3 }

def bootKern : Kern where
  rules
    | .v4 => [bootGuard, bootLocal, ingressReject guardedSpec.config .v4, lookupRule 32766 .v4 tableMain]
    | .v6 => []
  links := [{ index := 2, name := "eth0" }, { index := 3, name := "wt0" }]
  rules_sorted f := by cases f <;> decide
  routes_table := Kern.no_routes

/-- The comparison keeps the script's rule 1 and deletes its other rule; the kernel takes
rule 1 for it. -/
theorem local_delivery_lost :
    guardedSpec.config.NativeOverlay ∧ bootKern.Familial ∧ bootKern.Delivers guardedSpec.config .v4 ∧
      ∃ k ∈ (runJobs quiet true [.reconcile "start"] { kernel := { kern := bootKern }, spec := guardedSpec }).2.kernel.past,
        ¬ k.Delivers guardedSpec.config .v4 :=
  ⟨guardedSpec_native, fun f => by cases f <;> decide, by decide, by decide +kernel⟩

end Molebridge
