import Molebridge.Proofs.Calls
import Molebridge.Proofs.Planned

/-! One rule for what a repair pass keeps. A plan is applied to the kernel it was made
for: since the look it rests on only the other family and the temporary guard were
worked on, and the guard is in the snapshot the plan was made anew from. A property
that every such application keeps, every pass keeps (`Upheld.reconcile`). -/

namespace Molebridge

variable {removals : Bool} {rules : List Rule} {next : Snapshot → TxM Quiet PassResult}

/-! ### What a look shows -/

/-- What a snapshot shows of a family is there; a stable one shows all of it. -/
structure Sees (f : Family) (snap : Snapshot) (k : Kern) : Prop where
  rules : snap.rules f ⊆ k.rules f
  links : snap.links ⊆ k.links
  addrs : snap.addrs f ⊆ k.addrs f
  stable : snap.unstable = false →
    snap.rules f = k.rules f ∧ snap.links = k.links ∧ snap.addrs f = k.addrs f

theorem filter_contains_subset {α : Type} [DecidableEq α] (l l' : List α) : l.filter l'.contains ⊆ l' := by
  intro x hx
  simpa using (List.mem_filter.1 hx).2

variable {k : Kern} {snap : Snapshot} {f : Family} {s : Spec} {r : Round} {res : PassResult}

theorem sees_look {a : Answer} {tables : List ℕ} (h : a.look tables k = .ok snap)
    (f : Family) : Sees f snap k := by
  unfold Answer.look at h
  cases hf : a.fault with
  | some e =>
    rw [hf] at h
    cases h
  | none =>
    rw [hf] at h
    cases h
    cases hb : a.blurred with
    | none => exact ⟨List.Subset.refl _, List.Subset.refl _, List.Subset.refl _, fun _ => ⟨rfl, rfl, rfl⟩⟩
    | some seen =>
      exact ⟨filter_contains_subset _ _, filter_contains_subset _ _, filter_contains_subset _ _,
        fun hu => (nomatch hu)⟩

theorem snapshot_spec (tx : Tx Quiet) : Idle tx (Tx.snapshot quiet tx).2 ∧
    ∀ snap, (Tx.snapshot quiet tx).1 = .ok snap → ∀ f, Sees f snap tx.kernel.kern := by
  have hrun : Ensures (Idle tx) (Tx.snapshot quiet) fun x _ =>
      ∀ snap, x = .ok snap → ∀ f, Sees f snap tx.kernel.kern := by
    refine Ensures.bind (Q := fun _ => Idle tx) (fun tx' h => idle_chains.trans h (idle_budget tx')) fun e => ?_
    cases e with
    | some e => exact .pure fun _ _ snap h => (nomatch h)
    | none =>
      refine Ensures.get.bind fun tx₀ => Ensures.bind (Q := fun x _ =>
        ∃ a : Answer, x = a.look tx₀.spec.interest tx.kernel.kern) (fun tx' h => ?_) fun x => ?_
      · exact ⟨tx'.kernel.answer, by rw [← h.1.kern]; rfl⟩
      · cases x with
        | error e =>
          exact Ensures.bind (Q := fun _ _ => True) (fun _ _ => trivial) fun _ => .pure fun _ _ snap h => (nomatch h)
        | ok snap =>
          refine Ensures.bind (fun _ h => ?_) fun _ =>
            .pure fun _ h snap' hs => Except.ok.inj hs ▸ h
          obtain ⟨a, ha⟩ := h
          exact sees_look ha.symm
  exact ⟨idle_snapshot tx, hrun tx (idle_chains.refl tx)⟩

/-! ### The steps of an application -/

variable {p : Plan}

section Apply

variable {R : Tx Quiet → Tx Quiet → Prop}

/-- What `apply` asks for with a plan, where removals are made or not, moves along the
relation. -/
structure Allows (R : Tx Quiet → Tx Quiet → Prop) (p : Plan) (removals : Bool) : Prop extends Neutral R where
  add : ∀ a ∈ p.rules, a.kind = .add → Along R (Tx.addRule quiet a.rule)
  rebuild : removals = true → ∀ a ∈ p.rules, a.kind = .sub →
    Along R (Tx.rebuild quiet p.family a.priority (p.wantAt a.priority))
  delete : removals = true → ∀ a ∈ p.rules, a.kind = .del → Along R (Tx.deleteRule quiet p a)
  route : ∀ a ∈ p.routes, a.kind ≠ .delRoute → Along R (Tx.replaceRoute quiet a.route)
  unroute : ∀ a ∈ p.routes, Along R (Tx.delRoute quiet (clearSource a.route))
  host : p.hostRefresh = true → ∀ st, Along R (Tx.refreshHost quiet p st)

theorem Neutral.behindGuard (h : Neutral R) (p : Plan) (q : ℕ) (read : Bool) :
    Along R (Tx.behindGuard quiet p q read) := by
  unfold Tx.behindGuard
  split_ifs
  · exact h.toChains.pure _
  · refine h.toChains.bind (h.confirmed _ _) fun e => ?_
    cases e <;> exact h.toChains.pure _

theorem Neutral.replaced (h : Neutral R) (p : Plan) (a : Action) : Along R (Tx.replaced quiet p a) := by
  unfold Tx.replaced
  split_ifs
  · exact h.confirmed _ _
  · exact h.toChains.pure _

variable {a : Action}

theorem Neutral.applyDel (h : Neutral R) (hdel : Along R (Tx.deleteRule quiet p a))
    (st : Ruling) : Along R (Tx.applyDel quiet p a st) := by
  refine h.toChains.bind (h.behindGuard _ _ _) fun x => ?_
  cases x with
  | error e => exact h.toChains.pure _
  | ok read =>
    refine h.toChains.bind (h.replaced p a) fun e => ?_
    cases e with
    | some e => exact h.toChains.pure _
    | none => exact h.toChains.bind hdel fun _ => h.toChains.pure _

theorem Neutral.applySub (h : Neutral R)
    (hsub : Along R (Tx.rebuild quiet p.family a.priority (p.wantAt a.priority))) (st : Ruling) :
    Along R (Tx.applySub quiet p a st) := by
  unfold Tx.applySub
  split_ifs
  · exact h.toChains.pure _
  · refine h.toChains.bind (h.behindGuard _ _ _) fun x => ?_
    cases x with
    | error e => exact h.toChains.pure _
    | ok read => exact h.toChains.bind hsub fun _ => h.toChains.pure _

theorem Allows.applyRule (h : Allows R p removals) (st : Ruling)
    (ha : a ∈ p.rules) : Along R (Tx.applyRule quiet p removals st a) := by
  unfold Tx.applyRule
  cases hk : a.kind with
  | add => exact h.toChains.bind (h.add a ha hk) fun _ => h.toChains.pure _
  | sub =>
    split_ifs with hr
    · exact h.toNeutral.applySub (h.rebuild hr a ha hk) st
    · exact h.toChains.pure _
  | del =>
    split_ifs with hr
    · exact h.toNeutral.applyDel (h.delete hr a ha hk) st
    · exact h.toChains.pure _

theorem Neutral.applyRoute (h : Neutral R) {a : RouteAction}
    (hroute : a.kind ≠ .delRoute → Along R (Tx.replaceRoute quiet a.route))
    (hunroute : Along R (Tx.delRoute quiet (clearSource a.route))) (p : Plan) (removals : Bool) (st : Routing) :
    Along R (Tx.applyRoute quiet p removals st a) := by
  have hadd : a.kind ≠ .delRoute → ∀ what, Along R (Tx.applyRouteAdd quiet a.route what st) := by
    intro hk what
    refine h.toChains.bind (hroute hk) fun e => ?_
    cases e <;> exact h.toChains.pure _
  unfold Tx.applyRoute
  cases hk : a.kind with
  | addFallback | addTunnel => exact hadd (by simp [hk]) _
  | delRoute =>
    refine along_ite ?_ (h.toChains.pure _)
    exact along_ite (h.toChains.pure _) (h.toChains.bind hunroute fun _ => h.toChains.pure _)

theorem Neutral.refreshHost (h : Neutral R) (hroute : ∀ r, Along R (Tx.replaceRoute quiet r))
    (hunroute : ∀ r, Along R (Tx.delRoute quiet r)) (p : Plan) (st : Applied) :
    Along R (Tx.refreshHost quiet p st) :=
  h.toChains.bind (h.toChains.foldlM (fun _ _ _ => h.toChains.bind (hunroute _) fun _ => h.toChains.pure _) _)
    fun _ => h.toChains.foldlM (fun _ _ _ => h.toChains.bind (hroute _) fun _ => h.toChains.pure _) _

theorem Allows.apply (h : Allows R p removals) :
    Along R (Tx.apply quiet p removals) := by
  have hrest : ∀ st : Applied, Along R (do
      let st ← p.rules.foldlM (Tx.applyRule quiet p removals) { toApplied := st }
      let st ← p.routes.foldlM (Tx.applyRoute quiet p removals) { toApplied := st.toApplied }
      return st.toApplied : TxM Quiet Applied) := by
    intro st
    refine h.toChains.bind (h.toChains.foldlM (fun a ha st => h.applyRule st ha) _) fun _ => ?_
    exact h.toChains.bind (h.toChains.foldlM (fun a ha st => h.toNeutral.applyRoute (h.route a ha)
      (h.unroute a ha) p removals st) _) fun _ => h.toChains.pure _
  unfold Tx.apply
  split_ifs with hhost
  · exact h.toChains.bind (h.host (Bool.and_eq_true _ _ ▸ hhost).1 _) hrest
  · exact h.toChains.bind (h.toChains.pure _) hrest

end Apply

/-! ### Requests for some of the rules -/

/-- What a request that puts in a rule of one kind does to the kernel, one that takes out
a rule of some place, and one for a route. -/
structure Limited (A : Rule → Prop) (D : Family → ℕ → Prop) (R : Kern → Kern → Prop) : Prop extends Chains R where
  add : ∀ k r, A r → R k (k.withRule r)
  delete : ∀ k r, D r.family r.priority → R k (k.withoutRule r)
  clear : ∀ k f q, D f q → R k (k.withoutPriority f q)
  route : ∀ k r, R k (k.withRoute r)
  unroute : ∀ k r, R k (k.withoutRoute r)

structure Plan.Limited (p : Plan) (A : Rule → Prop) (D : Family → ℕ → Prop) : Prop where
  add : ∀ a ∈ p.rules, a.kind = .add → A a.rule
  rebuild : ∀ a ∈ p.rules, a.kind = .sub → LimitedRebuild A (fun r => D r.family r.priority) D p.family
    a.priority (p.wantAt a.priority)
  delete : ∀ a ∈ p.rules, a.kind = .del → D a.rule.family a.rule.priority ∧ D p.family a.priority

section Limited

variable {A : Rule → Prop} {D : Family → ℕ → Prop} {R : Kern → Kern → Prop} (h : Limited A D R)

include h

theorem Limited.asks : Asks A (fun r => D r.family r.priority) D (Stepwise R) where
  toNeutral := neutral_stepwise h.toChains
  addRule hr tx := (addRule_spec tx _).stepwise fun _ => h.add _ _ hr
  delRule hr tx := (delRule_spec tx _).stepwise fun _ => h.delete _ _ hr
  delRulePriority hq tx := (delRulePriority_spec tx _ _).stepwise fun _ => h.clear _ _ _ hq

theorem Limited.replaceRoute (r : Route) : Along (Stepwise R) (Tx.replaceRoute quiet r) := by
  intro tx
  rcases replaceRoute_spec tx r with hm | hi
  · exact hm.stepwise (h.route _ r)
  · exact hi.stepwise

theorem Limited.delRoute (r : Route) : Along (Stepwise R) (Tx.delRoute quiet r) := fun tx =>
  (delRoute_spec tx r).stepwise fun _ => h.unroute _ r

theorem Limited.allows (hp : p.Limited A D) (removals : Bool) : Allows (Stepwise R) p removals :=
  ⟨neutral_stepwise h.toChains, fun a ha hk => h.asks.addRule (hp.add a ha hk),
    fun _ a ha hk => h.asks.rebuild (hp.rebuild a ha hk), fun _ a ha hk => h.asks.deleteRule (hp.delete a ha hk),
    fun _ _ _ => h.replaceRoute _, fun _ _ => h.delRoute _,
    fun _ st => (neutral_stepwise h.toChains).refreshHost h.replaceRoute h.delRoute p st⟩

end Limited

/-! ### The other family -/

structure Apart (f : Family) (k k' : Kern) : Prop where
  rules : ∀ g, g ≠ f → k'.rules g = k.rules g
  links : k'.links = k.links
  addrs : k'.addrs = k.addrs

theorem apart_setRules (k : Kern) (f : Family)
    (h : rules.Pairwise fun a b => a.priority ≤ b.priority) : Apart f k (k.setRules f rules h) :=
  ⟨fun g hg => by rw [k.setRules_rules, if_neg hg], rfl, rfl⟩

theorem apart_limited (f : Family) : Limited (fun r => r.family = f) (fun g _ => g = f) (Apart f) where
  refl _ := ⟨fun _ _ => rfl, rfl, rfl⟩
  trans h h' := ⟨fun g hg => (h'.rules g hg).trans (h.rules g hg), h'.links.trans h.links,
    h'.addrs.trans h.addrs⟩
  add k r hr := hr ▸ apart_setRules k r.family _
  delete k r hr := hr ▸ apart_setRules k r.family _
  clear k g _ hg := hg ▸ apart_setRules k g _
  route _ _ := ⟨fun _ _ => rfl, rfl, rfl⟩
  unroute _ _ := ⟨fun _ _ => rfl, rfl, rfl⟩

variable {k' : Kern}

theorem Sees.apart {g : Family} (h : Sees g snap k) (ha : Apart f k k') (hg : g ≠ f) : Sees g snap k' where
  rules := by
    rw [ha.rules g hg]
    exact h.rules
  links := by
    rw [ha.links]
    exact h.links
  addrs := by
    rw [ha.addrs]
    exact h.addrs
  stable := by
    rw [ha.rules g hg, ha.links, ha.addrs]
    exact h.stable

def Kern.Familial (k : Kern) : Prop := ∀ f, ∀ r ∈ k.rules f, r.family = f

def Preserves (P : Kern → Prop) (k k' : Kern) : Prop := P k → P k'

theorem preserves_chains (P : Kern → Prop) : Chains (Preserves P) := ⟨fun _ h => h, fun h h' hk => h' (h hk)⟩

theorem familial_setRules (h : k.Familial) (f : Family)
    (hr : ∀ r ∈ rules, r.family = f) (hs : rules.Pairwise fun a b => a.priority ≤ b.priority) :
    (k.setRules f rules hs).Familial := by
  intro g r hmem
  rw [k.setRules_rules] at hmem
  split_ifs at hmem with hg
  · exact hg ▸ hr r hmem
  · exact h g r hmem

theorem familial_limited : Limited (fun _ => True) (fun _ _ => True) (Preserves Kern.Familial) where
  toChains := preserves_chains _
  add k r _ hk := by
    refine familial_setRules hk _ (fun x hx => ?_) _
    rcases mem_insertRule.1 hx with rfl | hx
    · rfl
    · exact hk _ x hx
  delete k r _ hk := familial_setRules hk _ (fun x hx => hk _ x (List.mem_of_mem_eraseP hx)) _
  clear k f q _ hk := familial_setRules hk _ (fun x hx => hk _ x (List.mem_of_mem_eraseP hx)) _
  route _ _ hk := hk
  unroute _ _ hk := hk

theorem plan_familial (h : ∀ r ∈ snap.rules f, r.family = f) :
    (∀ a ∈ (planAll s snap f).rules, a.rule.family = f) ∧
      ∀ n, ∀ w ∈ (planAll s snap f).wantAt n, w.family = f := by
  have hrules : ∀ r ∈ (s.effective snap f).rules f, r.family = f := fun r hr =>
    (addedRule_of_mem (mem_rules hr).2).family
  have hleft : ∀ r ∈ leftReturnPath (s.effective snap f) f (snap.rules f), r.family = f := by
    intro r hr
    have hshape := (mem_leftReturnPath hr).2.1
    unfold Spec.returnPathShaped at hshape
    cases hsrc : r.src with
    | none =>
      rw [hsrc] at hshape
      cases hshape
    | some p =>
      rw [hsrc] at hshape
      simp only [Bool.and_eq_true, beq_iff_eq] at hshape
      exact hshape.1.1.1
  constructor
  · intro a ha
    by_cases hk : a.kind = .add
    · rcases diff_add ha hk with hr | hr
      · exact hrules _ hr
      · exact hleft _ hr
    · exact h _ (mem_of_diff_removal ha hk)
  · intro n w hw
    unfold Plan.wantAt at hw
    split_ifs at hw
    · exact hleft w (List.mem_filter.1 hw).1
    · exact hrules w (List.mem_filter.1 hw).1

theorem plan_limited_family (h : ∀ r ∈ snap.rules f, r.family = f) :
    (planAll s snap f).Limited (fun r => r.family = f) fun g _ => g = f := by
  obtain ⟨hrules, hwant⟩ := plan_familial h
  exact ⟨fun a ha _ => hrules a ha, fun a _ _ => ⟨hwant _, hwant _, rfl, hwant _⟩,
    fun a ha _ => ⟨hrules a ha, rfl⟩⟩

/-! ### The pass -/

/-- A property of the owner's state that looks and changes of the guards keep, and each
application of a plan to the kernel it was made for. -/
structure Upheld (spec : Spec) (I : Tx Quiet → Prop) : Prop where
  expects : ∀ {tx}, I tx → SpecOf spec tx.spec
  familial : ∀ {tx}, I tx → tx.kernel.kern.Familial
  idle : ∀ {tx tx'}, Idle tx tx' → I tx → I tx'
  respec : ∀ {tx s}, SpecOf spec s → I tx → I { tx with spec := s }
  guard : ∀ {s} f, SpecOf spec s → Ensures I (Tx.addRule quiet (guardRule s f)) fun _ => I
  unguard : ∀ {s} f, SpecOf spec s → Ensures I (Tx.delRule quiet (guardRule s f)) fun _ => I
  apply : ∀ {s snap} f, SpecOf spec s → Ensures (fun tx => I tx ∧ Sees f snap tx.kernel.kern)
    (Tx.apply quiet (planAll s snap f) (!snap.unstable)) fun _ => I

/-- What a round works with, for the families that are still to be worked on. -/
structure RoundOn (spec : Spec) (fs : List Family) (r : Round) (k : Kern) : Prop where
  expects : SpecOf spec r.spec
  sees : ∀ f ∈ fs, Sees f r.snap k
  plans : ∀ f ∈ fs, ∃ s snap, SpecOf spec s ∧ r.plans f = planAll s snap f ∧
    snap.unstable = r.snap.unstable ∧ Sees f snap k

theorem RoundOn.apart {spec : Spec} {fs : List Family}
    (h : RoundOn spec (f :: fs) r k) (hf : f ∉ fs) (ha : Apart f k k') : RoundOn spec fs r k' where
  expects := h.expects
  sees g hg := (h.sees g (.tail f hg)).apart ha (fun he => hf (he ▸ hg))
  plans g hg := by
    obtain ⟨s, snap, hs, hp, hu, hsee⟩ := h.plans g (.tail f hg)
    exact ⟨s, snap, hs, hp, hu, hsee.apart ha (fun he => hf (he ▸ hg))⟩

theorem guardRule_family (h : s.config.kind = .overlay) (f : Family) : (guardRule s f).family = f := by
  have hmem : Spec.tempGuardRule s.config f ∈ Spec.rules { s with tempGuard := fun g => g == f } f := by
    unfold Spec.rules
    rw [if_neg (by simp [Config.isGluetunSidecar, h]), List.mem_insertionSort, List.mem_filter]
    refine ⟨List.mem_flatten.2 ⟨_, (.head _), ?_⟩, by
      simp [Spec.skipped, Spec.tempGuardRule, rejectRule, prioTempGuard, prioReturnPath, prioBackstop]⟩
    simp [Spec.guardRules, Config.isNativeSidecar, h]
  unfold guardRule
  cases hfind : (Spec.rules { s with tempGuard := fun g => g == f } f).find? (·.priority == prioTempGuard) with
  | none => exact absurd (List.find?_eq_none.1 hfind _ hmem) (by simp [Spec.tempGuardRule, rejectRule])
  | some r => exact (addedRule_of_mem (mem_rules (List.mem_of_find?_eq_some hfind)).2).family

theorem sees_withRule {r : Rule} (hr : r.family = f) (g : Family)
    (hs : Sees g snap k) : Sees g (snap.withRule f r) (k.withRule r) := by
  subst hr
  by_cases hg : g = r.family
  · subst hg
    have hk : (k.withRule r).rules r.family = State.insertRule r (k.rules r.family) := by
      unfold Kern.withRule
      rw [k.setRules_rules, if_pos rfl]
    have hsnap : (snap.withRule r.family r).rules r.family = State.insertRule r (snap.rules r.family) := by
      simp [Snapshot.withRule]
    refine ⟨?_, hs.links, hs.addrs, fun hu => ?_⟩
    · rw [hk, hsnap]
      intro x hx
      exact mem_insertRule.2 ((mem_insertRule.1 hx).imp_right fun hx => hs.rules hx)
    · obtain ⟨hrules, hlinks, haddrs⟩ := hs.stable hu
      exact ⟨by rw [hk, hsnap, hrules], hlinks, haddrs⟩
  · have hsnap : (snap.withRule r.family r).rules g = snap.rules g := by
      simp [Snapshot.withRule, hg]
    have hpart := hs.apart ((apart_limited r.family).add k r rfl) hg
    refine ⟨?_, hpart.links, hpart.addrs, fun hu => ?_⟩
    · rw [hsnap]
      exact hpart.rules
    · rw [hsnap]
      exact hpart.stable hu

theorem RoundOn.guarded {spec : Spec} {g : Rule} {changed : Bool}
    (h : RoundOn spec families r k) (hg : g.family = f) (hmade : changed = true → k' = k.withRule g)
    (hsame : changed = false → k' = k) (hs : SpecOf spec s) (res : PassResult) :
    RoundOn spec families
      { spec := s, snap := if changed = true then r.snap.withRule f g else r.snap
        plans := Function.update r.plans f
          (planAll s (if changed = true then r.snap.withRule f g else r.snap) f)
        res := res } k' := by
  have hsees : ∀ f' ∈ families, Sees f' (if changed = true then r.snap.withRule f g else r.snap) k' := by
    intro f' hf'
    cases hc : changed with
    | true =>
      rw [if_pos rfl, hmade hc]
      exact sees_withRule hg f' (h.sees f' hf')
    | false =>
      rw [if_neg (by decide), hsame hc]
      exact h.sees f' hf'
  have hunstable : (if changed = true then r.snap.withRule f g else r.snap).unstable = r.snap.unstable := by
    split_ifs <;> rfl
  have hapart : Apart f k k' := by
    cases hc : changed with
    | true => exact hmade hc ▸ (apart_limited f).add k g hg
    | false => exact hsame hc ▸ (apart_limited f).refl k
  refine ⟨hs, hsees, fun f' hf' => ?_⟩
  by_cases hf : f' = f
  · subst hf
    exact ⟨s, _, hs, by simp only [Function.update_self], rfl, hsees f' hf'⟩
  · obtain ⟨s', snap, hs', hp, hu, hsee⟩ := h.plans f' hf'
    exact ⟨s', snap, hs', by simpa only [Function.update_of_ne hf] using hp, hu.trans hunstable.symm,
      hsee.apart hapart hf⟩

/-- What a pass keeps: `I` of the owner's state, with `S` known of what a look shows and `V` of
the round for the families that are still to be worked on. -/
structure PassKeeps (spec : Spec) (guardRepairs : Bool) (I : Tx Quiet → Prop) (S : Snapshot → Kern → Prop)
    (V : List Family → Round → Kern → Prop) : Prop where
  expects : ∀ {tx}, I tx → SpecOf spec tx.spec
  respec : ∀ {tx s}, SpecOf spec s → I tx → I { tx with spec := s }
  look : Ensures I (Tx.snapshot quiet) fun x tx => I tx ∧ ∀ snap, x = .ok snap → S snap tx.kernel.kern
  start : ∀ {s snap k} res, SpecOf spec s → S snap k →
    V families { spec := s, snap := snap, plans := planAll s snap, res := res } k
  unguard : ∀ {s} f, SpecOf spec s → Ensures I (Tx.delRule quiet (guardRule s f)) fun _ => I
  install : guardRepairs = true → ∀ f r, Ensures (fun tx => I tx ∧ V families r tx.kernel.kern)
    (Tx.installGuard quiet r f) fun r tx => I tx ∧ V families r tx.kernel.kern
  apply : ∀ f fs, f ∉ fs → ∀ r, Ensures (fun tx => I tx ∧ V (f :: fs) r tx.kernel.kern)
    (Tx.applyPlan quiet r f) fun r tx => I tx ∧ V fs r tx.kernel.kern

section PassKeeps

variable {spec : Spec} {guardRepairs : Bool} {I : Tx Quiet → Prop} {S : Snapshot → Kern → Prop}
  {V : List Family → Round → Kern → Prop} (h : PassKeeps spec guardRepairs I S V)

include h

theorem PassKeeps.lookAgain
    (hn : ∀ snap, Ensures (fun tx => I tx ∧ S snap tx.kernel.kern) (next snap) fun _ => I) :
    Ensures I (Tx.lookAgain quiet res next) fun _ => I := by
  refine h.look.bind fun x => ?_
  cases x with
  | error e => exact .pure fun _ hi => hi.1
  | ok snap => exact fun tx hi => hn snap tx ⟨hi.1, hi.2 snap rfl⟩

omit h in
theorem PassKeeps.notVerified (res : PassResult) (snap : Snapshot) :
    Ensures I (Tx.notVerified res snap : TxM Quiet PassResult) fun _ => I :=
  Ensures.get.bind fun _ => .pure fun _ hi => hi.1

theorem PassKeeps.expectGuard (f : Family) (s : Spec) :
    Ensures (fun tx => (I tx ∧ S snap tx.kernel.kern) ∧ SpecOf spec s) (Tx.expectGuard snap s f)
      fun s tx => (I tx ∧ S snap tx.kernel.kern) ∧ SpecOf spec s := by
  refine .assuming fun hs => ?_
  unfold Tx.expectGuard
  split_ifs
  · exact fun tx hi => ⟨⟨h.respec (hs.setGuard f true) hi.1, hi.2⟩, hs.setGuard f true⟩
  · exact .pure fun _ hi => ⟨hi, hs⟩

theorem PassKeeps.removeGuard (f : Family) (r : Round) :
    Ensures (fun tx => I tx ∧ SpecOf spec r.spec) (Tx.removeGuard quiet r f)
      fun r tx => I tx ∧ SpecOf spec r.spec := by
  refine .assuming fun hs => ?_
  unfold Tx.removeGuard
  split_ifs
  · exact .pure fun _ hi => ⟨hi, hs⟩
  · refine Ensures.bind (Q := fun _ => I) (.modify fun _ hi => h.respec (hs.setGuard f false) hi) fun _ => ?_
    exact (h.unguard f hs).bind fun _ => .pure fun _ hi => ⟨hi, hs.setGuard f false⟩

theorem PassKeeps.applyPlans {next : PassResult → Snapshot → TxM Quiet PassResult}
    (hn : ∀ res snap, Ensures (fun tx => I tx ∧ S snap tx.kernel.kern) (next res snap) fun _ => I)
    (r : Round) : Ensures (fun tx => I tx ∧ V families r tx.kernel.kern)
      (families.foldlM (Tx.applyPlan quiet) r >>= fun r => Tx.lookAgain quiet r.res (next r.res)) fun _ => I := by
  refine Ensures.bind ?_ fun r => h.lookAgain (hn r.res)
  unfold families
  refine (h.apply .v4 [.v6] (by decide) r).bind fun r => ?_
  exact (h.apply .v6 [] (by decide) r).bind fun r => .pure fun _ hi => hi.1

theorem PassKeeps.round {next : Option (PassResult → Snapshot → TxM Quiet PassResult)}
    (hn : ∀ x, next = some x → ∀ res snap,
      Ensures (fun tx => I tx ∧ S snap tx.kernel.kern) (x res snap) fun _ => I)
    (res : PassResult) (snap : Snapshot) :
    Ensures (fun tx => I tx ∧ S snap tx.kernel.kern) (Tx.round quiet guardRepairs next res snap) fun _ => I := by
  refine Ensures.get.bind fun tx₀ => ?_
  refine Ensures.bind (Q := fun s tx => (I tx ∧ S snap tx.kernel.kern) ∧ SpecOf spec s)
    (fun tx hi => ?_) fun s => ?_
  · exact Ensures.foldlM (fun f _ s => h.expectGuard f s) tx₀.spec tx ⟨hi.1, hi.2 ▸ h.expects hi.1.1⟩
  refine .assuming fun hspec => ?_
  dsimp only
  split_ifs with _ _ _ hguard
  · cases next with
    | none => exact fun tx hi => PassKeeps.notVerified _ _ tx hi.1
    | some next => exact fun tx hi => h.lookAgain (hn next rfl res) tx hi.1
  · exact .pure fun _ hi => hi.1
  · refine Ensures.bind (Q := fun r tx => I tx ∧ SpecOf spec r.spec) (fun tx hi =>
      Ensures.foldlM (fun f _ r => h.removeGuard f r) _ tx ⟨hi.1, hspec⟩) fun r => .assuming fun _ => ?_
    refine h.lookAgain fun snap tx hi => ?_
    cases next with
    | none => exact PassKeeps.notVerified _ _ tx hi.1
    | some next => exact hn next rfl _ snap tx hi
  all_goals cases next with
    | none => exact fun tx hi => PassKeeps.notVerified _ _ tx hi.1
    | some next => ?_
  · exact Ensures.bind (fun tx hi =>
      Ensures.foldlM (fun f _ r => h.install hguard f r) _ tx ⟨hi.1, h.start res hspec hi.2⟩)
      (h.applyPlans (hn next rfl))
  · exact fun tx hi => h.applyPlans (hn next rfl) _ tx ⟨hi.1, h.start res hspec hi.2⟩

theorem PassKeeps.rounds (n : ℕ) (res : PassResult) (snap : Snapshot) :
    Ensures (fun tx => I tx ∧ S snap tx.kernel.kern) (Tx.rounds quiet guardRepairs n res snap) fun _ => I := by
  induction n generalizing res snap with
  | zero => exact h.round (by simp) res snap
  | succ n ih =>
    refine h.round (fun x hx res snap => ?_) res snap
    rw [← Option.some.inj hx]
    exact ih res snap

theorem PassKeeps.reconcile (reason : String) : Ensures I (Tx.reconcile quiet guardRepairs reason) fun _ => I := by
  refine Ensures.get.bind fun tx₀ => ?_
  split_ifs
  · exact .pure fun _ hi => hi.1
  · exact fun tx hi => h.lookAgain (fun snap => h.rounds maxRounds _ snap) tx hi.1

end PassKeeps

section Upheld

variable {spec : Spec} {I : Tx Quiet → Prop} (h : Upheld spec I)

include h

theorem Upheld.installGuard (hover : spec.config.kind = .overlay) (f : Family) (r : Round) :
    Ensures (fun tx => I tx ∧ RoundOn spec families r tx.kernel.kern) (Tx.installGuard quiet r f)
      fun r tx => I tx ∧ RoundOn spec families r tx.kernel.kern := by
  unfold Tx.installGuard
  split_ifs
  · exact .pure fun _ hi => hi
  · rintro tx ⟨hi, hr⟩
    have hs := hr.expects.setGuard f true
    have hfam : (guardRule (r.spec.setGuard f true) f).family = f :=
      guardRule_family (by rw [hs.config]; exact hover) f
    have hi' := h.respec hs hi
    have hkept := h.guard f hs _ hi'
    have hans := addRule_spec { tx with spec := r.spec.setGuard f true } (guardRule (r.spec.setGuard f true) f)
    refine ⟨hkept, hr.guarded hfam (fun hc => ?_) (fun hc => ?_) hs _⟩
    · exact (hans.made hc).2.1.kern
    · exact (hans.idle hc).kern

theorem Upheld.applyPlan (f : Family) (fs : List Family) (hf : f ∉ fs) (r : Round) :
    Ensures (fun tx => I tx ∧ RoundOn spec (f :: fs) r tx.kernel.kern) (Tx.applyPlan quiet r f)
      fun r tx => I tx ∧ RoundOn spec fs r tx.kernel.kern := by
  rintro tx ⟨hi, hr⟩
  obtain ⟨s, snap, hs, hp, hu, hsee⟩ := hr.plans f (.head _)
  have hfam : ∀ x ∈ snap.rules f, x.family = f := fun x hx => h.familial hi f x (hsee.rules hx)
  have hkept := h.apply f hs tx ⟨hi, hsee⟩
  have happart : Apart f tx.kernel.kern (Tx.apply quiet (planAll s snap f) (!snap.unstable) tx).2.kernel.kern :=
    (((apart_limited f).allows (plan_limited_family hfam) _).apply tx).last (apart_limited f).toChains
  rw [← hp, hu] at hkept happart
  have hround := hr.apart hf happart
  exact ⟨hkept, hround.expects, hround.sees, hround.plans⟩

/-- What every application of a plan keeps, a pass keeps. -/
theorem Upheld.reconcile {guardRepairs : Bool} (hover : guardRepairs = true → spec.config.kind = .overlay)
    (reason : String) : Ensures I (Tx.reconcile quiet guardRepairs reason) fun _ => I := by
  have hkeeps : PassKeeps spec guardRepairs I (fun snap k => ∀ f, Sees f snap k) (RoundOn spec) :=
    { expects := h.expects
      respec := h.respec
      look := fun tx hi => by
        obtain ⟨hidle, _⟩ := snapshot_spec tx
        exact ⟨h.idle hidle hi, by rwa [hidle.kern]⟩
      start := fun res hs hk => ⟨hs, fun f _ => hk f, fun f _ => ⟨_, _, hs, rfl, rfl, hk f⟩⟩
      unguard := h.unguard
      install := fun hg => h.installGuard (hover hg)
      apply := h.applyPlan }
  exact hkeeps.reconcile reason

end Upheld

/-- A pass that says the contract holds has a stable look of the kernel as it is, with
nothing to repair in it. -/
def Verified (res : PassResult) (tx : Tx Quiet) : Prop :=
  res.contractHolds = true → ∃ snap, snap.unstable = false ∧ (∀ f, Sees f snap tx.kernel.kern) ∧
    ∀ f, (planAll tx.spec snap f).clean = true

theorem verified_of_not (h : res.contractHolds = false) (tx : Tx Quiet) : Verified res tx := by
  intro hno
  rw [h] at hno
  cases hno

theorem PassResult.guarded_holds (res : PassResult) (out : Bool × Option RtErr) (what : String) :
    (res.guarded out what).contractHolds = res.contractHolds := by
  obtain ⟨-, _ | e⟩ := out <;> rfl

theorem PassResult.applied_holds (res : PassResult) (st : Applied) :
    (res.applied st).contractHolds = res.contractHolds := by
  have hfold : ∀ (errs : List OpError) (res : PassResult), (errs.foldl fail res).contractHolds = res.contractHolds := by
    intro errs
    induction errs with
    | nil => exact fun _ => rfl
    | cons e t ih => exact fun res => ih (res.fail e)
  exact hfold st.errs (res.changed st.mutations)

theorem holds_families {step : Round → Family → TxM Quiet Round}
    (h : ∀ r f tx, (step r f tx).1.res.contractHolds = r.res.contractHolds)
    (hr : r.res.contractHolds = false) {P : Tx Quiet → Prop} :
    Ensures P (families.foldlM step r) fun r _ => r.res.contractHolds = false :=
  fun tx _ => Ensures.foldlM
    (fun f _ r tx hr => (h r f tx).trans hr) r tx hr

section Verified

variable {guardRepairs : Bool}

theorem verified_lookAgain (hres : res.contractHolds = false)
    (hn : ∀ snap, Ensures (fun tx => ∀ f, Sees f snap tx.kernel.kern) (next snap) Verified) :
    Ensures (fun _ => True) (Tx.lookAgain quiet res next) Verified := by
  refine Ensures.bind (Q := fun x tx => ∀ snap, x = .ok snap → ∀ f, Sees f snap tx.kernel.kern)
    (fun tx _ => ?_) fun x => ?_
  · obtain ⟨hidle, hsees⟩ := snapshot_spec tx
    rw [hidle.kern]
    exact hsees
  · cases x with
    | error e => exact .pure fun tx _ => verified_of_not hres tx
    | ok snap => exact fun tx hs => hn snap tx (hs snap rfl)

theorem verified_notVerified (hres : res.contractHolds = false) (snap : Snapshot) :
    Ensures (fun _ => True) (Tx.notVerified res snap : TxM Quiet PassResult) Verified :=
  Ensures.get.bind fun _ => .pure fun tx _ => verified_of_not hres tx

theorem verified_round {next : Option (PassResult → Snapshot → TxM Quiet PassResult)}
    (hn : ∀ x, next = some x → ∀ res snap, res.contractHolds = false →
      Ensures (fun tx => ∀ f, Sees f snap tx.kernel.kern) (x res snap) Verified) (hres : res.contractHolds = false) (snap : Snapshot) :
    Ensures (fun tx => ∀ f, Sees f snap tx.kernel.kern) (Tx.round quiet guardRepairs next res snap) Verified := by
  refine Ensures.bind (Q := fun tx₀ tx => (∀ f, Sees f snap tx.kernel.kern) ∧ tx.spec = tx₀.spec)
    (fun tx h => ⟨h, rfl⟩) fun tx₀ => ?_
  refine Ensures.bind (Q := fun s tx => (∀ f, Sees f snap tx.kernel.kern) ∧ tx.spec = s) (fun tx h => ?_) fun s => ?_
  · refine Ensures.foldlM (Q := fun s tx => (∀ f, Sees f snap tx.kernel.kern) ∧ tx.spec = s) (fun f _ s => ?_)
      tx₀.spec tx h
    unfold Tx.expectGuard
    split_ifs
    · exact fun tx h => ⟨h.1, rfl⟩
    · exact .pure fun _ h => h
  dsimp only
  split_ifs with hunstable hclean hheld hguard
  · cases next with
    | none => exact fun tx _ => verified_notVerified hres snap tx trivial
    | some next => exact fun tx _ => verified_lookAgain hres (fun snap => hn next rfl res snap hres) tx trivial
  · refine .pure fun tx h _ => ⟨snap, ?_, h.1, fun f => ?_⟩
    · simpa [hclean] using hunstable
    · rw [h.2]
      exact List.all_eq_true.1 hclean f (mem_families f)
  · refine Ensures.bind (holds_families (fun r f tx => ?_) hres) fun r tx hr => ?_
    · unfold Tx.removeGuard
      split_ifs
      · rfl
      · exact PassResult.guarded_holds _ _ _
    · refine verified_lookAgain hr (fun snap => ?_) tx trivial
      cases next with
      | none => exact fun tx _ => verified_notVerified hr snap tx trivial
      | some next => exact hn next rfl r.res snap hr
  all_goals
    cases next with
    | none => exact fun tx _ => verified_notVerified hres snap tx trivial
    | some next => ?_
  all_goals
    have happly : ∀ r : Round, r.res.contractHolds = false → ∀ tx, Verified
        ((families.foldlM (Tx.applyPlan quiet) r >>= fun r => Tx.lookAgain quiet r.res (next r.res)) tx).1
        ((families.foldlM (Tx.applyPlan quiet) r >>= fun r => Tx.lookAgain quiet r.res (next r.res)) tx).2 :=
      fun r hr tx => Ensures.bind (P := fun _ => True)
        (holds_families (fun r f tx => PassResult.applied_holds _ _) hr)
        (fun r tx hr => verified_lookAgain hr (fun snap => hn next rfl r.res snap hr) tx trivial) tx trivial
  · refine Ensures.bind (holds_families (fun r f tx => ?_) hres) fun r tx hr => happly r hr tx
    unfold Tx.installGuard
    split_ifs
    · rfl
    · exact PassResult.guarded_holds _ _ _
  · exact fun tx _ => happly _ hres tx

theorem verified_rounds (n : ℕ) (hres : res.contractHolds = false) (snap : Snapshot) :
    Ensures (fun tx => ∀ f, Sees f snap tx.kernel.kern) (Tx.rounds quiet guardRepairs n res snap) Verified := by
  induction n generalizing res snap with
  | zero => exact verified_round (by simp) hres snap
  | succ n ih =>
    refine verified_round (fun x hx res snap hres => ?_) hres snap
    rw [← Option.some.inj hx]
    exact ih hres snap

theorem verified_reconcile (reason : String) :
    Ensures (fun tx => tx.spec.config.isGluetunSidecar = false) (Tx.reconcile quiet guardRepairs reason) Verified := by
  refine Ensures.get.bind fun tx₀ tx h => ?_
  rw [if_neg (by rw [h.2, h.1]; decide)]
  exact verified_lookAgain rfl (fun snap => verified_rounds maxRounds rfl snap) tx trivial

end Verified

theorem not_gluetunSidecar {c : Config} (h : c.isGluetun = false) : c.isGluetunSidecar = false := by
  rw [Config.isGluetun, beq_eq_false_iff_ne] at h
  simp [Config.isGluetunSidecar, h]

/-- A verified kernel has the pair of every address that is expected or on the tunnel. -/
theorem pair_stands {tx : Tx Quiet} (hnative : tx.spec.config.isGluetun = false) {g : Family}
    (hleave : tx.spec.leaveReturnPath g = false)
    (hv : ∃ snap, snap.unstable = false ∧ (∀ f, Sees f snap tx.kernel.kern) ∧
      ∀ f, (planAll tx.spec snap f).clean = true) {a : Addr}
    (ha : a ∈ tx.spec.returnPath g ∨ a ∈ liveGlobals (tx.kernel.kern.view []) tx.spec.config.exitIf g) {e : Rule}
    (he : e ∈ returnPathPair tx.spec.config g a) : tx.kernel.kern.has g e.priority e := by
  obtain ⟨snap, hstable, hsees, hclean⟩ := hv
  obtain ⟨-, hlinks, haddrs⟩ := (hsees g).stable hstable
  have hlive : liveGlobals (tx.kernel.kern.view []) tx.spec.config.exitIf g =
      liveGlobals snap tx.spec.config.exitIf g := by
    simp [liveGlobals, Snapshot.link, Kern.view, hlinks, haddrs]
  rw [hlive] at ha
  obtain ⟨hcfg, hl, hcov⟩ := effective_covers hnative hleave snap
  have hmem : e ∈ (tx.spec.effective snap g).rules g := by
    refine pair_mem_rules ?_ hl (hcov a ha) (hcfg.symm ▸ he)
    rw [hcfg]
    exact not_gluetunSidecar hnative
  obtain ⟨x, hx, hprio, hitems⟩ := stands_of_clean hnative (hclean g) hmem
  exact ⟨x, Kern.mem_rulesAt.2 ⟨(hsees g).rules hx, hprio⟩, hitems⟩

end Molebridge
