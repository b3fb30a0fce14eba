import Molebridge.Proofs.Retired
import Molebridge.Spec.AddressChange

/-! The change of the tunnel's address. What carries it is the backstop at 98: as long as
an address is on the tunnel its exact backstop stands, through every repair pass and up
to the moment the address has left. That needs the addresses on the tunnel to be the two
the change is about, because the callback takes the rules of every source it found out
once the address has changed; and a priority 98 that no pass has to rebuild. -/

namespace Molebridge

variable {W S : Tx Quiet → Prop} {change : Kern → Kern} {J : Kern → Prop}

/-- A global IPv4 address of the tunnel. -/
def Kern.OnTunnel (c : Config) (k : Kern) (a : Addr) : Prop :=
  ∃ l, k.link c.exitIf = some l ∧ ∃ x ∈ k.addrs .v4, x.index = l.index ∧ x.global = true ∧ x.loc.addr = a

/-- Its two rules. -/
def Kern.Paired (c : Config) (k : Kern) (a : Addr) : Prop :=
  k.has .v4 prioReturnPath (returnPathRule c .v4 a) ∧ k.has .v4 prioBackstop (backstopRule .v4 a)

/-- One of them, or the copy of one that a rebuild puts a priority earlier. -/
def Kern.Shields (c : Config) (k : Kern) (a : Addr) : Prop :=
  (k.has .v4 prioReturnPath (returnPathRule c .v4 a) ∨ k.has .v4 prioBackstop (backstopRule .v4 a)) ∨
    k.has .v4 (prioReturnPath - 1) (returnPathRule c .v4 a) ∨ k.has .v4 (prioBackstop - 1) (backstopRule .v4 a)

/-- Priority 98 need not be rebuilt for any backstop: a rule there that the comparison
takes for one, or whose delete takes one, is that backstop itself, and none is there
twice. -/
structure BackstopsClear (k : Kern) : Prop where
  own : ∀ b, ∀ a ∈ k.rulesAt .v4 prioBackstop,
    (coveredBy a [backstopRule .v4 b] = true ∨ ∃ x ∈ k.rulesAt .v4 prioBackstop,
      equalItems x.items (backstopRule .v4 b).items = true ∧ deleteMatches a x = true) →
        equalItems a.items (backstopRule .v4 b).items = true
  once : ∀ b, (itemsAt (k.rules .v4) prioBackstop).count (backstopRule .v4 b).itemSet ≤ 1

/-- Every global IPv4 address on the tunnel is the new one, or the old one as a host
address. -/
def OldOrNew (c : Config) (old : Option Addr) (new : Addr) (k : Kern) : Prop :=
  ∀ l, k.link c.exitIf = some l → ∀ x ∈ k.addrs .v4, x.index = l.index → x.global = true →
    x.loc.addr = new ∨ ∃ o, old = some o ∧ x.loc = Prefix.host o

/-- What a change from one address to another is made for: no other address is on the
tunnel, a new one that is there already is global, and 98 need not be rebuilt. -/
structure Movable (c : Config) (old : Option Addr) (new : Addr) (k : Kern) : Prop where
  only : OldOrNew c old new k
  scope : ∀ l, k.link c.exitIf = some l → ∀ x ∈ k.addrs .v4, x.index = l.index →
    x.loc = Prefix.host new → x.global = true
  clear : BackstopsClear k

/-! ### Backstops -/

variable {x : Rule} {a b : Addr}

theorem backstop_items_eq (h : equalItems x.items (backstopRule .v4 a).items = true) :
    x.items = (backstopRule .v4 a).items := Rule.items_eq h rfl rfl

theorem backstop_inj (h : (Item.src (Prefix.host a).masked) ∈ (backstopRule .v4 b).items) : a = b := by
  rw [Rule.mem_items_of_selector _ rfl] at h
  have hsrc : (backstopRule .v4 b).src = some (Prefix.host b) := rfl
  simp only [Rule.HasItem, hsrc, Option.some.injEq, exists_eq_left', Item.src.injEq, reduceCtorEq, and_false,
    exists_false, or_false, false_or, host_masked] at h
  exact congrArg Prefix.addr h

theorem mem_backstop_src (a : Addr) : Item.src (Prefix.host a).masked ∈ (backstopRule .v4 a).items := by
  rw [Rule.mem_items_of_selector _ rfl]
  exact .inr (.inr (.inl ⟨_, rfl, rfl⟩))

theorem taken_backstop (hx : equalItems x.items (backstopRule .v4 b).items = true)
    (h : deleteMatches (backstopRule .v4 a) x = true) : a = b := by
  by_contra hne
  exact src_ne_of_items hx rfl (Ne.symm hne) ((takenFor h).src _ rfl (host_bits_pos a))

theorem covered_backstop (h : coveredBy (backstopRule .v4 a) [backstopRule .v4 b] = true) : a = b := by
  obtain ⟨e, he, hcov⟩ := List.any_eq_true.1 h
  obtain rfl := List.mem_singleton.1 he
  rcases Bool.or_eq_true_iff.1 (Bool.and_eq_true_iff.1 hcov).2 with hsub | hdel
  · have := List.all_eq_true.1 hsub _ (mem_backstop_src a)
    exact backstop_inj (by simpa using this)
  · exact taken_backstop (equalItems_refl _) hdel

variable {k : Kern}

theorem backstopsClear_of (h : ∀ x ∈ k.rulesAt .v4 prioBackstop, ∃ a, x = backstopRule .v4 a)
    (hnodup : (k.rulesAt .v4 prioBackstop).Nodup) : BackstopsClear k where
  own b a ha hor := by
    obtain ⟨d, rfl⟩ := h a ha
    rcases hor with hcov | ⟨x, -, hx, hdel⟩
    · rw [covered_backstop hcov]
      exact equalItems_refl _
    · rw [taken_backstop hx hdel]
      exact equalItems_refl _
  once b := by
    have hinj : ((k.rulesAt .v4 prioBackstop).map Rule.itemSet).Nodup := by
      refine (List.nodup_map_iff_inj_on hnodup).2 fun x hx y hy hxy => ?_
      obtain ⟨a, rfl⟩ := h x hx
      obtain ⟨_, rfl⟩ := h y hy
      have heq := (equalItems_iff_itemSet _ _).2 hxy
      rw [backstop_inj (((equalItems_iff _ _).1 heq _).1 (mem_backstop_src a))]
    exact Multiset.nodup_iff_count_le_one.1 (Multiset.coe_nodup.2 hinj) _

/-! ### What holds between the changes of the address -/

section Backed

variable {c : Config} {k₀ k₁ : Kern}

/-- A rule of the start at 98, or a backstop. -/
def KnownBackstop (k₀ : Kern) (x : Rule) : Prop := x ∈ k₀.rulesAt .v4 prioBackstop ∨ ∃ a, x = backstopRule .v4 a

/-- The addresses are those of `k₁`, each on the tunnel has its backstop, and at 98 there
are only rules of the start and backstops, each once. -/
structure Backed (c : Config) (k₀ k₁ k : Kern) : Prop where
  familial : k.Familial
  links : k.links = k₁.links
  addrs : k.addrs = k₁.addrs
  known : ∀ x ∈ k.rulesAt .v4 prioBackstop, KnownBackstop k₀ x
  once : ∀ b, (itemsAt (k.rules .v4) prioBackstop).count (backstopRule .v4 b).itemSet ≤ 1
  backed : ∀ a, k₁.OnTunnel c a → k.has .v4 prioBackstop (backstopRule .v4 a)

theorem itemsAt_rules (k : Kern) (p : ℕ) : itemsAt (k.rules .v4) p = ((k.rulesAt .v4 p).map Rule.itemSet : List _) := rfl

theorem Backed.onTunnel (h : Backed c k₀ k₁ k) (a : Addr) : k.OnTunnel c a ↔ k₁.OnTunnel c a := by
  unfold Kern.OnTunnel Kern.link
  rw [h.links, h.addrs]

theorem Backed.shields (h : Backed c k₀ k₁ k) (ha : k.OnTunnel c a) : k.Shields c a :=
  .inl (.inr (h.backed a ((h.onTunnel a).1 ha)))

/-- Known rules that are taken for a backstop, or whose delete takes one, are that one. -/
theorem KnownBackstop.own (hclear : BackstopsClear k₀) {a : Rule} (ha : KnownBackstop k₀ a)
    (hx : KnownBackstop k₀ x) (hitems : equalItems x.items (backstopRule .v4 b).items = true)
    (h : deleteMatches a x = true) : equalItems a.items (backstopRule .v4 b).items = true := by
  rcases ha with ha | ⟨d, rfl⟩
  · refine hclear.own b a ha ?_
    rcases hx with hx | ⟨d, rfl⟩
    · exact .inr ⟨x, hx, hitems, h⟩
    · have hdb : d = b := backstop_inj (((equalItems_iff _ _).1 hitems _).1 (mem_backstop_src d))
      subst hdb
      simp [coveredBy, h, (takenFor h).priority]
  · rw [taken_backstop hitems h]
    exact equalItems_refl _

theorem KnownBackstop.covered (hclear : BackstopsClear k₀) {a : Rule} (ha : KnownBackstop k₀ a)
    (h : coveredBy a [backstopRule .v4 b] = true) : equalItems a.items (backstopRule .v4 b).items = true := by
  rcases ha with ha | ⟨d, rfl⟩
  · exact hclear.own b a ha (.inl h)
  · rw [covered_backstop h]
    exact equalItems_refl _

theorem Backed.of_same {k' : Kern} (h : Backed c k₀ k₁ k) (hfam : k'.Familial) (hlinks : k'.links = k.links)
    (haddrs : k'.addrs = k.addrs) (hrules : k'.rulesAt .v4 prioBackstop = k.rulesAt .v4 prioBackstop) :
    Backed c k₀ k₁ k' where
  familial := hfam
  links := hlinks.trans h.links
  addrs := haddrs.trans h.addrs
  known := hrules ▸ h.known
  once b := by
    rw [itemsAt_rules, hrules]
    exact h.once b
  backed a ha := (Kern.has_congr hrules).2 (h.backed a ha)

def OffBackstop (g : Family) (q : ℕ) : Prop := ¬ (g = .v4 ∧ q = prioBackstop)

theorem backed_limited (c : Config) (k₀ k₁ : Kern) :
    Limited (fun r => OffBackstop r.family r.priority) OffBackstop (Preserves (Backed c k₀ k₁)) where
  toChains := preserves_chains _
  add k r hr hk := hk.of_same (familial_limited.add k r trivial hk.familial) rfl rfl (by
    rw [k.rulesAt_withRule, if_neg fun h => hr ⟨h.1.symm, h.2.symm⟩])
  delete k r hr hk := hk.of_same (familial_limited.delete k r trivial hk.familial) rfl rfl (by
    rw [k.rulesAt_withoutRule, if_neg fun h => hr ⟨h.1.symm, h.2.symm⟩])
  clear k g q hq hk := hk.of_same (familial_limited.clear k g q trivial hk.familial) rfl rfl (by
    rw [k.rulesAt_withoutPriority, if_neg fun h => hq ⟨h.1.symm, h.2.symm⟩])
  route k r hk := hk.of_same hk.familial rfl rfl rfl
  unroute k r hk := hk.of_same hk.familial rfl rfl rfl

theorem Backed.withBackstop (h : Backed c k₀ k₁ k) (b : Addr)
    (hfresh : (k.rules .v4).any (sameButInvert (backstopRule .v4 b)) = false) :
    Backed c k₀ k₁ (k.withRule (backstopRule .v4 b)) := by
  have hat : (k.withRule (backstopRule .v4 b)).rulesAt .v4 prioBackstop =
      k.rulesAt .v4 prioBackstop ++ [backstopRule .v4 b] := by
    rw [k.rulesAt_withRule, if_pos ⟨rfl, rfl⟩]
  refine ⟨familial_limited.add k _ trivial h.familial, h.links, h.addrs, fun x hx => ?_, fun d => ?_,
    fun a ha => Kern.has_withRule (h.backed a ha) _⟩
  · rw [hat] at hx
    rcases List.mem_append.1 hx with hx | hx
    · exact h.known x hx
    · exact .inr ⟨b, List.mem_singleton.1 hx⟩
  · rw [itemsAt_rules, hat, List.map_append, ← Multiset.coe_add, Multiset.count_add, List.map_singleton,
      Multiset.coe_singleton, Multiset.count_singleton, ← itemsAt_rules]
    split_ifs with hd
    · have hnone : (itemsAt (k.rules .v4) prioBackstop).count (backstopRule .v4 d).itemSet = 0 := by
        rw [Multiset.count_eq_zero, mem_itemsAt]
        rintro ⟨x, hx, hprio, hitems⟩
        have heq := backstop_items_eq ((equalItems_iff_itemSet x (backstopRule .v4 b)).2 (hitems.trans hd))
        refine absurd (List.any_eq_false.1 hfresh x hx) (not_not.2 ?_)
        rw [sameButInvert, heq, hprio]
        simp [backstopRule, rejectRule]
      omega
    · exact h.once d

theorem addRule_backstop (b : Addr) :
    Along (Stepwise (Preserves (Backed c k₀ k₁))) (Tx.addRule quiet (backstopRule .v4 b)) := by
  intro tx
  refine (addRule_spec tx _).stepwise fun hfresh hk' => hk'.withBackstop b ?_
  cases hany : (tx.kernel.kern.rules .v4).any (sameButInvert (backstopRule .v4 b)) with
  | false => rfl
  | true => exact absurd (hfresh.symm.trans (if_pos hany)) nofun

theorem Backed.of_sublist {k' : Kern} (h : Backed c k₀ k₁ k) (hfam : k'.Familial) (hlinks : k'.links = k.links)
    (haddrs : k'.addrs = k.addrs) (hsub : (k'.rulesAt .v4 prioBackstop).Sublist (k.rulesAt .v4 prioBackstop))
    (hkept : ∀ a, k₁.OnTunnel c a → k'.has .v4 prioBackstop (backstopRule .v4 a)) : Backed c k₀ k₁ k' where
  familial := hfam
  links := hlinks.trans h.links
  addrs := haddrs.trans h.addrs
  known x hx := h.known x (hsub.subset hx)
  once b := (Multiset.count_le_of_le _ (Multiset.coe_le.2 (hsub.map Rule.itemSet).subperm)).trans (h.once b)
  backed := hkept

variable {r : Rule}

theorem Backed.withoutRule (h : Backed c k₀ k₁ k) (hspare : ∀ a, k₁.OnTunnel c a → ∀ x, KnownBackstop k₀ x →
      equalItems x.items (backstopRule .v4 a).items = true → deleteMatches r x = false) :
    Backed c k₀ k₁ (k.withoutRule r) := by
  refine h.of_sublist (familial_limited.delete k r trivial h.familial) rfl rfl ?_ fun a ha => ?_
  · rw [k.rulesAt_withoutRule]
    split_ifs
    · exact List.eraseP_sublist
    · exact List.Sublist.refl _
  · obtain ⟨x, hx, hitems⟩ := h.backed a ha
    refine ⟨x, ?_, hitems⟩
    rw [k.rulesAt_withoutRule]
    split_ifs
    · exact (List.mem_eraseP_of_neg (by simp [hspare a ha x (h.known x hx) hitems])).2 hx
    · exact hx

/-! ### A repair pass -/

section Pass

variable {spec s : Spec} {snap : Snapshot} {k : Kern}

theorem mem_returnPathPair (hg : c.isGluetun = false) :
    r ∈ returnPathPair c .v4 a ↔ r = returnPathRule c .v4 a ∨ r = backstopRule .v4 a := by
  simp [returnPathPair, hg, returnPathRule, backstopRule]

theorem expected_backstop {e : Rule} (hg : s.config.isGluetun = false) (he : e ∈ s.rules .v4)
    (hp : e.priority = prioBackstop) : ∃ a, e = backstopRule .v4 a := by
  obtain ⟨a, -, hpair⟩ := pair_of_mem (mem_rules he).2 (.inr hp)
  rcases (mem_returnPathPair hg).1 hpair with rfl | rfl
  · cases hp
  · exact ⟨a, rfl⟩

/-- A stable look shows the addresses on the tunnel, and their backstops are expected. -/
theorem backstop_expected (hg : s.config.isGluetun = false) (hl : s.leaveReturnPath .v4 = false)
    (hb : Backed s.config k₀ k₁ k) (hsees : Sees .v4 snap k) (hstable : snap.unstable = false)
    (ha : k₁.OnTunnel s.config a) : backstopRule .v4 a ∈ (s.effective snap .v4).rules .v4 := by
  obtain ⟨-, hlinks, haddrs⟩ := hsees.stable hstable
  obtain ⟨l, hlink, x, hx, hrest⟩ := (hb.onTunnel a).2 ha
  obtain ⟨hcfg, hl', hcov⟩ := effective_covers hg hl snap
  refine pair_mem_rules (hcfg ▸ not_gluetunSidecar hg) hl' (hcov a (.inr (mem_liveGlobals.2 ⟨l, ?_, x, ?_, hrest⟩)))
    ((mem_returnPathPair (hcfg ▸ hg)).2 (.inr rfl))
  · unfold Snapshot.link
    rw [hlinks]
    exact hlink
  · exact haddrs ▸ hx

variable (hc : spec.config.NativeOverlay) (hl : spec.leaveReturnPath .v4 = false) (hclear : BackstopsClear k₀)
  (hs : SpecOf spec s) (hb : Backed spec.config k₀ k₁ k) (hsees : Sees .v4 snap k)

include hc hl hs

theorem effective_leaves (snap : Snapshot) : (s.effective snap .v4).config = spec.config ∧
    ∀ p, (s.effective snap .v4).skipped .v4 p = false := by
  have hg : s.config.isGluetun = false := hs.config ▸ hc.not_gluetun
  have hl' : s.leaveReturnPath .v4 = false := hs.leaveReturnPath ▸ hl
  obtain ⟨hcfg, hleave, -⟩ := effective_covers hg hl' snap
  exact ⟨hcfg.trans hs.config, fun p => by simp [Spec.skipped, hleave]⟩

include hclear hb hsees

theorem no_rebuild (hstable : snap.unstable = false) :
    ¬ Rebuilt (s.effective snap .v4) .v4 (snap.rules .v4) prioBackstop := by
  obtain ⟨hcfg, hskip⟩ := effective_leaves hc hl hs snap
  have hg : (s.effective snap .v4).config.isGluetun = false := hcfg ▸ hc.not_gluetun
  have hrules := (hsees.stable hstable).1
  rintro ⟨-, x, hx, hprio, hcond⟩
  rw [hskip, if_neg (by decide)] at hcond
  obtain ⟨hcov, hcount⟩ := hcond
  obtain ⟨e, he, hcov⟩ := List.any_eq_true.1 hcov
  have hep : e.priority = prioBackstop := by
    rw [← hprio]
    simpa using (Bool.and_eq_true_iff.1 hcov).1
  obtain ⟨a, rfl⟩ := expected_backstop hg he hep
  have hknown := hb.known x (Kern.mem_rulesAt.2 ⟨hsees.rules hx, hprio⟩)
  have hitems := (equalItems_iff_itemSet _ _).1
    (hknown.covered hclear (List.any_eq_true.2 ⟨_, List.mem_singleton.2 rfl, hcov⟩))
  rw [hitems, hrules] at hcount
  have hone := hb.once a
  have hexp : 0 < (itemsAt ((s.effective snap .v4).rules .v4) prioBackstop).count (backstopRule .v4 a).itemSet :=
    Multiset.count_pos.2 (mem_itemsAt.2 ⟨_, he, hep, rfl⟩)
  omega

variable {d : Action}

theorem delete_spares (hstable : snap.unstable = false) (hd : d ∈ (planAll s snap .v4).rules)
    (hk : d.kind = .del) (hp : d.priority = prioBackstop) (ha : k₁.OnTunnel spec.config a)
    (hx : KnownBackstop k₀ x) (hitems : equalItems x.items (backstopRule .v4 a).items = true) :
    deleteMatches d.rule x = false := by
  rw [Bool.eq_false_iff]
  intro hdel
  obtain ⟨-, hskip⟩ := effective_leaves hc hl hs snap
  have hmem := hsees.rules (mem_of_diff_removal hd (by simp [hk]))
  have hprio : d.rule.priority = prioBackstop := (diff_priority hd).symm.trans hp
  have hknown := hb.known d.rule (Kern.mem_rulesAt.2 ⟨hmem, hprio⟩)
  have hexp : backstopRule .v4 a ∈ (s.effective snap .v4).rules .v4 :=
    backstop_expected (hs.config ▸ hc.not_gluetun) (hs.leaveReturnPath ▸ hl) (hs.config ▸ hb) hsees hstable
      (hs.config ▸ ha)
  have hno := not_deleted_of_expected hexp (hskip _) hd hk hp
  rw [hknown.own hclear hx hitems hdel] at hno
  cases hno

theorem backed_deleteRule (hstable : snap.unstable = false) (hd : d ∈ (planAll s snap .v4).rules)
    (hk : d.kind = .del) :
    Along (Stepwise (Preserves (Backed spec.config k₀ k₁))) (Tx.deleteRule quiet (planAll s snap .v4) d) := by
  have hc₀ := stepwise_chains (preserves_chains (Backed spec.config k₀ k₁))
  have hprio : d.priority = d.rule.priority := diff_priority hd
  by_cases hp : d.priority = prioBackstop
  · refine hc₀.bind (fun tx => (delRule_spec tx d.rule).stepwise fun _ hk' => hk'.withoutRule fun a ha x hx hitems =>
      delete_spares hc hl hclear hs hb hsees hstable hd hk hp ha hx hitems) fun x => ?_
    rcases x with ⟨-, _ | e⟩
    · exact hc₀.pure _
    · split_ifs with hcond
      · have hnone : ∀ a, ¬ k₁.OnTunnel spec.config a := by
          intro a ha
          have hexp := backstop_expected (hs.config ▸ hc.not_gluetun) (hs.leaveReturnPath ▸ hl) (hs.config ▸ hb)
            hsees hstable (hs.config ▸ ha)
          have hempty : (s.effective snap .v4).rulesAt .v4 prioBackstop = [] := by
            have := (Bool.and_eq_true_iff.1 (Bool.and_eq_true_iff.1 hcond).1).2
            rw [hp] at this
            exact List.isEmpty_iff.1 this
          have hin : backstopRule .v4 a ∈ (s.effective snap .v4).rulesAt .v4 prioBackstop :=
            List.mem_filter.2 ⟨hexp, rfl⟩
          rw [hempty] at hin
          cases hin
        intro tx
        refine (delRulePriority_spec tx _ _).stepwise fun _ hk' => hk'.of_sublist
          (familial_limited.clear _ _ _ trivial hk'.familial) rfl rfl ?_ fun a ha => absurd ha (hnone a)
        rw [Kern.rulesAt_withoutPriority]
        split_ifs
        · exact List.tail_sublist _
        · exact List.Sublist.refl _
      · exact hc₀.pure _
  · exact (backed_limited spec.config k₀ k₁).asks.deleteRule ⟨fun h => hp (hprio.trans h.2), fun h => hp h.2⟩

theorem backed_rebuild (hstable : snap.unstable = false) (hd : d ∈ (planAll s snap .v4).rules)
    (hk : d.kind = .sub) : LimitedRebuild (fun r => OffBackstop r.family r.priority)
      (fun r => OffBackstop r.family r.priority) OffBackstop .v4 d.priority
      ((planAll s snap .v4).wantAt d.priority) := by
  obtain ⟨hcfg, hskip⟩ := effective_leaves hc hl hs snap
  have hreb : Rebuilt (s.effective snap .v4) .v4 (snap.rules .v4) d.priority :=
    (exists_diff_sub d.priority).1 ⟨d, hd, hk, rfl⟩
  have hne : d.priority ≠ prioBackstop := fun h =>
    no_rebuild hc hl hclear hs hb hsees hstable (h ▸ hreb)
  obtain ⟨e, he, hep⟩ : ∃ e ∈ (s.effective snap .v4).rules .v4, e.priority = d.priority := by
    rcases rebuilt_expected hreb with h | h
    · rw [hskip] at h
      cases h
    · exact h.2
  have hpm := (hcfg ▸ addedRule_of_mem (mem_rules he).2).priority_mem
  unfold Config.priorities at hpm
  rw [if_neg (by simp [hc.not_sidecar]), if_neg (by simp [hc.not_gluetun]), hep] at hpm
  have hrange : 1 ≤ d.priority ∧ d.priority ≤ prioBackstop :=
    (by decide : ∀ q ∈ [1, 80, 90, 94, 95, 96, 97, 98], 1 ≤ q ∧ q ≤ prioBackstop) _ hpm
  have hwant : ∀ w ∈ (planAll s snap .v4).wantAt d.priority, w.priority = d.priority := by
    intro w hw
    unfold Plan.wantAt at hw
    split_ifs at hw <;> simpa using (List.mem_filter.1 hw).2
  unfold prioBackstop at hne hrange
  have hcopy : (d.priority + (2 ^ 32 - 1)) % 2 ^ 32 ≠ 98 := by omega
  exact ⟨fun w hw h => hne ((hwant w hw).symm.trans h.2), fun w _ h => hcopy h.2, fun h => hne h.2,
    fun w _ h => hcopy h.2⟩

theorem backed_allows :
    Allows (Stepwise (Preserves (Backed spec.config k₀ k₁))) (planAll s snap .v4) (!snap.unstable) where
  toNeutral := neutral_stepwise (preserves_chains _)
  add a ha hk := by
    obtain ⟨hcfg, hskip⟩ := effective_leaves hc hl hs snap
    by_cases hat : a.rule.family = .v4 ∧ a.rule.priority = prioBackstop
    · have hexp : a.rule ∈ (s.effective snap .v4).rules .v4 := by
        rcases diff_add ha hk with h | h
        · exact h
        · have := (mem_leftReturnPath h).1
          rw [hskip] at this
          cases this
      obtain ⟨b, hb'⟩ := expected_backstop (hcfg ▸ hc.not_gluetun) hexp hat.2
      rw [hb']
      exact addRule_backstop b
    · exact (backed_limited spec.config k₀ k₁).asks.addRule hat
  rebuild hr a ha hk := (backed_limited spec.config k₀ k₁).asks.rebuild
    (backed_rebuild hc hl hclear hs hb hsees (by simpa using hr) ha hk)
  delete hr a ha hk := backed_deleteRule hc hl hclear hs hb hsees (by simpa using hr) ha hk
  route _ _ _ := (backed_limited spec.config k₀ k₁).replaceRoute _
  unroute _ _ := (backed_limited spec.config k₀ k₁).delRoute _
  host _ st := (neutral_stepwise (preserves_chains _)).refreshHost
    (backed_limited spec.config k₀ k₁).replaceRoute (backed_limited spec.config k₀ k₁).delRoute _ st

end Pass

/-! ### Along the change -/

section Change

variable {spec : Spec}

/-- The owner's state along the change: what is expected, the backstops of `k₁`'s addresses,
and every address shielded after every change so far. -/
structure Shielding (spec : Spec) (k₀ k₁ : Kern) (tx : Tx Quiet) : Prop where
  expects : SpecOf spec tx.spec
  backed : Backed spec.config k₀ k₁ tx.kernel.kern
  past : ∀ k ∈ tx.kernel.past, ∀ a, k.OnTunnel spec.config a → k.Shields spec.config a

variable {tx tx' : Tx Quiet} {P : Tx Quiet → Prop}

theorem Shielding.stepwise (h : Shielding spec k₀ k₁ tx)
    (hs : Stepwise (Preserves (Backed spec.config k₀ k₁)) tx tx') : Shielding spec k₀ k₁ tx' := by
  have hlast := hs.last (preserves_chains _) h.backed
  obtain ⟨_, hsince, hks⟩ := hs
  refine ⟨hsince.spec ▸ h.expects, hlast, fun k hk a ha => ?_⟩
  rw [hsince.past, List.mem_append, List.mem_reverse] at hk
  rcases hk with hk | hk
  · exact (hks k hk h.backed).shields ha
  · exact h.past k hk a ha

theorem Shielding.idle (h : Shielding spec k₀ k₁ tx) (hi : Idle tx tx') :
    Shielding spec k₀ k₁ tx' := h.stepwise hi.stepwise

theorem Shielding.respec {spec' : Spec} (h : Shielding spec k₀ k₁ tx)
    (hcfg : spec'.config = spec.config) : Shielding spec' k₀ k₁ { tx with spec := spec' } :=
  ⟨⟨rfl, rfl, rfl⟩, hcfg ▸ h.backed, hcfg ▸ h.past⟩

theorem ensures_shielding {β : Type} {x : TxM Quiet β}
    (h : Along (Stepwise (Preserves (Backed spec.config k₀ k₁))) x) :
    Ensures (Shielding spec k₀ k₁) x fun _ => Shielding spec k₀ k₁ := fun tx hd => hd.stepwise (h tx)

theorem upheld_shielding (hc : spec.config.NativeOverlay) (hl : spec.leaveReturnPath .v4 = false)
    (hclear : BackstopsClear k₀) : Upheld spec (Shielding spec k₀ k₁) where
  expects h := h.expects
  familial h := h.backed.familial
  idle hi h := h.idle hi
  respec hs h := ⟨hs, h.backed, h.past⟩
  guard g hs := by
    rw [guardRule_eq (hs.config ▸ hc)]
    exact ensures_shielding ((backed_limited spec.config k₀ k₁).asks.addRule fun h => (nomatch h.2))
  unguard g hs := by
    rw [guardRule_eq (hs.config ▸ hc)]
    exact ensures_shielding ((backed_limited spec.config k₀ k₁).asks.delRule fun h => (nomatch h.2))
  apply {s snap} g hs := by
    rintro tx ⟨h, hsees⟩
    cases g with
    | v4 => exact h.stepwise ((backed_allows hc hl hclear hs h.backed hsees).apply tx)
    | v6 =>
      have hfamilial : ∀ r ∈ snap.rules .v6, r.family = .v6 := fun r hr => h.backed.familial .v6 r (hsees.rules hr)
      obtain ⟨hrules, hwant⟩ := plan_familial hfamilial
      have hoff : ∀ r : Rule, r.family = .v6 → ∀ q, OffBackstop r.family q := by
        rintro r hr q ⟨h4, -⟩
        rw [hr] at h4
        cases h4
      refine h.stepwise (((backed_limited spec.config k₀ k₁).allows ⟨fun a ha _ => hoff _ (hrules a ha) _,
        fun a _ _ => ⟨fun w hw => hoff w (hwant _ w hw) _, fun w hw => hoff w (hwant _ w hw) _, fun h => (nomatch h.1),
          fun w hw => hoff w (hwant _ w hw) _⟩, fun a ha _ => ⟨hoff _ (hrules a ha) _, fun h => (nomatch h.1)⟩⟩ _).apply tx)

theorem shielding_reconcile (hc : spec.config.NativeOverlay) (hl : spec.leaveReturnPath .v4 = false)
    (hclear : BackstopsClear k₀) (guardRepairs : Bool) (reason : String) :
    Ensures (Shielding spec k₀ k₁) (Tx.reconcile quiet guardRepairs reason)
      fun res tx => Shielding spec k₀ k₁ tx ∧ Verified res tx := by
  intro tx h
  have hside : tx.spec.config.isGluetunSidecar = false := by
    rw [h.expects.config]
    exact hc.not_gluetunSidecar
  exact ⟨(upheld_shielding hc hl hclear).reconcile (fun _ => hc.kind) reason tx h, verified_reconcile reason tx hside⟩

theorem Shielding.paired {res : PassResult} (h : Shielding spec k₀ k₁ tx)
    (hc : spec.config.NativeOverlay) (hl : spec.leaveReturnPath .v4 = false) (hv : Verified res tx)
    (hres : res.contractHolds = true)
    (ha : a ∈ spec.returnPath .v4 ∨ tx.kernel.kern.OnTunnel spec.config a) : tx.kernel.kern.Paired spec.config a := by
  have hg : tx.spec.config.isGluetun = false := by
    rw [h.expects.config]
    exact hc.not_gluetun
  have hmem : a ∈ tx.spec.returnPath .v4 ∨ a ∈ liveGlobals (tx.kernel.kern.view []) tx.spec.config.exitIf .v4 := by
    rw [h.expects.returnPath, h.expects.config]
    refine ha.imp_right fun ⟨l, hlink, x, hx, hrest⟩ => mem_liveGlobals.2 ⟨l, hlink, x, hx, hrest⟩
  have hleave : tx.spec.leaveReturnPath .v4 = false := by rw [h.expects.leaveReturnPath, hl]
  have hpair : ∀ e ∈ returnPathPair tx.spec.config .v4 a, tx.kernel.kern.has .v4 e.priority e := fun e he =>
    pair_stands hg hleave (hv hres) hmem he
  rw [h.expects.config] at hpair hg
  exact ⟨hpair _ ((mem_returnPathPair hg).2 (.inl rfl)), hpair _ ((mem_returnPathPair hg).2 (.inr rfl))⟩

/-! ### The callback -/

/-- A step that can stop: what holds in any case, and what holds if it did not. -/
def Stops (W Q : Tx Quiet → Prop) (e : Option JobError) (tx : Tx Quiet) : Prop := W tx ∧ (e = none → Q tx)

theorem ensures_needing {α : Type} {Q : α → Tx Quiet → Prop}
    {x : TxM Quiet (Except JobError α)} {next : α → TxM Quiet (Option JobError)}
    (hx : Ensures P x fun r tx => W tx ∧ ∀ a, r = .ok a → Q a tx) (hn : ∀ a, Ensures (Q a) (next a) (Stops W S)) :
    Ensures P (Tx.needing x next) (Stops W S) := by
  refine hx.bind fun r => ?_
  cases r with
  | error e => exact .pure fun tx h => ⟨h.1, fun he => by cases he⟩
  | ok a => exact fun tx h => hn a tx (h.2 a rfl)

theorem ensures_followed {Q : Tx Quiet → Prop} {x next : TxM Quiet (Option JobError)}
    (hx : Ensures P x (Stops W Q)) (hn : Ensures Q next (Stops W S)) : Ensures P (Tx.followed x next) (Stops W S) := by
  refine hx.bind fun e => ?_
  cases e with
  | some e => exact .pure fun tx h => ⟨h.1, fun he => by cases he⟩
  | none => exact fun tx h => hn tx (h.2 rfl)

/-- A request for an address: it fails and nothing changes, or the change is made. -/
theorem ensures_submitAddr {Q : Option RtErr → Tx Quiet → Prop} {refused : Kern → Option RtErr}
    (hidle : ∀ tx tx' e, P tx → Idle tx tx' → (e = .exist ∨ e = .notExist → refused tx.kernel.kern = some e) →
      Q (some e) tx')
    (hmade : ∀ tx tx', P tx → Made change tx tx' → refused tx.kernel.kern = none → Q none tx') :
    Ensures P (ask (Quiet.submitAddr refused change)) Q := by
  intro tx h
  unfold ask Quiet.submitAddr
  cases hf : tx.kernel.answer.fault with
  | some e =>
    refine hidle tx _ e.failure h ⟨rfl, rfl, rfl, rfl, rfl⟩ fun he => ?_
    cases e <;> simp [RtErr.failure] at he
  | none =>
    cases hr : refused tx.kernel.kern with
    | some e => exact hidle tx _ e h ⟨rfl, rfl, rfl, rfl, rfl⟩ fun _ => hr
    | none => exact hmade tx _ h ⟨rfl, rfl, rfl, rfl, rfl⟩ hr

theorem Kern.withAddr_rules (k : Kern) (re : Rerouting) (name : String) (a : Addr) :
    (k.withAddr re name a).rules = k.rules ∧ (k.withAddr re name a).links = k.links := by
  unfold Kern.withAddr
  cases k.link name <;> exact ⟨rfl, rfl⟩

theorem Kern.withoutAddr_rules (k : Kern) (re : Rerouting) (name : String) (a : Addr) :
    (k.withoutAddr re name a).rules = k.rules ∧ (k.withoutAddr re name a).links = k.links := by
  unfold Kern.withoutAddr
  cases k.link name <;> exact ⟨rfl, rfl⟩

theorem Kern.readdress_addrs (k : Kern) (re : Rerouting) (index : ℕ) (f : Family) (addrs : List IfAddr) :
    (k.readdress re index f addrs).addrs f = addrs := by
  simp [Kern.readdress]

/-- The addresses change, and each that is then on the tunnel has its backstop. -/
theorem Shielding.moved (h : Shielding spec k₀ k₁ tx)
    (hm : Made change tx tx') (hrules : (change tx.kernel.kern).rules = tx.kernel.kern.rules)
    (hon : ∀ a, (change tx.kernel.kern).OnTunnel spec.config a →
      tx.kernel.kern.has .v4 prioBackstop (backstopRule .v4 a)) :
    Shielding spec k₀ (change tx.kernel.kern) tx' := by
  have hat : (change tx.kernel.kern).rulesAt .v4 prioBackstop = tx.kernel.kern.rulesAt .v4 prioBackstop := by
    unfold Kern.rulesAt
    rw [hrules]
  have hbacked : Backed spec.config k₀ (change tx.kernel.kern) (change tx.kernel.kern) := by
    refine ⟨fun g r hr => h.backed.familial g r (hrules ▸ hr), rfl, rfl, hat ▸ h.backed.known, fun b => ?_,
      fun a ha => (Kern.has_congr hat).2 (hon a ha)⟩
    rw [hrules]
    exact h.backed.once b
  refine ⟨hm.spec ▸ h.expects, hm.kern ▸ hbacked, fun k hk a ha => ?_⟩
  rw [hm.past] at hk
  rcases List.mem_cons.1 hk with rfl | hk
  · exact hbacked.shields ha
  · exact h.past k hk a ha

section Callback

variable {initial : Spec} {re : Rerouting} {old : Option Addr} {new : Addr}

/-- Whatever happened: the addresses that are on the tunnel are shielded. -/
def Safe (spec : Spec) (k₀ : Kern) (tx : Tx Quiet) : Prop := ∃ k₁, Shielding spec k₀ k₁ tx

/-- Before the address changes: the new address has its backstop. -/
structure Ready (spec : Spec) (k₀ : Kern) (new : Addr) (tx : Tx Quiet) : Prop where
  shielding : Shielding spec k₀ k₀ tx
  backstop : tx.kernel.kern.has .v4 prioBackstop (backstopRule .v4 new)

/-- The new address is on the tunnel, and no other than the old one. -/
def Joined (spec : Spec) (k₀ : Kern) (old : Option Addr) (new : Addr) (tx : Tx Quiet) : Prop :=
  ∃ k₁, Shielding spec k₀ k₁ tx ∧ k₁.OnTunnel spec.config new ∧ OldOrNew spec.config old new k₁

def Alone (spec : Spec) (k₀ : Kern) (new : Addr) (tx : Tx Quiet) : Prop :=
  ∃ k₁, Shielding spec k₀ k₁ tx ∧ k₁.OnTunnel spec.config new ∧ ∀ a, k₁.OnTunnel spec.config a → a = new

theorem Ready.idle (h : Ready spec k₀ new tx) (hi : Idle tx tx') : Ready spec k₀ new tx' :=
  ⟨h.shielding.idle hi, hi.kern ▸ h.backstop⟩

theorem Ready.safe (h : Ready spec k₀ new tx) : Safe spec k₀ tx := ⟨k₀, h.shielding⟩

theorem Alone.safe (h : Alone spec k₀ new tx) : Safe spec k₀ tx := h.imp fun _ h => h.1

theorem Alone.stepwise (h : Alone spec k₀ new tx) (hs : ∀ k₁, (∀ a, k₁.OnTunnel spec.config a → a = new) →
      Stepwise (Preserves (Backed spec.config k₀ k₁)) tx tx') : Alone spec k₀ new tx' := by
  obtain ⟨k₁, hsh, hon, honly⟩ := h
  exact ⟨k₁, hsh.stepwise (hs k₁ honly), hon, honly⟩

theorem idle_sourcesAt (p : ℕ) : Along Idle (Tx.sourcesAt quiet p) := by
  refine idle_chains.bind idle_snapshot fun x => ?_
  cases x <;> exact idle_chains.pure _

theorem ready_sourcesAt (p : ℕ) : Ensures (Ready spec k₀ new) (Tx.sourcesAt quiet p)
    fun r tx => Safe spec k₀ tx ∧ ∀ a, r = .ok a → Ready spec k₀ new tx := by
  intro tx h
  have := h.idle (idle_sourcesAt p tx)
  exact ⟨this.safe, fun _ _ => this⟩

variable {p : ℕ}

theorem returnPathRule_of_ok (h : Tx.returnPathRule initial p a = .ok r) :
    r ∈ returnPathPair initial.config .v4 a := by
  unfold Tx.returnPathRule at h
  split_ifs at h
  dsimp only at h
  split at h
  · rename_i x hx
    obtain rfl := Except.ok.inj h
    have hmem : x ∈ [x] := List.mem_singleton.2 rfl
    rw [← hx] at hmem
    obtain ⟨hrule, hprio⟩ := List.mem_filter.1 hmem
    obtain ⟨b, hb, hpair⟩ := pair_of_mem (mem_rules hrule).2 (by
      rw [beq_iff_eq] at hprio
      rw [hprio]
      tauto)
    obtain rfl : b = a := by simpa using hb
    exact hpair
  · cases h

variable (hc : spec.config.NativeOverlay) (hinit : initial.config = spec.config)

include hc hinit

theorem pairRule_cases (h : Tx.returnPathRule initial p a = .ok r) :
    OffBackstop r.family r.priority ∨ r = backstopRule .v4 a := by
  have hg : initial.config.isGluetun = false := hinit ▸ hc.not_gluetun
  rcases (mem_returnPathPair hg).1 (returnPathRule_of_ok h) with rfl | rfl
  · exact .inl fun h => (nomatch h.2)
  · exact .inr rfl

theorem ready_add (p : ℕ) (a : Addr) :
    Ensures (Ready spec k₀ new) (Tx.addReturnPathRule quiet initial p a) (Stops (Safe spec k₀) (Ready spec k₀ new)) := by
  intro tx h
  suffices Ready spec k₀ new (Tx.addReturnPathRule quiet initial p a tx).2 from ⟨this.safe, fun _ => this⟩
  unfold Tx.addReturnPathRule
  cases hr : Tx.returnPathRule initial p a with
  | error e => exact h
  | ok r =>
    have hstep : Stepwise (Preserves (Backed spec.config k₀ k₀)) tx (Tx.addRule quiet r tx).2 := by
      rcases pairRule_cases hc hinit hr with hoff | rfl
      · exact (backed_limited spec.config k₀ k₀).asks.addRule hoff tx
      · exact addRule_backstop a tx
    refine ⟨h.shielding.stepwise hstep, ?_⟩
    change (Tx.addRule quiet r tx).2.kernel.kern.has _ _ _
    have hans := addRule_spec tx r
    cases hm : (Tx.addRule quiet r tx).1.1 with
    | true =>
      rw [(hans.made hm).2.1.kern]
      exact Kern.has_withRule h.backstop r
    | false =>
      rw [(hans.idle hm).kern]
      exact h.backstop

theorem alone_delete {d : Addr} (hd : d ≠ new) :
    Ensures (Alone spec k₀ new) (Tx.deleteReturnPathRule quiet initial p d)
      (Stops (Safe spec k₀) (Alone spec k₀ new)) := by
  intro tx h
  suffices Alone spec k₀ new (Tx.deleteReturnPathRule quiet initial p d tx).2 from ⟨this.safe, fun _ => this⟩
  unfold Tx.deleteReturnPathRule
  cases hr : Tx.returnPathRule initial p d with
  | error e => exact h
  | ok r =>
    refine h.stepwise fun k₁ honly => ?_
    rcases pairRule_cases hc hinit hr with hoff | rfl
    · exact (backed_limited spec.config k₀ k₁).asks.delRule hoff tx
    · refine (delRule_spec tx _).stepwise fun _ hk' => hk'.withoutRule fun a ha x _ hitems => ?_
      rw [Bool.eq_false_iff]
      intro hdel
      exact hd ((taken_backstop hitems hdel).trans (honly a ha))

theorem alone_deleteOthers (l : List (ℕ × Addr)) :
    Ensures (Alone spec k₀ new) (Tx.deleteOthers quiet initial new l) (Stops (Safe spec k₀) (Alone spec k₀ new)) := by
  induction l with
  | nil => exact .pure fun tx h => ⟨h.safe, fun _ => h⟩
  | cons x t ih =>
    unfold Tx.deleteOthers
    split_ifs with hd
    · exact ih
    · exact ensures_followed (alone_delete hc hinit hd) ih

omit hc hinit in
theorem alone_replaceExitDefaultRoute :
    Ensures (Alone spec k₀ new) (Tx.replaceExitDefaultRoute quiet initial)
      (Stops (Safe spec k₀) (Alone spec k₀ new)) := by
  intro tx h
  suffices Alone spec k₀ new (Tx.replaceExitDefaultRoute quiet initial tx).2 from ⟨this.safe, fun _ => this⟩
  refine h.stepwise fun k₁ _ => ?_
  have hn := neutral_stepwise (preserves_chains (Backed spec.config k₀ k₁))
  refine hn.toChains.bind (fun tx => (idle_snapshot tx).stepwise) (fun x => ?_) tx
  cases x with
  | error e => exact hn.toChains.pure _
  | ok snap =>
    dsimp only
    cases snap.link initial.config.exitIf with
    | none => exact hn.toChains.pure _
    | some l => exact hn.toChains.bind ((backed_limited spec.config k₀ k₁).replaceRoute _) fun _ => hn.toChains.pure _

omit hc in
theorem ready_replaceTunnelAddress (hv4 : new.fam = .v4) (hmov : Movable spec.config old new k₀) :
    Ensures (Ready spec k₀ new) (Tx.replaceTunnelAddress (quietTunnel re) initial new)
      (Stops (Safe spec k₀) (Joined spec k₀ old new)) := by
  unfold Tx.replaceTunnelAddress
  rw [hinit]
  refine Ensures.bind (Q := fun x tx => Safe spec k₀ tx ∧ (x = none ∨ x = some .exist → Joined spec k₀ old new tx))
    (ensures_submitAddr (fun tx tx' e h hidle hdenied => ?_) fun tx tx' h hm hok => ?_) fun x => ?_
  · refine ⟨(h.idle hidle).safe, fun he => ?_⟩
    -- it is there already, as a global address
    have he : e = .exist := by simpa using he
    have hb := h.shielding.backed
    have hheld := hdenied (Or.inl he)
    cases hlink : tx.kernel.kern.link spec.config.exitIf with
    | none =>
      rw [hlink, he] at hheld
      cases hheld
    | some l =>
      rw [hlink, Option.elim_some] at hheld
      split_ifs at hheld with hholds
      · have hlink₀ : k₀.link spec.config.exitIf = some l := by
          unfold Kern.link at hlink ⊢
          rw [← hb.links]
          exact hlink
        unfold Kern.holds at hholds
        obtain ⟨x, hx, heq⟩ := List.any_eq_true.1 hholds
        rw [hv4, hb.addrs] at hx
        obtain ⟨hindex, hloc⟩ : x.index = l.index ∧ x.loc = Prefix.host new := by simpa using heq
        exact ⟨k₀, h.shielding.idle hidle, ⟨l, hlink₀, x, hx, hindex, hmov.scope l hlink₀ x hx hindex hloc,
          by rw [hloc]; rfl⟩, hmov.only⟩
  · have hb := h.shielding.backed
    cases hlink : tx.kernel.kern.link spec.config.exitIf with
    | none =>
      rw [hlink] at hok
      cases hok
    | some l =>
      have hchange : tx.kernel.kern.withAddr re spec.config.exitIf new = tx.kernel.kern.readdress re l.index new.fam
          (tx.kernel.kern.addrs new.fam ++ [⟨new.fam, l.index, Prefix.host new, rtScopeUniverse⟩]) := by
        unfold Kern.withAddr
        rw [hlink, Option.elim_some]
      have haddrs : (tx.kernel.kern.withAddr re spec.config.exitIf new).addrs .v4 =
          k₀.addrs .v4 ++ [⟨.v4, l.index, Prefix.host new, rtScopeUniverse⟩] := by
        rw [hchange, hv4, ← hb.addrs, Kern.readdress_addrs]
      have hlink' : (tx.kernel.kern.withAddr re spec.config.exitIf new).link spec.config.exitIf = some l := by
        unfold Kern.link
        rw [(Kern.withAddr_rules _ _ _ _).2]
        exact hlink
      have hlink₀ : k₀.link spec.config.exitIf = some l := by
        unfold Kern.link at hlink ⊢
        rw [← hb.links]
        exact hlink
      have hmoved := h.shielding.moved hm (Kern.withAddr_rules _ _ _ _).1 (by
        rintro a ⟨l', hl', x, hx, hrest⟩
        obtain rfl : l = l' := Option.some.inj (hlink'.symm.trans hl')
        rw [haddrs] at hx
        rcases List.mem_append.1 hx with hx | hx
        · exact hb.backed a ⟨l, hlink₀, x, hx, hrest⟩
        · obtain rfl := List.mem_singleton.1 hx
          obtain rfl : new = a := hrest.2.2
          exact h.backstop)
      refine ⟨⟨_, hmoved⟩, fun _ => ⟨_, hmoved, ⟨l, hlink', ⟨.v4, l.index, Prefix.host new, rtScopeUniverse⟩,
        ?_, rfl, rfl, rfl⟩, fun l' hl' x hx hi hg => ?_⟩⟩
      · rw [haddrs]
        exact List.mem_append_right _ (List.mem_singleton.2 rfl)
      · obtain rfl : l = l' := Option.some.inj (hlink'.symm.trans hl')
        rw [haddrs] at hx
        rcases List.mem_append.1 hx with hx | hx
        · exact hmov.only l hlink₀ x hx hi hg
        · rw [List.mem_singleton.1 hx]
          exact Or.inl rfl
  · rcases x with _ | e
    · exact .pure fun tx h => ⟨h.1, fun _ => h.2 (Or.inl rfl)⟩
    · cases e
      case exist => exact .pure fun tx h => ⟨h.1, fun _ => h.2 (Or.inr rfl)⟩
      all_goals exact .pure fun tx h => ⟨h.1, fun he => by cases he⟩

omit hc in
theorem joined_deleteTunnelAddress {o : Addr} (hv4 : o.fam = .v4) (hold : old = some o) (hne : o ≠ new) :
    Ensures (Joined spec k₀ old new) (Tx.deleteTunnelAddress (quietTunnel re) initial o)
      (Stops (Safe spec k₀) (Alone spec k₀ new)) := by
  unfold Tx.deleteTunnelAddress
  rw [hinit]
  refine Ensures.bind (Q := fun x tx => Safe spec k₀ tx ∧ (x = none ∨ x = some .notExist → Alone spec k₀ new tx))
    (ensures_submitAddr (fun tx tx' e h hidle hdenied => ?_) fun tx tx' h hm hok => ?_) fun x => ?_
  · obtain ⟨k₁, hsh, -, -⟩ := h
    refine ⟨⟨k₁, hsh.idle hidle⟩, fun he => ?_⟩
    have he : e = .notExist := by simpa using he
    have hheld := hdenied (Or.inr he)
    cases hlink : tx.kernel.kern.link spec.config.exitIf with
    | none =>
      rw [hlink, he] at hheld
      cases hheld
    | some l =>
      rw [hlink, Option.elim_some, he] at hheld
      split_ifs at hheld
      cases hheld
  · obtain ⟨k₁, hsh, ⟨l, hlink₁, y, hy, hindex, hglobal, haddr⟩, honly⟩ := h
    have hb := hsh.backed
    have hlink : tx.kernel.kern.link spec.config.exitIf = some l := by
      unfold Kern.link at hlink₁ ⊢
      rw [hb.links]
      exact hlink₁
    have haddrs : (tx.kernel.kern.withoutAddr re spec.config.exitIf o).addrs .v4 =
        (k₁.addrs .v4).filter fun a => !(a.index == l.index && a.loc == Prefix.host o) := by
      unfold Kern.withoutAddr
      rw [hlink, Option.elim_some, hv4, ← hb.addrs, Kern.readdress_addrs]
    have hlink' : (tx.kernel.kern.withoutAddr re spec.config.exitIf o).link spec.config.exitIf = some l := by
      unfold Kern.link
      rw [(Kern.withoutAddr_rules _ _ _ _).2]
      exact hlink
    have hleft : ∀ a, (tx.kernel.kern.withoutAddr re spec.config.exitIf o).OnTunnel spec.config a →
        k₁.OnTunnel spec.config a ∧ a = new := by
      rintro a ⟨l', hl', x, hx, hxi, hxg, rfl⟩
      obtain rfl : l = l' := Option.some.inj (hlink'.symm.trans hl')
      rw [haddrs] at hx
      obtain ⟨hx, hkept⟩ := List.mem_filter.1 hx
      refine ⟨⟨l, hlink₁, x, hx, hxi, hxg, rfl⟩, ?_⟩
      rcases honly l hlink₁ x hx hxi hxg with hn | ⟨o', ho', hloc⟩
      · exact hn
      · obtain rfl : o = o' := Option.some.inj (hold.symm.trans ho')
        simp [hxi, hloc] at hkept
    have hmoved := hsh.moved hm (Kern.withoutAddr_rules _ _ _ _).1 fun a ha => hb.backed a (hleft a ha).1
    refine ⟨⟨_, hmoved⟩, fun _ => ⟨_, hmoved, ⟨l, hlink', y, ?_, hindex, hglobal, haddr⟩, fun a ha => (hleft a ha).2⟩⟩
    rw [haddrs]
    refine List.mem_filter.2 ⟨hy, ?_⟩
    have hloc : y.loc ≠ Prefix.host o := by
      intro hloc
      rw [hloc] at haddr
      exact hne haddr
    simp [hloc]
  · rcases x with _ | e
    · exact .pure fun tx h => ⟨h.1, fun _ => h.2 (Or.inl rfl)⟩
    · cases e
      case notExist => exact .pure fun tx h => ⟨h.1, fun _ => h.2 (Or.inr rfl)⟩
      all_goals exact .pure fun tx h => ⟨h.1, fun he => by cases he⟩

omit hc hinit in
theorem Joined.alone (h : Joined spec k₀ old new tx) (hold : ∀ o, old = some o → o = new) :
    Alone spec k₀ new tx := by
  obtain ⟨k₁, hsh, hon, honly⟩ := h
  refine ⟨k₁, hsh, hon, ?_⟩
  rintro a ⟨l, hl, x, hx, hi, hg, rfl⟩
  rcases honly l hl x hx hi hg with hn | ⟨o, ho, hloc⟩
  · exact hn
  · rw [hloc, ← hold o ho]
    rfl

theorem ready_moveAddress (hv4 : new.fam = .v4) (hold4 : ∀ o, old = some o → o.fam = .v4)
    (hmov : Movable spec.config old new k₀) (old94 old98 : List Addr) :
    Ensures (Ready spec k₀ new) (Tx.moveAddress quiet (quietTunnel re) initial old new old94 old98)
      (Stops (Safe spec k₀) (Alone spec k₀ new)) := by
  refine ensures_followed (ready_replaceTunnelAddress hinit hv4 hmov) (ensures_followed ?_
    (ensures_followed alone_replaceExitDefaultRoute (alone_deleteOthers hc hinit _)))
  have hstay : (∀ o, old = some o → o = new) → Ensures (Joined spec k₀ old new) (pure none)
      (Stops (Safe spec k₀) (Alone spec k₀ new)) := fun hold =>
    .pure fun tx h => ⟨(h.alone hold).safe, fun _ => h.alone hold⟩
  cases old with
  | none => exact hstay (by simp)
  | some o =>
    dsimp only
    split_ifs with hne
    · exact hstay (by simp [hne])
    · exact joined_deleteTunnelAddress hinit (hold4 o rfl) rfl hne

theorem ready_changePIAAddress (hv4 : new.fam = .v4) (hold4 : ∀ o, old = some o → o.fam = .v4)
    (hmov : Movable spec.config old new k₀) :
    Ensures (Ready spec k₀ new) (Tx.changePIAAddress quiet (quietTunnel re) initial old new)
      (Stops (Safe spec k₀) (Alone spec k₀ new)) := by
  have hpass : Ensures (Ready spec k₀ new) (pure none) (Stops (Safe spec k₀) (Ready spec k₀ new)) :=
    .pure fun tx h => ⟨h.safe, fun _ => h⟩
  have hadd : ∀ (found : List Addr) p, Ensures (Ready spec k₀ new)
      (if found.contains new then pure none else Tx.addReturnPathRule quiet initial p new)
      (Stops (Safe spec k₀) (Ready spec k₀ new)) := by
    intro found p
    split_ifs
    · exact hpass
    · exact ready_add hc hinit p new
  refine ensures_needing (ready_sourcesAt _) fun old94 => ensures_needing (ready_sourcesAt _) fun old98 =>
    ensures_followed (hadd _ _) (ensures_followed (hadd _ _) (ensures_needing (ready_sourcesAt _) fun now94 =>
      ensures_needing (ready_sourcesAt _) fun now98 => ?_))
  split_ifs
  · exact .pure fun tx h => ⟨h.safe, fun he => by cases he⟩
  · exact ready_moveAddress hc hinit hv4 hold4 hmov _ _

end Callback

/-! ### The transaction -/

section Transaction

variable {initial : Spec} {re : Rerouting} {old : Option Addr} {new : Addr} (hc : spec.config.NativeOverlay)
  (hl : spec.leaveReturnPath .v4 = false) (hclear : BackstopsClear k₀)

include hc hl hclear

theorem alone_changed {change : TxM Quiet (Option JobError)} (guardRepairs : Bool)
    (hchange : Ensures (Ready spec k₀ new) change (Stops (Safe spec k₀) (Alone spec k₀ new))) :
    Ensures (Ready spec k₀ new) (Tx.changed quiet guardRepairs .v4 change)
      (Stops (Safe spec k₀) (Alone spec k₀ new)) := by
  refine ensures_followed hchange (Ensures.bind (fun tx h => ?_) fun res =>
    .pure fun tx h => ⟨h.safe, fun _ => h⟩)
  obtain ⟨k₁, hsh, hon, honly⟩ := h
  exact ⟨k₁, (shielding_reconcile hc hl hclear guardRepairs _ tx hsh).1, hon, honly⟩

/-- How the transaction ends, `J` being what is known of the addresses. -/
structure Settled (c : Config) (k₀ : Kern) (J : Kern → Prop) (e : Option JobError) (tx : Tx Quiet) : Prop where
  backed : ∃ k₁, Backed c k₀ k₁ tx.kernel.kern ∧ J k₁
  past : ∀ k ∈ tx.kernel.past, ∀ a, k.OnTunnel c a → k.Shields c a
  paired : e = none → ∀ a, tx.kernel.kern.OnTunnel c a → tx.kernel.kern.Paired c a

omit hc hl hclear in
theorem Shielding.settled (h : Shielding spec k₀ k₁ tx) (hJ : J k₁)
    (e : Option JobError) (hp : e = none → ∀ a, tx.kernel.kern.OnTunnel spec.config a →
      tx.kernel.kern.Paired spec.config a) : Settled spec.config k₀ J e tx := ⟨⟨k₁, h.backed, hJ⟩, h.past, hp⟩

omit hl in
/-- What the end of the transaction does with the pairs, whether it failed or not. -/
theorem settled_settle {before : Spec} (guardRepairs failed : Bool) :
    Ensures (fun tx => ∃ k₁, Shielding spec k₀ k₁ tx ∧ J k₁)
      (Tx.settle quiet guardRepairs before spec .v4 old new failed) (Settled spec.config k₀ J) := by
  have hstop : ∀ e, Ensures (fun tx => ∃ k₁, Shielding spec k₀ k₁ tx ∧ J k₁)
      (pure (some e) : TxM Quiet (Option JobError)) (Settled spec.config k₀ J) := fun e =>
    .pure fun tx ⟨k₁, hsh, hJ⟩ => hsh.settled hJ _ fun he => by cases he
  refine Ensures.bind (Q := fun _ tx => ∃ k₁, Shielding spec k₀ k₁ tx ∧ J k₁) ?_ fun x => ?_
  · rintro tx ⟨k₁, hsh, hJ⟩
    exact ⟨k₁, hsh.idle (stableLook_spec _ tx).1, hJ⟩
  · cases x with
    | error e => exact hstop _
    | ok snap =>
      dsimp only
      split_ifs
      · exact hstop _
      · rintro tx ⟨k₁, hsh, hJ⟩
        -- the pass is made for the addresses that survive
        let final := spec.withReturnPath .v4 (Tx.survivors before snap spec.config.exitIf .v4 old new failed)
        have hc' : final.config.NativeOverlay := hc
        have hl' : final.leaveReturnPath .v4 = false := by simp [final, Spec.withReturnPath]
        obtain ⟨hsh', hv⟩ := shielding_reconcile hc' hl' hclear guardRepairs
          "settle the return-path pairs" _ (hsh.respec rfl)
        unfold Tx.settleFrom
        rw [bind_run, bind_run]
        change Settled _ _ _ ((if (!(Tx.reconcile quiet guardRepairs "settle the return-path pairs"
          { tx with spec := final }).1.contractHolds) = true then _ else _ : TxM Quiet _)
            (Tx.reconcile quiet guardRepairs "settle the return-path pairs" { tx with spec := final }).2).1
          ((if (!(Tx.reconcile quiet guardRepairs "settle the return-path pairs"
          { tx with spec := final }).1.contractHolds) = true then _ else _ : TxM Quiet _)
            (Tx.reconcile quiet guardRepairs "settle the return-path pairs" { tx with spec := final }).2).2
        split_ifs with hres hback
        · exact hsh'.settled hJ _ fun he => by cases he
        · have hpaired := fun a ha => hsh'.paired hc hl' hv (by simpa using hres) (a := a) (Or.inr ha)
          exact ⟨⟨k₁, hsh'.backed, hJ⟩, hsh'.past, fun _ => hpaired⟩
        · have hpaired := fun a ha => hsh'.paired hc hl' hv (by simpa using hres) (a := a) (Or.inr ha)
          exact ⟨⟨k₁, hsh'.backed, hJ⟩, hsh'.past, fun _ => hpaired⟩

omit hl in
theorem settled_changeBetween (hinit : initial.config = spec.config) (hv4 : new.fam = .v4)
    (hold4 : ∀ o, old = some o → o.fam = .v4) (hmov : Movable spec.config old new k₀) (guardRepairs : Bool) :
    Ensures (Shielding spec k₀ k₀) (Tx.changeBetween quiet guardRepairs spec .v4 old new
      (Tx.changePIAAddress quiet (quietTunnel re) initial old new)) fun errs tx =>
        ∃ e, Settled spec.config k₀ (fun k₁ => errs = [] → k₁.OnTunnel spec.config new) e tx ∧ (errs = [] → e = none) := by
  let both := spec.withReturnPath .v4 (dedupe (spec.returnPath .v4 ++ old.toList ++ [new]))
  have hc' : both.config.NativeOverlay := hc
  have hl' : both.leaveReturnPath .v4 = false := by simp [both, Spec.withReturnPath]
  have hnew : new ∈ both.returnPath .v4 := by
    simp only [both, Spec.withReturnPath, Function.update_self]
    exact (mem_foldl_add _ [] new).2 (by simp)
  unfold Tx.changeBetween
  refine Ensures.bind (Q := fun _ => Shielding both k₀ k₀) (.modify fun tx h => h.respec rfl) fun _ =>
    (shielding_reconcile hc' hl' hclear guardRepairs _).bind fun res => ?_
  split_ifs with hres
  · refine Ensures.bind (Q := fun e => Settled spec.config k₀ (fun _ => True) e) (fun tx h => ?_) fun e =>
      .pure fun tx h => ⟨e, ⟨?_, h.past, h.paired⟩, fun he => by cases he⟩
    · exact settled_settle hc' hclear guardRepairs true tx ⟨k₀, h.1, trivial⟩
    · obtain ⟨k₁, hb, -⟩ := h.backed
      exact ⟨k₁, hb, fun he => by cases he⟩
  · refine Ensures.bind (Q := fun _ => Ready both k₀ new) (.modify fun tx h => ?_) fun _ => ?_
    · have hpaired := h.1.paired hc hl' h.2 (by simpa using hres) (Or.inl hnew)
      exact ⟨⟨h.1.expects, h.1.backed, h.1.past⟩, hpaired.2⟩
    refine Ensures.bind (alone_changed hc' hl' hclear guardRepairs
      (ready_changePIAAddress hc' hinit hv4 hold4 hmov)) fun cerr => ?_
    refine Ensures.bind (Q := Settled spec.config k₀ fun k₁ => cerr = none → k₁.OnTunnel spec.config new)
      (fun tx h => settled_settle hc' hclear guardRepairs _ tx ?_) fun e => .pure fun tx h =>
        ⟨e, ⟨?_, h.past, h.paired⟩, fun he => ?_⟩
    · cases cerr with
      | some e =>
        obtain ⟨k₁, hsh⟩ := h.1
        exact ⟨k₁, hsh, fun he => by cases he⟩
      | none =>
        obtain ⟨k₁, hsh, hon, -⟩ := h.2 rfl
        exact ⟨k₁, hsh, fun _ => hon⟩
    · obtain ⟨k₁, hb, hJ⟩ := h.backed
      refine ⟨k₁, hb, fun he => hJ ?_⟩
      exact Option.toList_eq_nil_iff.1 (List.append_eq_nil_iff.1 he).1
    · exact Option.toList_eq_nil_iff.1 (List.append_eq_nil_iff.1 he).2

end Transaction

end Change

end Backed

/-- Whatever fails, and whatever the kernel makes of its routes: with the old and the new
address alone on the tunnel, and a priority 98 that need not be rebuilt, every address on
the tunnel is shielded after every change; and when the change succeeds the new address
is there and every address has both its rules. -/
theorem address_change_shielded (initial spec : Spec) (hc : spec.config.NativeOverlay)
    (hinit : initial.config = spec.config) (re : Rerouting) (w : Quiet) (hw : w.past = []) (hfam : w.kern.Familial)
    (old : Option Addr) (new : Addr) (hpairs : ∀ a, w.kern.OnTunnel spec.config a → w.kern.Paired spec.config a)
    (hmov : Movable spec.config old new w.kern) (guardRepairs : Bool) :
    let out := Tx.piaAddressChange quiet (quietTunnel re) initial guardRepairs old (some new)
      { kernel := w, spec := spec }
    (∀ k ∈ out.2.kernel.past, ∀ a, k.OnTunnel spec.config a → k.Shields spec.config a) ∧
      (out.1 = [] → out.2.kernel.kern.OnTunnel spec.config new ∧
        ∀ a, out.2.kernel.kern.OnTunnel spec.config a → out.2.kernel.kern.Paired spec.config a) := by
  let T (errs : List JobError) (tx : Tx Quiet) : Prop :=
    (∀ k ∈ tx.kernel.past, ∀ a, k.OnTunnel spec.config a → k.Shields spec.config a) ∧
      (errs = [] → tx.kernel.kern.OnTunnel spec.config new ∧
        ∀ a, tx.kernel.kern.OnTunnel spec.config a → tx.kernel.kern.Paired spec.config a)
  have hstart : Shielding spec w.kern w.kern { kernel := w, spec := spec } :=
    ⟨⟨rfl, rfl, rfl⟩, ⟨hfam, rfl, rfl, fun x hx => .inl hx, hmov.clear.once, fun a ha => (hpairs a ha).2⟩, by simp [hw]⟩
  have hstop : ∀ e, Ensures (Shielding spec w.kern w.kern) (pure [e] : TxM Quiet (List JobError)) T := fun e =>
    .pure fun tx h => ⟨h.past, fun he => by cases he⟩
  refine Ensures.bind (S := T) (Q := fun _ tx => Shielding spec w.kern w.kern tx ∧ tx.spec = spec)
    (.modify (P := (· = ({ kernel := w, spec := spec } : Tx Quiet))) ?_) (fun _ => Ensures.bind
      (Q := fun tx₀ tx => Shielding spec w.kern w.kern tx ∧ tx₀.spec = spec) (fun tx h => h) fun tx₀ =>
        .assuming fun hs => ?_) _ rfl
  · rintro tx rfl
    exact ⟨⟨hstart.expects, hstart.backed, hstart.past⟩, rfl⟩
  · rw [hs, if_neg (by simp [hc.not_gluetun, hc.not_gluetunSidecar])]
    by_cases hv4 : new.fam = .v4
    · rw [Option.filter_some, if_pos (by simpa using hv4)]
      split_ifs with hold
      · exact hstop _
      · have hold4 : ∀ o, old = some o → o.fam = .v4 := by
          rintro o rfl
          simpa using hold
        intro tx h
        obtain ⟨e, hset, hnone⟩ := settled_changeBetween hc hmov.clear hinit hv4 hold4 hmov _ tx h
        refine ⟨hset.past, fun hnil => ?_⟩
        obtain ⟨k₁, hb, hJ⟩ := hset.backed
        exact ⟨(hb.onTunnel new).2 (hJ hnil), hset.paired (hnone hnil)⟩
    · rw [Option.filter_some, if_neg (by simpa using hv4)]
      exact hstop _

/-! ### Two tunnels -/

instance (c : Config) (k : Kern) (a : Addr) : Decidable (k.OnTunnel c a) :=
  decidable_of_iff (a ∈ liveGlobals (k.view []) c.exitIf .v4) mem_liveGlobals

instance (c : Config) (k : Kern) (a : Addr) : Decidable (k.Paired c a) := inferInstanceAs (Decidable (_ ∧ _))

instance (c : Config) (k : Kern) (a : Addr) : Decidable (k.Shields c a) :=
  inferInstanceAs (Decidable ((_ ∨ _) ∨ _ ∨ _))

def firstAddr : Addr := exitAddr

def nextAddr : Addr := ⟨.v4, 0x0a000003, by decide⟩

def secondAddr : Addr := hostAddr

def movedSpec : Spec where
  config := lostSpec.config
  returnPath f := if f = .v4 then [firstAddr] else []

theorem movedSpec_native : movedSpec.config.NativeOverlay :=
  ⟨rfl, rfl, by decide, by decide, by decide, by decide, by decide⟩

def loneKern : Kern where
  rules
    | .v4 => [Spec.localGuard movedSpec.config .v4, returnPathRule movedSpec.config .v4 firstAddr,
        ingressRule movedSpec.config .v4, egressRule movedSpec.config .v4, ingressReject movedSpec.config .v4,
        backstopRule .v4 firstAddr, lookupRule 32766 .v4 tableMain]
    | .v6 => []
  links := [{ index := 2, name := "eth0" }, { index := 3, name := "wt0" }, { index := 4, name := "mole0", flags := 1 }]
  addrs
    | .v4 => [⟨.v4, 4, Prefix.host firstAddr, rtScopeUniverse⟩]
    | .v6 => []
  rules_sorted f := by cases f <;> decide
  routes_table := Kern.no_routes

/-- Two addresses with their pairs, and the contract's routes; a rule of the host's stops
what the contract's rules do not answer. -/
def sharedKern : Kern where
  rules
    | .v4 => [Spec.localGuard movedSpec.config .v4, returnPathRule movedSpec.config .v4 firstAddr,
        returnPathRule movedSpec.config .v4 secondAddr, ingressRule movedSpec.config .v4,
        egressRule movedSpec.config .v4, ingressReject movedSpec.config .v4, backstopRule .v4 firstAddr,
        backstopRule .v4 secondAddr, rejectRule 200 .v4, lookupRule 32766 .v4 tableMain]
    | .v6 => [Spec.localGuard movedSpec.config .v6, ingressRule movedSpec.config .v6,
        egressRule movedSpec.config .v6, ingressReject movedSpec.config .v6, lookupRule 32766 .v6 tableMain]
  routes
    | .v4, 1000 => [tunnelRoute .v4 1000 4, fallbackRoute .v4 1000]
    | .v6, 1000 => [fallbackRoute .v6 1000]
    | _, _ => []
  links := [{ index := 2, name := "eth0" }, { index := 3, name := "wt0" }, { index := 4, name := "mole0", flags := 1 }]
  addrs
    | .v4 => [⟨.v4, 4, Prefix.host firstAddr, rtScopeUniverse⟩, ⟨.v4, 4, Prefix.host secondAddr, rtScopeUniverse⟩]
    | .v6 => []
  rules_sorted f := by cases f <;> decide
  routes_table f t r hr := by
    split at hr
    · simp only [List.mem_cons, List.not_mem_nil, or_false] at hr
      rcases hr with rfl | rfl <;> rfl
    · rw [List.mem_singleton.1 hr]
      rfl
    · cases hr

theorem loneKern_only (h : loneKern.OnTunnel movedSpec.config a) : a = firstAddr := by
  have : a ∈ liveGlobals (loneKern.view []) movedSpec.config.exitIf .v4 := mem_liveGlobals.2 h
  exact List.mem_singleton.1 this

theorem loneKern_movable : Movable movedSpec.config (some firstAddr) nextAddr loneKern where
  only l hl x hx _ _ := by
    obtain rfl := List.mem_singleton.1 hx
    exact .inr ⟨firstAddr, rfl, rfl⟩
  scope l hl x hx _ _ := by
    obtain rfl := List.mem_singleton.1 hx
    rfl
  clear := backstopsClear_of (fun x hx => ⟨firstAddr, by
    exact List.mem_singleton.1 hx⟩) (by decide)

/-- The address of the tunnel changes. -/
theorem address_change_shielded_lone :
    ((Tx.piaAddressChange quiet (quietTunnel Rerouting.flushing) movedSpec true (some firstAddr) (some nextAddr)
      { kernel := { kern := loneKern }, spec := movedSpec }).2.kernel.past.all fun k =>
        (liveGlobals (k.view []) movedSpec.config.exitIf .v4).all fun a => decide (k.Shields movedSpec.config a)) = true := by
  have hpairs : ∀ a, loneKern.OnTunnel movedSpec.config a → loneKern.Paired movedSpec.config a := by
    intro a ha
    rw [loneKern_only ha]
    decide
  rw [List.all_eq_true]
  intro k hk
  rw [List.all_eq_true]
  intro a ha
  exact decide_eq_true ((address_change_shielded movedSpec movedSpec movedSpec_native rfl Rerouting.flushing
    { kern := loneKern } rfl (fun f => by cases f <;> decide) (some firstAddr) nextAddr hpairs loneKern_movable
    true).1 k hk a (mem_liveGlobals.1 ha))

/-- The kernel answers up to the callback's last request; from then on everything fails. -/
def sharedQuiet : Quiet where
  kern := sharedKern
  answers n := if n < 41 then {} else { fault := some .failed }

/-- With a second address on the tunnel: the callback takes its rules out with the old
address's, which the owner's judgement does not mind because the host's rule stops its
traffic then; and with nothing but failures behind the callback it is left so. -/
theorem address_change_strips :
    movedSpec.config.NativeOverlay ∧ sharedKern.Familial ∧
    (∀ a ∈ liveGlobals (sharedKern.view []) movedSpec.config.exitIf .v4, sharedKern.Paired movedSpec.config a) ∧
    let k := (Tx.piaAddressChange quiet (quietTunnel Rerouting.flushing) movedSpec true (some firstAddr)
        (some nextAddr) { kernel := sharedQuiet, spec := movedSpec }).2.kernel.kern
    k.OnTunnel movedSpec.config secondAddr ∧ ¬ k.Shields movedSpec.config secondAddr :=
  ⟨movedSpec_native, fun f => by cases f <;> decide, by decide, by decide +kernel⟩

/-- The rule with the protocol `ip rule add` sets. -/
def bootOf (r : Rule) : Rule := { r with protocol := some 3 }

/-- The lone address again, with rules 94, 97 and 98 once more as a script adds them. -/
def doubledKern : Kern where
  rules
    | .v4 => [Spec.localGuard movedSpec.config .v4, returnPathRule movedSpec.config .v4 firstAddr,
        bootOf (returnPathRule movedSpec.config .v4 firstAddr), ingressRule movedSpec.config .v4,
        egressRule movedSpec.config .v4, ingressReject movedSpec.config .v4,
        bootOf (ingressReject movedSpec.config .v4), backstopRule .v4 firstAddr, bootOf (backstopRule .v4 firstAddr),
        rejectRule 200 .v4, lookupRule 32766 .v4 tableMain]
    | .v6 => sharedKern.rules .v6
  routes := sharedKern.routes
  links := sharedKern.links
  addrs := loneKern.addrs
  rules_sorted f := by cases f <;> decide
  routes_table := sharedKern.routes_table

/-- The rebuilds of 94 and 98 fail to put the rules back; of what the next round puts back
the old address's rules fail, and so does the delete of the new one's copy at 93. -/
def doubledQuiet : Quiet where
  kern := doubledKern
  answers n := if n ∈ [29, 31, 33, 54, 56, 60, 64, 76] ∨ 97 ≤ n then { fault := some .failed } else {}

/-- Nor is a copy a shield that lasts, with nothing but the contract's rules up to 98: what
is first at 93 goes in place of the copy whose delete failed, and a rebuild of 97 clears
the copies that stand there. -/
theorem address_change_sweeps :
    (∀ x ∈ doubledKern.rules .v4, x.priority ≤ prioBackstop →
      ∃ e ∈ (movedSpec.effective (doubledKern.view []) .v4).rules .v4,
        e.priority = x.priority ∧ equalItems x.items e.items = true) ∧
    doubledKern.Paired movedSpec.config firstAddr ∧
    let k := (Tx.piaAddressChange quiet (quietTunnel Rerouting.flushing) movedSpec true (some firstAddr)
        (some nextAddr) { kernel := doubledQuiet, spec := movedSpec }).2.kernel.kern
    k.OnTunnel movedSpec.config firstAddr ∧ ¬ k.Shields movedSpec.config firstAddr :=
  ⟨by decide, by decide, by decide +kernel⟩

end Molebridge
