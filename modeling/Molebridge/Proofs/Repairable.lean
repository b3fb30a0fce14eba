import Molebridge.Proofs.Agreement
import Molebridge.Proofs.Deletion
import Molebridge.Proofs.OwnRules

/-! States a repair can be trusted with (`Repairable`): what it adds opens no leak,
because at the start the exit table leads nowhere but into the tunnel and every rule
and route that comes later is the owner's own (`Kept`); and what it deletes opens
none because the deletion was judged on the model of this kernel. -/

namespace Molebridge

variable {r : Rule} {spec' : Spec} {new : Family → List Prefix}

def modelOf (spec : Spec) (k : Kern) : State := State.fromSnapshot spec (k.view spec.interest)

variable {f : Family} {spec : Spec}

section Models

variable (spec : Spec) (k : Kern)

theorem modelOf_rules (f : Family) : (modelOf spec k).rules f = k.rules f := sortedRules_eq (k.rules_sorted f)

theorem modelOf_routes (f : Family) :
    (modelOf spec k).routes f = spec.interest.dedup.map fun t => (t, k.routes f t) :=
  List.map_congr_left fun t ht => by
    show (t, (k.wanted spec.interest f).filter (·.table == t)) = (t, k.routes f t)
    rw [k.wanted_filter f (List.mem_dedup.1 ht)]

theorem modelOf_eq : modelOf spec k = { modelOf spec k with
    rules := k.rules, routes := fun f => spec.interest.dedup.map fun t => (t, k.routes f t) } := by
  have hrules : (modelOf spec k).rules = k.rules := funext (modelOf_rules spec k)
  have hroutes := funext (modelOf_routes spec k)
  rw [← hrules, ← hroutes]

theorem modelOf_setRules (f : Family) (rules : List Rule) (h : rules.Pairwise fun a b => a.priority ≤ b.priority) :
    modelOf spec (k.setRules f rules h) = (modelOf spec k).setRules f rules := by
  rw [modelOf_eq, State.setRules, funext (modelOf_rules spec k)]
  rw [modelOf_eq spec k]
  rfl

theorem modelOf_setTable (f : Family) (t : ℕ) (routes : List Route) (h : ∀ r ∈ routes, r.table = t) :
    modelOf spec (k.setTable f t routes h) = (modelOf spec k).setTable f t routes := by
  have hentries : (fun g => spec.interest.dedup.map fun u => (u, (k.setTable f t routes h).routes g u)) =
      Function.update (fun g => spec.interest.dedup.map fun u => (u, k.routes g u)) f
        ((spec.interest.dedup.map fun u => (u, k.routes f u)).map fun e => if e.1 = t then (e.1, routes) else e) := by
    funext g
    by_cases hg : g = f
    · subst hg
      rw [Function.update_self, List.map_map]
      refine List.map_congr_left fun u _ => ?_
      show (u, Function.update k.routes g (Function.update (k.routes g) t routes) g u) = _
      by_cases hu : u = t
      · subst hu
        simp
      · simp [hu]
    · rw [Function.update_of_ne hg]
      refine List.map_congr_left fun u _ => ?_
      show (u, Function.update k.routes f (Function.update (k.routes f) t routes) g u) = _
      rw [Function.update_of_ne hg]
  rw [modelOf_eq, hentries, State.setTable, funext (modelOf_routes spec k)]
  rw [modelOf_eq spec k]
  rfl

theorem modelOf_withRule (r : Rule) : modelOf spec (k.withRule r) = (modelOf spec k).withRule r := by
  rw [Kern.withRule, modelOf_setRules, State.withRule, modelOf_rules]

theorem modelOf_lookup {t : ℕ} (ht : t ∈ spec.interest) :
    ((modelOf spec k).routes f).lookup t = some (k.routes f t) := by
  rw [modelOf_routes]
  exact lookup_map_graph _ (List.mem_dedup.2 ht)

theorem modelOf_withRoute (r : Route) (ht : r.table ∈ spec.interest) :
    modelOf spec (k.withRoute r) = (modelOf spec k).withRoute r := by
  rw [Kern.withRoute, modelOf_setTable, State.withRoute, modelOf_lookup spec k ht]

theorem setRules_self (s : State) (f : Family) : s.setRules f (s.rules f) = s := by
  unfold State.setRules
  rw [Function.update_eq_self]

theorem modelOf_withoutRule (r : Rule) :
    ((modelOf spec k).withoutRule r).1 = modelOf spec (k.withoutRule r) ∧
      ((modelOf spec k).withoutRule r).2 = (k.rules r.family).any (deleteMatches r) := by
  rw [State.withoutRule, modelOf_rules, Kern.withoutRule, modelOf_setRules]
  split_ifs with h
  · exact ⟨rfl, h.symm⟩
  · rw [eraseP_eq_self h]
    exact ⟨(by rw [← modelOf_rules spec k, setRules_self]), (Bool.eq_false_of_not_eq_true h).symm⟩

theorem modelOf_withoutPriority (f : Family) (n : ℕ) :
    ((modelOf spec k).withoutPriority f n).1 = modelOf spec (k.withoutPriority f n) ∧
      ((modelOf spec k).withoutPriority f n).2 = (k.rules f).any (·.priority == n) := by
  rw [State.withoutPriority, modelOf_rules, Kern.withoutPriority, modelOf_setRules]
  split_ifs with h
  · exact ⟨rfl, h.symm⟩
  · rw [eraseP_eq_self h]
    exact ⟨(by rw [← modelOf_rules spec k, setRules_self]), (Bool.eq_false_of_not_eq_true h).symm⟩

theorem modelOf_withoutRoute (r : Route) (ht : r.table ∈ spec.interest) :
    ((modelOf spec k).withoutRoute r).1 = modelOf spec (k.withoutRoute r) ∧
      ((modelOf spec k).withoutRoute r).2 =
        (k.routes r.family r.table).any (State.routeDeleteMatches r) := by
  have hself : (modelOf spec k).setTable r.family r.table (k.routes r.family r.table) = modelOf spec k := by
    rw [← modelOf_setTable spec k _ _ _ (k.routes_table _ _)]
    unfold Kern.setTable
    simp
  rw [State.withoutRoute, modelOf_lookup spec k ht, Kern.withoutRoute, modelOf_setTable]
  dsimp only
  split_ifs with h
  · exact ⟨rfl, h.symm⟩
  · rw [eraseP_eq_self h, hself]
    exact ⟨rfl, (Bool.eq_false_of_not_eq_true h).symm⟩

end Models

/-! ### What the judgement looks at -/

def State.asOf (s : State) (spec : Spec) : State := { s with spec := spec }

theorem violations_asOf {s : State} (hc : spec.config = s.spec.config)
    (hr : spec.returnPath = s.spec.returnPath) (hn : s.spec.config.isGluetunSidecar = false) :
    (s.asOf spec).violations = [] ↔ s.violations = [] := by
  have hlookup : ∀ x p, (s.asOf spec).lookup x p = s.lookup x p := by
    intro x p
    have happ : ∀ rt, (s.asOf spec).routeApplies rt p = s.routeApplies rt p := by
      intro rt
      unfold State.routeApplies State.asOf
      rw [hc]
    unfold State.lookup
    rw [@State.scanRoutes_eq_of_applies (s.asOf spec) s _ _ _ fun rt _ => happ rt]
    rfl
  have hwalk : ∀ p, (s.asOf spec).walk p = s.walk p := fun p =>
    State.walkFrom_eq_of_lookup fun x _ => hlookup x p
  have hclass : ∀ p, (s.asOf spec).classifier p = s.classifier p := by
    intro p
    unfold State.classifier State.classify State.classifyGluetun State.classifySidecar State.protectedAddrs
      State.hostSubnets State.isLocal State.asOf
    simp only [hc, hr]
    rfl
  have hgather : ∀ f, gather f (s.asOf spec) [] = gather f s [] := by
    intro f
    unfold gather State.protectedAddrs State.hostSubnets State.asOf
    simp only [List.flatMap_cons, hc, hr]
    rfl
  have hesc : ∀ p, Escapes (s.asOf spec) p ↔ Escapes s p := by
    intro p
    unfold Escapes
    rw [hwalk, hclass]
  rw [violations_eq_nil_iff (by show spec.config.isGluetunSidecar = false; rw [hc]; exact hn),
    violations_eq_nil_iff hn]
  unfold Within
  simp only [hgather, hesc]

theorem modelOf_asOf (h : spec'.config = spec.config) (k : Kern) :
    (modelOf spec k).asOf spec' = modelOf spec' k := by
  unfold modelOf State.fromSnapshot State.asOf Spec.interest
  simp only [h]

theorem escapes_eq_nil_iff (hc : spec.config.NativeOverlay)
    (h : spec'.config = spec.config) (k : Kern) :
    ((modelOf spec' k).narrow fun _ => []).violations = [] ↔ escapes spec k = [] := by
  have h₁ : ((modelOf { spec with returnPath := fun _ => [] } k).asOf
      { spec' with returnPath := fun _ => [] }).violations = [] ↔ escapes spec k = [] :=
    violations_asOf h rfl hc.not_gluetunSidecar
  rwa [modelOf_asOf (show ({ spec' with returnPath := fun _ => [] } : Spec).config =
    ({ spec with returnPath := fun _ => [] } : Spec).config from h)] at h₁

/-! ### States a repair can be trusted with -/

section Start

variable (spec : Spec) (k : Kern)

def liveModel : State := (modelOf spec k).narrow fun _ => []

/-- The kernel with everything a repair can add to it. -/
def widestModel : State :=
  { liveModel spec k with
    rules := fun f => k.rules f ++ ownRules spec k f
    routes := fun f => [(spec.config.table, k.routes f spec.config.table ++ ownRoutes spec k f)] }

def emptyModel : State := { liveModel spec k with rules := fun _ => [], routes := fun _ => [] }

/-- The destinations that the owner's rules and routes make the model look at. -/
def ownDsts (f : Family) : List Addr :=
  (((ownRules spec k f).flatMap (fun r => r.src.toList ++ r.dst.toList) ++
    (ownRoutes spec k f).flatMap fun r => r.dst.toList ++ r.src.toList).flatMap boundaryPoints).filter
      fun a => a.fam == f && !a.isUnspecified

/-- A start from which no addition of a repair opens a leak: the exit table leads
nowhere but into the tunnel and is looked up without suppressors, no goto waits for
a rule the repair adds, and what the additions make the model look at is within its
limit and alike to what it looks at anyway. -/
structure Repairable : Prop where
  exitIf : spec.config.exitIf ≠ "lo"
  names : (k.links.map (·.name)).Nodup
  index : exitIndex spec k ≠ unknownDev
  held : ∀ f, ExitTableHeld (modelOf spec k) f
  gotos : ∀ f, ∀ r ∈ k.rules f, r.action = frActGoto → ∀ o ∈ ownRules spec k f, r.goto ≠ some o.priority
  plain : ∀ f, ∀ r ∈ k.rules f, r.action = frActToTbl → r.table = spec.config.table →
    r.suppressPrefixLen = none ∧ r.suppressIfGroup = none
  within : Within (widestModel spec k) []
  seen : ∀ f, ∀ d ∈ ownDsts spec k f, ∃ c ∈ (gather f (emptyModel spec k) []).addrs f,
    c.isUnspecified = false ∧ (gather f (widestModel spec k) []).dstSig f c =
      (gather f (widestModel spec k) []).dstSig f d

end Start

structure Kept (spec : Spec) (k₀ k : Kern) : Prop where
  links : k.links = k₀.links
  addrs : k.addrs = k₀.addrs
  rules : ∀ f, ∀ r ∈ k.rules f, r ∈ k₀.rules f ∨ r ∈ ownRules spec k₀ f
  routes : ∀ f, ∀ r ∈ k.routes f spec.config.table, r ∈ k₀.routes f spec.config.table ∨ r ∈ ownRoutes spec k₀ f

section Kept

variable {spec : Spec} {k₀ k : Kern} (hc : spec.config.NativeOverlay)

include hc in
theorem interest_native : spec.interest = [spec.config.table] := by
  simp [Spec.interest, hc.not_gluetun, hc.not_sidecar]

theorem liveModel_rules (spec : Spec) (k : Kern) (f : Family) : (liveModel spec k).rules f = k.rules f :=
  modelOf_rules spec k f

include hc

theorem liveModel_routes (k : Kern) (f : Family) :
    (liveModel spec k).routes f = [(spec.config.table, k.routes f spec.config.table)] := by
  show (modelOf spec k).routes f = _
  rw [modelOf_routes, interest_native hc]
  rfl

theorem hostSubnets_native (k : Kern) (f : Family) :
    (liveModel spec k).hostSubnets f = [] := by
  simp [State.hostSubnets, liveModel, modelOf, State.fromSnapshot, State.narrow, hc.not_gluetun]

theorem tableRoutes_liveModel (k : Kern) (f : Family) :
    (liveModel spec k).tableRoutes f spec.config.table = k.routes f spec.config.table := by
  rw [State.tableRoutes, liveModel_routes hc]
  simp

omit hc

theorem Kept.model_eq (h : Kept spec k₀ k) : liveModel spec k = { liveModel spec k₀ with
    rules := (liveModel spec k).rules, routes := (liveModel spec k).routes } := by
  have hlinks : (k.view spec.interest).links = (k₀.view spec.interest).links := h.links
  have haddrs : (k.view spec.interest).addrs = (k₀.view spec.interest).addrs := h.addrs
  unfold liveModel modelOf State.narrow State.fromSnapshot State.linkIndex Snapshot.link
  simp only [hlinks, haddrs]

theorem exitIdx_liveModel (spec : Spec) (k : Kern) : (liveModel spec k).exitIdx = exitIndex spec k := rfl

theorem Kept.exitIdx (h : Kept spec k₀ k) : (liveModel spec k).exitIdx = exitIndex spec k₀ := by
  rw [h.model_eq]
  rfl

include hc

theorem Kept.factsLe (h : Kept spec k₀ k) (f : Family) :
    FactsLe (gather f (liveModel spec k) []) (gather f (widestModel spec k₀) []) where
  config := rfl
  rules := by
    intro r hr
    simp only [gather, List.flatMap_cons, List.flatMap_nil, List.append_nil, liveModel_rules] at hr ⊢
    exact List.mem_append.2 (h.rules f r hr)
  routes := by
    intro r hr
    simp only [gather, List.flatMap_cons, List.flatMap_nil, List.append_nil, liveModel_routes hc] at hr
    simp only [gather, widestModel, List.flatMap_cons, List.flatMap_nil, List.append_nil, List.mem_append]
    exact h.routes f r hr
  prot := by
    rw [h.model_eq]
    exact List.Subset.refl _
  locals := by
    rw [h.model_eq]
    exact List.Subset.refl _
  hostSubnets := by simp [gather, hostSubnets_native hc]
  lan := List.Subset.refl _

theorem Kept.within (ok : Repairable spec k₀) (h : Kept spec k₀ k) :
    Within (liveModel spec k) [] := by
  intro f
  refine ((h.factsLe hc f).total_le (fun x => ?_) (fun x => ?_) f).trans (ok.within f)
  · rw [h.model_eq]
    rfl
  · rw [h.model_eq]
    rfl

theorem Kept.exitTableHeld (ok : Repairable spec k₀) (h : Kept spec k₀ k)
    (f : Family) : ExitTableHeld (liveModel spec k) f := by
  refine ⟨?_, fun rt hrt o ho => ?_⟩
  · show spec.config.table ∈ spec.interest.dedup
    simp [interest_native hc]
  · have hheld : Held (liveModel spec k) o ↔ Held (liveModel spec k₀) o := by
      unfold Held
      rw [h.exitIdx, exitIdx_liveModel]
    rw [hheld]
    replace hrt : rt ∈ (liveModel spec k).tableRoutes f spec.config.table := hrt
    rw [tableRoutes_liveModel hc] at hrt
    rcases h.routes f rt hrt with hrt | hrt
    · refine (ok.held f).2 rt ?_ o ho
      show rt ∈ (liveModel spec k₀).tableRoutes f spec.config.table
      rwa [tableRoutes_liveModel hc]
    · rcases List.mem_cons.1 hrt with rfl | hrt
      · cases ho
        exact .inl rfl
      · split_ifs at hrt with hz
        · cases hrt
        · obtain rfl := List.mem_singleton.1 hrt
          cases ho
          exact .inr ⟨rfl, rfl, hz⟩

omit hc

/-! ### What an addition makes the model look at -/

/-- The values the model looks at in the second state are those of the first, but
for the destinations at the ends of some prefixes. -/
structure NamesFrom (s s' : State) (new : Family → List Prefix) : Prop where
  mark : ∀ f m, NamedMark s' f m → NamedMark s f m
  proto : ∀ f v, NamedProto s' f v → NamedProto s f v
  tos : ∀ f t, NamedTos s' f t ↔ NamedTos s f t
  dst : ∀ f p, NamedPrefix s' f p → NamedPrefix s f p ∨ p ∈ new f

theorem NamesFrom.toses {s s' : State} (h : NamesFrom s s' new)
    {t : BitVec 8} (ht : NamedTos s' f t ∨ SpareTos s' f t) : NamedTos s f t ∨ SpareTos s f t := by
  unfold SpareTos at ht ⊢
  simpa only [h.tos] using ht

theorem alike_of_dst {F : Facts} {q : Packet} {c : Addr} (h : DstAlike F q.f q.dst c) :
    Alike F q { q with dst := c } where
  f := rfl
  iif := rfl
  proto := rfl
  tos := rfl
  mark := ⟨fun _ _ => rfl, Iff.rfl, Iff.rfl, fun _ => Iff.rfl⟩
  src := ⟨fun _ _ => rfl, fun _ _ => rfl, rfl, rfl⟩
  dst := h
  owner := ⟨fun _ _ => rfl, fun _ _ => rfl, fun _ _ => rfl, fun _ _ => rfl⟩

theorem DstAlike.refl (F : Facts) (f : Family) (a : Addr) : DstAlike F f a a :=
  ⟨fun _ _ => rfl, fun _ _ => rfl, rfl, rfl, fun _ _ => rfl, fun _ _ => rfl⟩

theorem DstAlike.of_le {F G : Facts} {a b : Addr} (hle : FactsLe F G)
    (hloc : ∀ x, x ∈ F.locals ↔ x ∈ G.locals) (h : DstAlike G f a b) : DstAlike F f a b where
  rule r hr := h.rule r (hle.rules hr)
  route r hr := h.route r (hle.routes hr)
  loc := by
    have heq : ∀ x, F.isLocal x = G.isLocal x := by
      intro x
      unfold Facts.isLocal
      congr 1
      simpa using hloc x
    rw [heq, heq, h.loc]
  overlay := by rw [hle.config]; exact h.overlay
  host x hx := h.host x (hle.hostSubnets hx)
  lan x hx := h.lan x (hle.lan hx)

include hc

/-- A destination at an end of one of the owner's prefixes is alike to one the model
looks at in every state of the repair. -/
theorem Kept.own_dst (ok : Repairable spec k₀) (h : Kept spec k₀ k)
    {d : Addr} (hd : d ∈ ownDsts spec k₀ f) :
    ∃ c, c.fam = f ∧ c.isUnspecified = false ∧ NamedDst (liveModel spec k) f c ∧
      DstAlike (gather f (liveModel spec k) []) f d c := by
  obtain ⟨c, hcand, hc0, hsig⟩ := ok.seen f d hd
  have hempty : FactsLe (gather f (emptyModel spec k₀) []) (gather f (liveModel spec k) []) := by
    rw [h.model_eq]
    exact ⟨rfl, by simp [gather, emptyModel], by simp [gather, emptyModel], List.Subset.refl _, List.Subset.refl _,
      by simp [gather, State.hostSubnets, emptyModel, liveModel, modelOf, State.fromSnapshot, State.narrow,
        hc.not_gluetun], List.Subset.refl _⟩
  obtain ⟨hnamed, hfam⟩ := (mem_addrs_iff (liveModel spec k) f hc0).1 (hempty.addrs f hcand)
  refine ⟨c, hfam, hc0, hnamed, DstAlike.of_le (h.factsLe hc f) (fun x => ?_) (dstAlike_of_sig hsig.symm)⟩
  rw [h.model_eq]
  rfl

/-- What an addition makes the model look at is alike to what it looked at. -/
theorem NamesFrom.seen (ok : Repairable spec k₀) (h : Kept spec k₀ k) {k' : Kern}
    (hn : NamesFrom (liveModel spec k) (liveModel spec k') new)
    (hnew : ∀ f, ∀ p ∈ new f, ∀ d ∈ boundaryPoints p, d.fam = f → d.isUnspecified = false → d ∈ ownDsts spec k₀ f)
    {q : Packet} (hd : InDomain (liveModel spec k') q) (hq : Named (liveModel spec k') q) :
    ∃ q', InDomain (liveModel spec k) q' ∧ Named (liveModel spec k) q' ∧
      Alike (gather q.f (liveModel spec k) []) q q' := by
  have hdom : ∀ c : Addr, c.fam = q.f → c.isUnspecified = false →
      InDomain (liveModel spec k) { q with dst := c } := fun c h1 h2 => ⟨hd.iif, hd.src, h1, h2⟩
  have hnamed : ∀ c : Addr, NamedDst (liveModel spec k) q.f c → Named (liveModel spec k) { q with dst := c } :=
    fun c h1 => ⟨hn.mark _ _ hq.mark, hn.proto _ _ hq.proto, hn.toses hq.tos, h1⟩
  rcases hq.dst with hother | ⟨p, hp, hends, hfam⟩
  · exact ⟨q, hdom q.dst hd.dst hd.bound, hnamed q.dst (.inl hother), alike_of_dst (DstAlike.refl _ _ _)⟩
  · rcases hn.dst _ _ hp with hp | hp
    · exact ⟨q, hdom q.dst hd.dst hd.bound, hnamed q.dst (.inr ⟨p, hp, hends, hfam⟩),
        alike_of_dst (DstAlike.refl _ _ _)⟩
    · have hmem : q.dst ∈ boundaryPoints p := mem_boundaryPoints.2 ⟨hd.dst.trans hfam.symm, hends⟩
      obtain ⟨c, hcf, hc0, hcn, halike⟩ := h.own_dst hc ok (hnew _ p hp _ hmem hd.dst hd.bound)
      exact ⟨{ q with dst := c }, hdom c hcf hc0, hnamed c hcn, alike_of_dst halike⟩

omit hc

/-! ### The additions -/

variable {f : Family}

theorem liveModel_withRule (spec : Spec) (k : Kern) (r : Rule) :
    liveModel spec (k.withRule r) = (liveModel spec k).withRule r := by
  unfold liveModel
  rw [modelOf_withRule]
  rfl

theorem mem_rules_withRule {x : Rule} {g : Family} :
    x ∈ (k.withRule r).rules g ↔ x ∈ k.rules g ∨ (g = r.family ∧ x = r) := by
  show x ∈ Function.update k.rules r.family (State.insertRule r (k.rules r.family)) g ↔ _
  by_cases hg : g = r.family
  · subst hg
    rw [Function.update_self, mem_insertRule]
    tauto
  · rw [Function.update_of_ne hg]
    tauto

theorem namesFrom_withRule (hr : OwnerRule spec.config r.family r) :
    NamesFrom (liveModel spec k) (liveModel spec (k.withRule r))
      fun f => if f = r.family then r.src.toList ++ r.dst.toList else [] := by
  have hmem : ∀ g x, x ∈ (liveModel spec (k.withRule r)).rules g ↔
      x ∈ (liveModel spec k).rules g ∨ (g = r.family ∧ x = r) := by
    intro g x
    rw [liveModel_rules, liveModel_rules, mem_rules_withRule]
  have hroutes : ∀ g, (liveModel spec (k.withRule r)).routes g = (liveModel spec k).routes g := by
    intro g
    rfl
  refine ⟨fun g m => ?_, fun g v => ?_, fun g t => ?_, fun g p => ?_⟩
  · rintro (h | h | h | h | h | h | ⟨x, hx, hm, hv⟩)
    · exact .inl h
    · exact .inr (.inl h)
    · exact .inr (.inr (.inl h))
    · exact .inr (.inr (.inr (.inl h)))
    · exact .inr (.inr (.inr (.inr (.inl h))))
    · exact .inr (.inr (.inr (.inr (.inr (.inl h)))))
    · rcases (hmem g x).1 hx with hx | ⟨-, rfl⟩
      · exact .inr (.inr (.inr (.inr (.inr (.inr ⟨x, hx, hm, hv⟩)))))
      · exact absurd hr.unmarked hm
  · rintro (h | h | h | h | ⟨x, hx, hv, hne⟩)
    · exact .inl h
    · exact .inr (.inl h)
    · exact .inr (.inr (.inl h))
    · exact .inr (.inr (.inr (.inl h)))
    · rcases (hmem g x).1 hx with hx | ⟨rfl, rfl⟩
      · exact .inr (.inr (.inr (.inr ⟨x, hx, hv, hne⟩)))
      · rcases hr.proto with hp | hp
        · rw [hp] at hv
          cases hv
        · rw [hp] at hv
          exact .inl (Option.some.inj hv).symm
  · unfold NamedTos
    simp only [hmem]
    constructor
    · rintro (h | ⟨x, hx | ⟨-, rfl⟩, hv⟩ | h)
      · exact .inl h
      · exact .inr (.inl ⟨x, hx, hv⟩)
      · rcases hv with hv | ⟨d, hd, -⟩
        · exact .inl (hv.trans hr.tos)
        · rw [hr.dscp] at hd
          cases hd
      · exact .inr (.inr h)
    · rintro (h | ⟨x, hx, hv⟩ | h)
      · exact .inl h
      · exact .inr (.inl ⟨x, .inl hx, hv⟩)
      · exact .inr (.inr h)
  · rintro (⟨x, hx, hp⟩ | h)
    · rcases (hmem g x).1 hx with hx | ⟨rfl, rfl⟩
      · exact .inl (.inl ⟨x, hx, hp⟩)
      · right
        simpa using hp
    · left
      right
      exact h

include hc

theorem Kept.withRule (ok : Repairable spec k₀) (h : Kept spec k₀ k)
    (hsafe : (liveModel spec k).violations = []) (hr : r ∈ ownRules spec k₀ f) :
    Kept spec k₀ (k.withRule r) ∧ (liveModel spec (k.withRule r)).violations = [] := by
  have hown := ownerRule_of_own hc hr
  obtain rfl := hown.family
  have hkept : Kept spec k₀ (k.withRule r) := by
    refine ⟨h.links, h.addrs, fun g x hx => ?_, h.routes⟩
    rcases mem_rules_withRule.1 hx with hx | ⟨rfl, rfl⟩
    · exact h.rules g x hx
    · exact .inr hr
  refine ⟨hkept, violations_of_opens ?_ hc ?_ hsafe (hkept.within hc ok) (fun q hq => ?_)
    fun q hd hq => (namesFrom_withRule hown).seen hc ok h (fun g p hp d hd hfam hd0 => ?_) hd hq⟩
  · rw [liveModel_withRule]
    exact beside_withRule _ _
  · rw [h.exitIdx]
    exact ok.index
  · rw [liveModel_withRule]
    refine State.opens_withRule (fun hf => ?_) (.inl rfl) fun x hx hact => ?_
    · exact (hf ▸ hown).harmless hc ok.exitIf
        (h.exitTableHeld hc ok q.f) hq
    · rw [liveModel_rules] at hx
      rcases h.rules _ x hx with hx | hx
      · exact ok.gotos _ x hx hact r hr
      · exact absurd hact (ownerRule_of_own hc hx).not_goto
  · split_ifs at hp with hg
    · subst hg
      refine List.mem_filter.2 ⟨List.mem_flatMap.2 ⟨p, List.mem_append_left _ ?_, hd⟩, by simp [hfam, hd0]⟩
      exact List.mem_flatMap.2 ⟨r, hr, hp⟩
    · cases hp

variable {r : Route}

theorem liveModel_withRoute (ht : r.table = spec.config.table) :
    liveModel spec (k.withRoute r) = (liveModel spec k).withRoute r := by
  unfold liveModel
  rw [modelOf_withRoute spec k r (by simp [interest_native hc, ht])]
  unfold State.narrow State.withRoute
  dsimp only
  split <;> rfl

omit hc

theorem routes_withRoute (g : Family) : (k.withRoute r).routes g r.table =
    if g = r.family then State.replaceRoute r (k.routes g r.table) else k.routes g r.table := by
  show Function.update k.routes r.family (Function.update (k.routes r.family) r.table _) g r.table = _
  split_ifs with hg
  · subst hg
    rw [Function.update_self, Function.update_self]
  · rw [Function.update_of_ne hg]

theorem of_ownRoutes (hr : r ∈ ownRoutes spec k₀ f) :
    r.family = f ∧ r.table = spec.config.table ∧ r.dst = some (Prefix.default f) ∧ r.tos = 0 ∧ r.src = none ∧
      r.iif = none ∧ r.flags = 0 ∧ ∃ o, disposition r = some o ∧
        (o = { kind := .stopped } ∨ exitIndex spec k₀ ≠ 0 ∧
          o = { kind := .viaDev, table := spec.config.table, dev := exitIndex spec k₀ }) := by
  rcases List.mem_cons.1 hr with rfl | hr
  · exact ⟨rfl, rfl, rfl, rfl, rfl, rfl, rfl, _, rfl, .inl rfl⟩
  · split_ifs at hr with hz
    · cases hr
    · obtain rfl := List.mem_singleton.1 hr
      exact ⟨rfl, rfl, rfl, rfl, rfl, rfl, rfl, _, rfl, .inr ⟨hz, rfl⟩⟩

include hc

theorem namesFrom_withRoute (hr : r ∈ ownRoutes spec k₀ f) :
    NamesFrom (liveModel spec k) (liveModel spec (k.withRoute r))
      fun g => if g = f then r.dst.toList ++ r.src.toList else [] := by
  obtain ⟨rfl, ht, -, htos, -⟩ := of_ownRoutes hr
  have hrules : ∀ g, (liveModel spec (k.withRoute r)).rules g = (liveModel spec k).rules g := by
    intro g
    rfl
  have hroutes : ∀ g (x : Route), (∃ e ∈ (liveModel spec (k.withRoute r)).routes g, x ∈ e.2) ↔
      x ∈ (k.withRoute r).routes g r.table := by
    intro g x
    rw [liveModel_routes hc, ht]
    simp
  have hold : ∀ g (x : Route), (∃ e ∈ (liveModel spec k).routes g, x ∈ e.2) ↔ x ∈ k.routes g r.table := by
    intro g x
    rw [liveModel_routes hc, ht]
    simp
  have hnew : ∀ g x, x ∈ (k.withRoute r).routes g r.table → x ∈ k.routes g r.table ∨ g = r.family ∧ x = r := by
    intro g x hx
    rw [routes_withRoute] at hx
    split_ifs at hx with hg
    · exact (Kern.mem_replaceRoute hx).symm.imp_right fun h => ⟨hg, h⟩
    · exact .inl hx
  -- a route that made way had the TOS of the route that replaced it
  have hgone : ∀ g x, x ∈ k.routes g r.table → x ∈ (k.withRoute r).routes g r.table ∨ x.tos = 0 := by
    intro g x hx
    rw [routes_withRoute]
    split_ifs with hg
    · rcases State.replaceRoute_cases r (k.routes g r.table) with ⟨_, y, _, hy, hl, h⟩ | h
      · rw [h]
        rw [hl] at hx
        rcases List.mem_append.1 hx with hx | hx
        · exact .inl (List.mem_append_left _ hx)
        · rcases List.mem_cons.1 hx with rfl | hx
          · simp only [State.sameSlot, Bool.and_eq_true, beq_iff_eq] at hy
            exact .inr (hy.1.1.2.trans htos)
          · exact .inl (List.mem_append_right _ (.tail _ hx))
      · rw [h]
        exact .inl (List.mem_append_left _ hx)
    · exact .inl hx
  refine ⟨fun g m => ?_, fun g v => ?_, fun g t => ?_, fun g p => ?_⟩
  · unfold NamedMark
    exact id
  · unfold NamedProto
    exact id
  · have hex : ∀ s : State, (∃ e ∈ s.routes g, ∃ rt ∈ e.2, t = rt.tos) ↔
        ∃ rt : Route, (∃ e ∈ s.routes g, rt ∈ e.2) ∧ t = rt.tos := by
      intro s
      constructor
      · rintro ⟨e, he, rt, hrt, h⟩
        exact ⟨rt, ⟨e, he, hrt⟩, h⟩
      · rintro ⟨rt, ⟨e, he, hrt⟩, h⟩
        exact ⟨e, he, rt, hrt, h⟩
    unfold NamedTos
    simp only [hex, hroutes, hold]
    constructor
    · rintro (h | h | ⟨hg, x, hx, h⟩)
      · exact .inl h
      · exact .inr (.inl h)
      · rcases hnew g x hx with hx | ⟨-, rfl⟩
        · exact .inr (.inr ⟨hg, x, hx, h⟩)
        · exact .inl (h.trans htos)
    · rintro (h | h | ⟨hg, x, hx, h⟩)
      · exact .inl h
      · exact .inr (.inl h)
      · rcases hgone g x hx with hx | hx
        · exact .inr (.inr ⟨hg, x, hx, h⟩)
        · exact .inl (h.trans hx)
  · rintro (h | ⟨e, he, x, hx, hp⟩ | h)
    · exact .inl (.inl h)
    · rcases hnew g x ((hroutes g x).1 ⟨e, he, hx⟩) with hx | ⟨hg, rfl⟩
      · obtain ⟨e, he, hx⟩ := (hold g x).2 hx
        exact .inl (.inr (.inl ⟨e, he, x, hx, hp⟩))
      · right
        rw [if_pos hg]
        simpa using hp
    · have hsub : ∀ k, (liveModel spec k).hostSubnets g = [] := fun k => hostSubnets_native hc k g
      refine .inl (.inr (.inr ?_))
      rw [hsub] at h ⊢
      exact h

theorem Kept.withRoute (ok : Repairable spec k₀) (h : Kept spec k₀ k)
    (hsafe : (liveModel spec k).violations = []) (hr : r ∈ ownRoutes spec k₀ f) :
    Kept spec k₀ (k.withRoute r) ∧ (liveModel spec (k.withRoute r)).violations = [] := by
  obtain ⟨hfam, ht, hdst, htos, hsrc, hiif, hflags, o, hdisp, ho⟩ := of_ownRoutes hr
  have hkept : Kept spec k₀ (k.withRoute r) := by
    refine ⟨h.links, h.addrs, h.rules, fun g x hx => ?_⟩
    rw [← ht, routes_withRoute] at hx
    split_ifs at hx with hg
    · rcases Kern.mem_replaceRoute hx with rfl | hx
      · exact .inr (by rw [hg, hfam]; exact hr)
      · exact h.routes g x (by rwa [← ht])
    · exact h.routes g x (by rwa [← ht])
  refine ⟨hkept, violations_of_opens ?_ hc ?_ hsafe (hkept.within hc ok) (fun q hq => ?_)
    fun q hd hq => (namesFrom_withRoute hc hr).seen hc ok h (fun g p hp d hd hg hd0 => ?_) hd hq⟩
  · rw [liveModel_withRoute hc ht]
    exact beside_withRoute _ _
  · rw [h.exitIdx]
    exact ok.index
  · have hq' : q.dst.fam = q.f := by rcases hq with hq | hq <;> exact hq.1
    rw [liveModel_withRoute hc ht]
    refine State.opens_withRoute ?_ (fun hf => ?_) hdisp ?_ fun x hx hact htab => ?_
    · simp [State.routeApplies, htos, hsrc, hiif, Route.faulty, hflags, outside]
    · rw [hdst]
      exact Prefix.default_contains (hq'.trans (hf.trans hfam))
    · unfold Held
      rw [h.exitIdx]
      rcases ho with rfl | ⟨hne, rfl⟩
      · exact .inl rfl
      · exact .inr ⟨rfl, rfl, hne⟩
    · rw [liveModel_rules] at hx
      rcases h.rules _ x hx with hx | hx
      · exact ok.plain _ x hx hact (htab.trans ht)
      · exact (ownerRule_of_own hc hx).suppressors
  · split_ifs at hp with hgf
    · subst hgf
      refine List.mem_filter.2 ⟨List.mem_flatMap.2 ⟨p, List.mem_append_right _ ?_, hd⟩, by simp [hg, hd0]⟩
      exact List.mem_flatMap.2 ⟨r, hr, hp⟩
    · cases hp

/-! ### The deletions -/

structure DeletesAs (spec : Spec) (remove : State → State × Bool) (refused : Kern → Option RtErr)
    (change : Kern → Kern) : Prop where
  deletes : ∀ s, Deletes s (remove s).1
  model : ∀ s : Spec, s.config = spec.config → ∀ k, (remove (modelOf s k)).1 = modelOf s (change k)
  refused : ∀ s : Spec, s.config = spec.config → ∀ k, (remove (modelOf s k)).2 = false → refused k ≠ none
  same : ∀ k, (change k).links = k.links ∧ (change k).addrs = k.addrs
  fewer : ∀ k f, (change k).rules f ⊆ k.rules f ∧ ∀ t, (change k).routes f t ⊆ k.routes f t

theorem Kept.deleted {remove : State → State × Bool} {refused : Kern → Option RtErr}
    {change : Kern → Kern} (hd : DeletesAs spec remove refused change) (h : Kept spec k₀ k)
    (hsafe : (liveModel spec k).violations = []) {s : Spec} (hs : s.config = spec.config)
    (hw : worsens (modelOf s k) (remove (modelOf s k)).1 = []) :
    Kept spec k₀ (change k) ∧ (liveModel spec (change k)).violations = [] := by
  have hlive : ∀ k, ((modelOf s k).narrow fun _ => []).violations = [] ↔ (liveModel spec k).violations = [] :=
    fun k => (escapes_eq_nil_iff hc hs k).trans (escapes_eq_nil_iff hc rfl k).symm
  refine ⟨⟨(hd.same k).1.trans h.links, (hd.same k).2.trans h.addrs, fun f r hr => h.rules f r ((hd.fewer k f).1 hr),
    fun f r hr => h.routes f r ((hd.fewer k f).2 _ hr)⟩, ?_⟩
  rw [← hlive, ← hd.model s hs k]
  refine (hd.deletes (modelOf s k)).shrinks.violations_narrow ?_ _ (fun _ => List.nil_subset _) ((hlive k).2 hsafe) hw
  show s.config.isGluetun = false
  rw [hs]
  exact hc.not_gluetun

omit hc

theorem deletesAs_rule (r : Rule) : DeletesAs spec (·.withoutRule r)
    (fun k => if (k.rules r.family).any (deleteMatches r) then none else some .notExist) (·.withoutRule r) where
  deletes s := .rule s r
  model s _ k := (modelOf_withoutRule s k r).1
  refused s _ k h := by
    rw [(modelOf_withoutRule s k r).2] at h
    simp [h]
  same _ := ⟨rfl, rfl⟩
  fewer k f := by
    refine ⟨fun x hx => ?_, fun _ => List.Subset.refl _⟩
    replace hx : x ∈ Function.update k.rules r.family _ f := hx
    by_cases hf : f = r.family
    · subst hf
      rw [Function.update_self] at hx
      exact List.mem_of_mem_eraseP hx
    · rwa [Function.update_of_ne hf] at hx

theorem deletesAs_priority (g : Family) (n : ℕ) : DeletesAs spec (·.withoutPriority g n)
    (fun k => if (k.rules g).any (·.priority == n) then none else some .notExist) (·.withoutPriority g n) where
  deletes s := .priority s g n
  model s _ k := (modelOf_withoutPriority s k g n).1
  refused s _ k h := by
    rw [(modelOf_withoutPriority s k g n).2] at h
    simp [h]
  same _ := ⟨rfl, rfl⟩
  fewer k f := by
    refine ⟨fun x hx => ?_, fun _ => List.Subset.refl _⟩
    replace hx : x ∈ Function.update k.rules g _ f := hx
    by_cases hf : f = g
    · subst hf
      rw [Function.update_self] at hx
      exact List.mem_of_mem_eraseP hx
    · rwa [Function.update_of_ne hf] at hx

include hc in
theorem deletesAs_route (r : Route) (ht : r.table = spec.config.table) :
    DeletesAs spec (·.withoutRoute r)
      (fun k => if (k.routes r.family r.table).any (State.routeDeleteMatches r) then none else some .notExist)
      (·.withoutRoute r) := by
  have hin : ∀ s : Spec, s.config = spec.config → r.table ∈ s.interest := by
    intro s hs
    rw [interest_native (hs ▸ hc), hs]
    simp [ht]
  refine ⟨fun s => .route s r, fun s hs k => (modelOf_withoutRoute s k r (hin s hs)).1, fun s hs k h => ?_,
    fun _ => ⟨rfl, rfl⟩, fun k f => ⟨List.Subset.refl _, fun t x hx => ?_⟩⟩
  · rw [(modelOf_withoutRoute s k r (hin s hs)).2] at h
    simp [h]
  · replace hx : x ∈ Function.update k.routes r.family (Function.update (k.routes r.family) r.table _) f t := hx
    by_cases hf : f = r.family
    · subst hf
      rw [Function.update_self] at hx
      by_cases htt : t = r.table
      · subst htt
        rw [Function.update_self] at hx
        exact List.mem_of_mem_eraseP hx
      · rwa [Function.update_of_ne htt] at hx
    · rwa [Function.update_of_ne hf] at hx

end Kept

end Molebridge
