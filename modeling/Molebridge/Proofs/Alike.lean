import Molebridge.Spec.Classes
import Molebridge.Proofs.Walk

/-! Packets that no selector and no class of some facts can tell apart
(`Alike`): a state whose selectors are among the facts (`Covers`) sends both to
the same outcomes and asks the same of them. -/

namespace Molebridge

/-- Sources that no selector and no class tells apart. -/
structure SrcAlike (F : Facts) (a b : Option Addr) : Prop where
  rule : ∀ r ∈ F.rules, outside r.src a = outside r.src b
  route : ∀ rt ∈ F.routes, outside rt.src a = outside rt.src b
  unbound : a.elim true (·.isUnspecified) = b.elim true (·.isUnspecified)
  prot : a.elim false F.prot.contains = b.elim false F.prot.contains

/-- Destinations that no selector and no class tells apart. -/
structure DstAlike (F : Facts) (f : Family) (a b : Addr) : Prop where
  rule : ∀ r ∈ F.rules, outside r.dst (some a) = outside r.dst (some b)
  route : ∀ rt ∈ F.routes, rt.dst.elim false (·.contains a) = rt.dst.elim false (·.contains b)
  loc : F.isLocal a = F.isLocal b
  overlay : (F.config.overlayFor f).elim false (·.contains a) =
    (F.config.overlayFor f).elim false (·.contains b)
  host : ∀ h ∈ F.hostSubnets, h.contains a = h.contains b
  lan : ∀ h ∈ F.lan, h.contains a = h.contains b

/-- Marks that no selector and no class tells apart. -/
structure MarkAlike (F : Facts) (m n : BitVec 32) : Prop where
  rule : ∀ r ∈ F.rules, ((r.effectiveMark.1 ^^^ m) &&& r.effectiveMark.2 == 0) =
    ((r.effectiveMark.1 ^^^ n) &&& r.effectiveMark.2 == 0)
  control : m = F.config.controlMark ↔ n = F.config.controlMark
  gluetun : m = gluetunMark ↔ n = gluetunMark
  tunnel : F.config.isNativeSidecar = true → (m = F.config.tunnelMark ↔ n = F.config.tunnelMark)

/-- The ranges and the l3mdev selectors that the rules carry. -/
structure OwnerAlike (F : Facts) (p q : Packet) : Prop where
  uid : ∀ r ∈ F.rules, outsideRange r.ext.uid p.uid.toNat = outsideRange r.ext.uid q.uid.toNat
  sport : ∀ r ∈ F.rules,
    outsideRange r.ext.sport p.sport.toNat = outsideRange r.ext.sport q.sport.toNat
  dport : ∀ r ∈ F.rules,
    outsideRange r.ext.dport p.dport.toNat = outsideRange r.ext.dport q.dport.toNat
  l3 : ∀ r ∈ F.rules, (r.l3Mdev.elim false fun v => v != 0 && !p.l3) =
    (r.l3Mdev.elim false fun v => v != 0 && !q.l3)

structure Alike (F : Facts) (p q : Packet) : Prop where
  f : p.f = q.f
  iif : p.iif = q.iif
  proto : p.proto = q.proto
  tos : p.tos = q.tos
  mark : MarkAlike F p.mark q.mark
  src : SrcAlike F p.src q.src
  dst : DstAlike F p.f p.dst q.dst
  owner : OwnerAlike F p q

/-- The facts hold every selector of the state in a family, and say what its
classes look at. -/
structure Covers (F : Facts) (s : State) (f : Family) : Prop where
  config : s.spec.config = F.config
  rules : s.rules f ⊆ F.rules
  routes : ∀ t, s.tableRoutes f t ⊆ F.routes
  prot : ∀ a, a ∈ s.protectedAddrs f ↔ a ∈ F.prot
  locals : ∀ a, a ∈ s.locals f ↔ a ∈ F.locals
  hostSubnets : s.hostSubnets f ⊆ F.hostSubnets
  lan : s.spec.config.lanFor f ⊆ F.lan

variable {F : Facts} {s : State} {p q : Packet}
variable (hc : Covers F s p.f)

theorem selectorsAccept_congr (h : Alike F p q) {r : Rule} (hr : r ∈ F.rules) :
    selectorsAccept r p = selectorsAccept r q := by
  unfold selectorsAccept
  rw [h.iif, h.src.rule r hr, h.dst.rule r hr, h.mark.rule r hr, h.proto, h.tos, h.owner.l3 r hr,
    h.owner.uid r hr, h.owner.sport r hr, h.owner.dport r hr]

theorem ruleMatches_congr (h : Alike F p q) {r : Rule} (hr : r ∈ F.rules) :
    ruleMatches r p = ruleMatches r q := by
  unfold ruleMatches undecided
  rw [selectorsAccept_congr h hr, h.iif]

theorem routeApplies_congr (s : State) (h : Alike F p q) {rt : Route} (hrt : rt ∈ F.routes) :
    s.routeApplies rt p = s.routeApplies rt q := by
  unfold State.routeApplies
  rw [h.tos, h.src.route rt hrt, h.iif]

include hc

theorem isLocal_eq (a : Addr) : s.isLocal p.f a = F.isLocal a := by
  unfold State.isLocal Facts.isLocal
  congr 1
  simpa using hc.locals a

theorem candidates_congr (h : Alike F p q) (t : ℕ) :
    s.candidates p t = s.candidates q t := by
  unfold State.candidates
  rw [← h.f]
  congr 1
  refine List.filter_congr fun rt hrt => ?_
  exact h.dst.route rt (hc.routes t hrt)

omit hc

theorem scanRoutes_congr (s : State) (r : Rule) (h : Alike F p q) (l : List Route) (hl : l ⊆ F.routes)
    (acc : List Outcome × Bool) : s.scanRoutes r p l acc = s.scanRoutes r q l acc := by
  induction l generalizing acc with
  | nil => rfl
  | cons rt t ih =>
    unfold State.scanRoutes
    have ht := List.Subset.trans (List.subset_cons_self rt t) hl
    rw [routeApplies_congr s h (hl (.head _))]
    cases s.routeApplies rt q with
    | no => exact ih ht acc
    | yes => rfl
    | maybe => exact ih ht _

include hc

theorem candidates_subset (t : ℕ) : s.candidates p t ⊆ F.routes := by
  intro rt hrt
  exact hc.routes t (List.mem_filter.1 ((mem_insertSort _ _ _).1 hrt)).1

theorem lookup_congr (h : Alike F p q) (r : Rule) :
    s.lookup r p = s.lookup r q := by
  unfold State.lookup
  have hcq : Covers F s q.f := h.f ▸ hc
  rw [isLocal_eq hc, isLocal_eq hcq, h.dst.loc, ← candidates_congr hc h r.table,
    scanRoutes_congr s r h _ (candidates_subset hc r.table)]

theorem walkSets_congr (h : Alike F p q) (rules : List Rule)
    (hr : rules ⊆ F.rules) : s.walkSets p rules = s.walkSets q rules := by
  induction rules with
  | nil => rfl
  | cons r later ih =>
    have ih := ih (List.Subset.trans (List.subset_cons_self r later) hr)
    rw [s.walkSets_cons, s.walkSets_cons, ih]
    unfold State.arrive State.taken
    rw [ruleMatches_congr h (hr (.head _)), lookup_congr hc h r]

theorem walk_congr (h : Alike F p q) : s.walk p = s.walk q := by
  unfold State.walk
  rw [walkSets_congr hc h _ hc.rules, h.f]

omit hc

theorem any_contains_congr {l l' : List Prefix} {a b : Addr} (hl : l ⊆ l')
    (h : ∀ x ∈ l', x.contains a = x.contains b) :
    l.any (·.contains a) = l.any (·.contains b) := by
  rw [Bool.eq_iff_iff, List.any_eq_true, List.any_eq_true]
  exact exists_congr fun x => and_congr_right fun hx => by rw [h x (hl hx)]

include hc

theorem fromTunnel_eq (a : Option Addr) :
    a.elim false (s.protectedAddrs p.f).contains = a.elim false F.prot.contains := by
  cases a with
  | none => rfl
  | some a =>
    simpa using hc.prot a

theorem classifySidecar_congr (h : Alike F p q)
    (hn : s.spec.config.isNativeSidecar = true) : s.classifySidecar p = s.classifySidecar q := by
  unfold State.classifySidecar
  have hlan := any_contains_congr hc.lan h.dst.lan
  have hcontrol := propext h.mark.control
  have htunnel := propext (h.mark.tunnel (hc.config ▸ hn))
  rw [← hc.config] at hcontrol htunnel
  simp only [hcontrol, htunnel, hlan]
  rw [h.f]

theorem classifyGluetun_congr (h : Alike F p q) (fromTunnel : Bool) :
    s.classifyGluetun p fromTunnel (s.hostSubnets p.f) =
      s.classifyGluetun q fromTunnel (s.hostSubnets q.f) := by
  unfold State.classifyGluetun
  have hhost := any_contains_congr hc.hostSubnets h.dst.host
  have hcontrol := propext h.mark.control
  have hov := h.dst.overlay
  rw [← hc.config] at hcontrol hov
  simp only [hcontrol, propext h.mark.gluetun, hov, h.proto, hhost, h.src.unbound]
  rw [h.f]

theorem classifier_congr (h : Alike F p q) :
    s.classifier p = s.classifier q := by
  have hcq : Covers F s q.f := h.f ▸ hc
  have hloc : s.isLocal p.f p.dst = s.isLocal q.f q.dst := by
    rw [isLocal_eq hc, isLocal_eq hcq, h.dst.loc]
  have hprot : p.src.elim false (s.protectedAddrs p.f).contains =
      q.src.elim false (s.protectedAddrs q.f).contains := by
    rw [fromTunnel_eq hc, fromTunnel_eq hcq, h.src.prot]
  unfold State.classifier State.classify
  simp only [h.iif, hloc, hprot, h.proto, classifyGluetun_congr hc h]
  rw [h.f]
  cases hn : s.spec.config.isNativeSidecar with
  | true => rw [classifySidecar_congr hc h hn]
  | false => rfl

omit hc

end Molebridge
