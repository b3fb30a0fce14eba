import Molebridge.Proofs.Containment

/-! The rules of a native overlay's contract against the packets it protects:
what arrives on the overlay interface, and ICMP from a tunnel address, which the
exit itself sends. Every rule is harmless to them while the exit table leads
nowhere but into the tunnel, and 97 and 98 stop them; so do 95 and 94 while the
table answers. -/

namespace Molebridge

section Rules

variable (c : Config) (f : Family)

def fromTunnelRule (overlay : Prefix) : Rule :=
  { lookupRule prioFromTunnel f tableMain with iifName := c.exitIf, dst := some overlay }

def returnPathRule (a : Addr) : Rule :=
  { lookupRule prioReturnPath f c.table with src := some (Prefix.host a), ipProto := some (icmp f) }

def backstopRule (a : Addr) : Rule :=
  { rejectRule prioBackstop f with src := some (Prefix.host a), ipProto := some (icmp f) }

def ingressRule : Rule := { lookupRule prioIngress f c.table with iifName := c.overlayIf }

def egressRule : Rule := { lookupRule prioEgress f c.table with oifName := c.exitIf }

def ingressReject : Rule := { rejectRule prioIngressReject f with iifName := c.overlayIf }

/-- The rules a native overlay's contract is made of. -/
inductive ContractRule : Rule → Prop
  | localGuard : ContractRule (Spec.localGuard c f)
  | tempGuard : ContractRule (Spec.tempGuardRule c f)
  | fromTunnel (overlay : Prefix) (h : c.overlayFor f = some overlay) :
    ContractRule (fromTunnelRule c f overlay)
  | returnPath (a : Addr) : ContractRule (returnPathRule c f a)
  | backstop (a : Addr) : ContractRule (backstopRule f a)
  | ingress : ContractRule (ingressRule c f)
  | egress : ContractRule (egressRule c f)
  | ingressReject : ContractRule (ingressReject c f)

end Rules

variable {c : Config} {f : Family}

variable {r : Rule} {a : Addr}

theorem ContractRule.goto (h : ContractRule c f r) : r.goto = none := by
  cases h <;> rfl

theorem ContractRule.unknown (h : ContractRule c f r) : r.unknown = [] := by
  cases h <;> rfl

namespace Config.NativeOverlay

variable (h : c.NativeOverlay)

include h

theorem not_gluetun : c.isGluetun = false := by simp [isGluetun, h.backend]

theorem not_sidecar : c.isNativeSidecar = false := by simp [isNativeSidecar, h.kind]

theorem not_gluetunSidecar : c.isGluetunSidecar = false := by simp [isGluetunSidecar, h.kind]

theorem table_ne_local : c.table ≠ tableLocal := by
  have := h.table_ge
  unfold tableLocal
  omega

end Config.NativeOverlay

theorem returnPathPair_eq (hc : c.NativeOverlay) (f : Family) (a : Addr) :
    returnPathPair c f a = [returnPathRule c f a, backstopRule f a] := by
  simp [returnPathPair, hc.not_gluetun, returnPathRule, backstopRule]

namespace Spec

variable {s : Spec}
variable (hc : s.config.NativeOverlay)

include hc

theorem addedRules_eq (f : Family) : s.addedRules f =
    localGuard s.config f :: (if s.tempGuard f then [tempGuardRule s.config f] else []) ++
      ((s.config.overlayFor f).map (fromTunnelRule s.config f)).toList ++
      (s.returnPath f).flatMap (fun a => [returnPathRule s.config f a, backstopRule f a]) ++
      [ingressRule s.config f, egressRule s.config f, ingressReject s.config f] := by
  have hpair : returnPathPair s.config f =
      fun a => [returnPathRule s.config f a, backstopRule f a] :=
    funext fun a => returnPathPair_eq hc f a
  simp only [addedRules, guardRules, controlRules, sidecarRules, overlayRules, ingressRules,
    killSwitchRules, hc.not_gluetun, hc.not_sidecar, hpair]
  cases s.config.overlayFor f <;>
    simp [ingressRule, egressRule, ingressReject, fromTunnelRule]

theorem mem_rules_iff (f : Family) (r : Rule) :
    r ∈ s.rules f ↔ r ∈ s.addedRules f ∧ s.skipped f r.priority = false := by
  unfold rules
  rw [if_neg (by simp [hc.not_gluetunSidecar]), List.mem_insertionSort, List.mem_filter]
  simp

theorem mem_rules_overlay : r ∈ s.rules f ↔
    (r = localGuard s.config f ∨ (s.tempGuard f = true ∧ r = tempGuardRule s.config f) ∨
      (∃ ov, s.config.overlayFor f = some ov ∧ fromTunnelRule s.config f ov = r) ∨
      (∃ a ∈ s.returnPath f, r = returnPathRule s.config f a ∨ r = backstopRule f a) ∨
      r = ingressRule s.config f ∨ r = egressRule s.config f ∨ r = ingressReject s.config f) ∧
    s.skipped f r.priority = false := by
  rw [mem_rules_iff hc, addedRules_eq hc]
  simp

theorem contractRule_of_mem (h : r ∈ s.rules f) :
    ContractRule s.config f r := by
  rcases ((mem_rules_overlay hc).1 h).1 with
    rfl | ⟨-, rfl⟩ | ⟨ov, hov, rfl⟩ | ⟨a, -, rfl | rfl⟩ | rfl | rfl | rfl
  · exact .localGuard
  · exact .tempGuard
  · exact .fromTunnel ov hov
  · exact .returnPath a
  · exact .backstop a
  · exact .ingress
  · exact .egress
  · exact .ingressReject

theorem ingress_mem_rules (f : Family) :
    ingressRule s.config f ∈ s.rules f ∧ ingressReject s.config f ∈ s.rules f := by
  refine ⟨(mem_rules_overlay hc).2 ⟨by simp, ?_⟩, (mem_rules_overlay hc).2 ⟨by simp, ?_⟩⟩
  · simp [skipped, ingressRule, lookupRule, prioIngress, prioReturnPath, prioBackstop]
  · simp [skipped, ingressReject, rejectRule, prioIngressReject, prioReturnPath, prioBackstop]

theorem returnPath_mem_rules (hleave : s.leaveReturnPath f = false) (ha : a ∈ s.returnPath f) :
    returnPathRule s.config f a ∈ s.rules f ∧ backstopRule f a ∈ s.rules f := by
  have hskip : ∀ n, s.skipped f n = false := by simp [skipped, hleave]
  refine ⟨(mem_rules_overlay hc).2 ⟨?_, hskip _⟩, (mem_rules_overlay hc).2 ⟨?_, hskip _⟩⟩
  · exact .inr (.inr (.inr (.inl ⟨a, ha, .inl rfl⟩)))
  · exact .inr (.inr (.inr (.inl ⟨a, ha, .inr rfl⟩)))

omit hc

end Spec

/-! ### The protected packets -/

/-- A packet of its family that arrives on the overlay interface. -/
def Arrives (s : State) (p : Packet) : Prop :=
  p.dst.fam = p.f ∧ p.iif = s.spec.config.overlayIf

/-- An ICMP packet of its family that the exit sends out of the namespace from
one of the addresses. -/
def Sends (s : State) (addrs : List Addr) (p : Packet) : Prop :=
  p.dst.fam = p.f ∧ p.iif = "lo" ∧ p.proto = icmp p.f ∧ s.isLocal p.f p.dst = false ∧
    ∃ a ∈ addrs, p.src = some a

/-- In by the tunnel for an address of the overlay, which rule 90 leaves to main. -/
def FromTunnel (s : State) (p : Packet) : Prop :=
  p.iif = s.spec.config.exitIf ∧
    ∃ ov, s.spec.config.overlayFor p.f = some ov ∧ outside (some ov) (some p.dst) = false

/-- An ICMP packet of its family from one of the addresses to a destination outside
the namespace, wherever it comes from but by the tunnel for the overlay. -/
def Replies (s : State) (addrs : List Addr) (p : Packet) : Prop :=
  p.dst.fam = p.f ∧ ¬ FromTunnel s p ∧ p.proto = icmp p.f ∧ s.isLocal p.f p.dst = false ∧
    ∃ a ∈ addrs, p.src = some a

theorem Sends.replies {s : State} {addrs : List Addr} {p : Packet} (hlo : s.spec.config.exitIf ≠ "lo")
    (h : Sends s addrs p) : Replies s addrs p :=
  ⟨h.1, fun hft => hlo (hft.1.symm.trans h.2.1), h.2.2⟩

/-- Stopped, or out of the tunnel interface, which exists. -/
def Held (s : State) (o : Outcome) : Prop :=
  o.kind = .stopped ∨ (o.kind = .viaDev ∧ o.dev = s.exitIdx ∧ s.exitIdx ≠ 0)

/-- The exit table is read, and all its routes of a family stop a packet or send
it into the tunnel. -/
def ExitTableHeld (s : State) (f : Family) : Prop :=
  s.spec.config.table ∈ s.known ∧
    ∀ rt ∈ s.tableRoutes f s.spec.config.table, ∀ o, disposition rt = some o → Held s o

section Harmless

variable {s : State} {p : Packet}

theorem harmless_exit_lookup (hloc : s.spec.config.table ≠ tableLocal) (ht : ExitTableHeld s p.f)
    (ha : r.action = frActToTbl) (htab : r.table = s.spec.config.table) :
    s.Harmless p (Held s) r := by
  refine .inr (.inr ⟨ha, fun o ho => ?_⟩)
  obtain ⟨x, hx, rfl⟩ := List.mem_map.1 ho
  exact State.lookup_places (by rw [htab]; exact hloc) (by rw [htab]; exact ht.1)
    (by rw [htab]; exact ht.2) x hx

theorem ruleMatches_other_iif (hname : r.iifName ≠ "") (hne : r.iifName ≠ p.iif)
    (hinv : r.invert = false) : ruleMatches r p = .no := by
  unfold ruleMatches
  rw [if_neg, hinv, if_neg (by simp)]
  simp [selectorsAccept, hname, hne]

theorem validInterfaceName_ne {name : String} (h : validInterfaceName name = true) : name ≠ "" := by
  rintro rfl
  simp [validInterfaceName] at h

theorem ruleMatches_fromTunnel (hc : s.spec.config.NativeOverlay) (h : ¬ FromTunnel s p) {ov : Prefix}
    (hov : s.spec.config.overlayFor p.f = some ov) :
    ruleMatches (fromTunnelRule s.spec.config p.f ov) p = .no := by
  have hinv : (fromTunnelRule s.spec.config p.f ov).invert = false := by
    simp [Rule.invert, fromTunnelRule, lookupRule]
  by_cases hiif : s.spec.config.exitIf = p.iif
  · have hout : outside (some ov) (some p.dst) = true := by
      by_contra hin
      exact h ⟨hiif.symm, ov, hov, by simpa using hin⟩
    unfold ruleMatches
    rw [if_neg, hinv, if_neg (by simp)]
    simp [selectorsAccept, fromTunnelRule, hout]
  · exact ruleMatches_other_iif (validInterfaceName_ne hc.exitIf_valid) hiif hinv

theorem ruleMatches_localGuard (f : Family) (h : p.iif = s.spec.config.overlayIf) :
    ruleMatches (Spec.localGuard s.spec.config f) p = .no := by
  simp [ruleMatches, selectorsAccept, undecided, Spec.localGuard, lookupRule, Rule.ext,
    Rule.effectiveMark, Rule.invert, Rule.extraFlags, Rule.bookkeepingFlags, outside, outsideRange, h,
    fibRuleInvert, fibRulePermanent, fibRuleIifDetached, fibRuleOifDetached]

theorem ruleMatches_ingress (f : Family) (h : p.iif = s.spec.config.overlayIf) :
    ruleMatches (ingressRule s.spec.config f) p = .yes ∧
      ruleMatches (ingressReject s.spec.config f) p = .yes := by
  simp [ruleMatches, selectorsAccept, undecided, ingressRule, ingressReject, lookupRule, rejectRule, Rule.ext,
    Rule.effectiveMark, Rule.invert, Rule.extraFlags, outside, outsideRange, h]

theorem ruleMatches_returnPath (hproto : p.proto = icmp p.f) (hsrc : p.src = some a) :
    ruleMatches (returnPathRule s.spec.config p.f a) p = .yes ∧
      ruleMatches (backstopRule p.f a) p = .yes := by
  have hin : (Prefix.host a).contains a = true := by simp [Prefix.contains, Prefix.host]
  simp [ruleMatches, selectorsAccept, undecided, returnPathRule, backstopRule, lookupRule, rejectRule, Rule.ext,
    Rule.effectiveMark, Rule.invert, Rule.extraFlags, outside, outsideRange, hproto, hsrc, hin]

theorem harmless_arrives (hc : s.spec.config.NativeOverlay) (ht : ExitTableHeld s p.f)
    (hp : Arrives s p) (hr : ContractRule s.spec.config p.f r) :
    s.Harmless p (Held s) r := by
  cases hr with
  | localGuard => exact .inl (ruleMatches_localGuard _ hp.2)
  | tempGuard => exact .inr (.inl (.inl rfl))
  | fromTunnel ov hov =>
    exact .inl (ruleMatches_fromTunnel hc (fun hft => hc.differ (hp.2.symm.trans hft.1)) hov)
  | returnPath a => exact harmless_exit_lookup hc.table_ne_local ht rfl rfl
  | backstop a => exact .inr (.inl (.inl rfl))
  | ingress | egress => exact harmless_exit_lookup hc.table_ne_local ht rfl rfl
  | ingressReject => exact .inr (.inl (.inl rfl))

variable {addrs : List Addr}

theorem harmless_replies (hc : s.spec.config.NativeOverlay) (ht : ExitTableHeld s p.f)
    (hp : Replies s addrs p) (hr : ContractRule s.spec.config p.f r) : s.Harmless p (Held s) r := by
  obtain ⟨-, hother, -, hloc, -⟩ := hp
  cases hr with
  | localGuard =>
    -- the local table does not answer, so the walk goes on
    refine .inr (.inr ⟨rfl, fun o ho => ?_⟩)
    have hl : s.lookup (Spec.localGuard s.spec.config p.f) p = ([], true) := by
      simp [State.lookup, Spec.localGuard, lookupRule, hloc]
    simp [hl, places] at ho
  | tempGuard => exact .inr (.inl (.inl rfl))
  | fromTunnel ov hov => exact .inl (ruleMatches_fromTunnel hc hother hov)
  | returnPath a => exact harmless_exit_lookup hc.table_ne_local ht rfl rfl
  | backstop a => exact .inr (.inl (.inl rfl))
  | ingress | egress => exact harmless_exit_lookup hc.table_ne_local ht rfl rfl
  | ingressReject => exact .inr (.inl (.inl rfl))

theorem stops_ingressReject (hp : Arrives s p) : s.Stops p (ingressReject s.spec.config p.f) :=
  ⟨(ruleMatches_ingress p.f hp.2).2, .inl (.inl rfl)⟩

theorem stops_backstop (hp : Replies s addrs p) (ha : p.src = some a) :
    s.Stops p (backstopRule p.f a) :=
  ⟨(ruleMatches_returnPath (s := s) hp.2.2.1 ha).2, .inl (.inl rfl)⟩

/-- Rules that are the contract's item by item, one of which stops the packet,
hold a protected packet whatever rules stand behind them. -/
theorem walk_held (hc : s.spec.config.NativeOverlay) (ht : ExitTableHeld s p.f)
    (hp : Arrives s p ∨ Replies s addrs p)
    {low high : List Rule} (hrules : s.rules p.f = low ++ high)
    (hlow : ∀ r ∈ low, ∃ e, ContractRule s.spec.config p.f e ∧ equalItems r.items e.items = true)
    (hstop : ∃ r ∈ low, s.Stops p r) : ∀ o ∈ s.walk p, Held s o := by
  rw [s.walk_eq_walkFrom, hrules]
  refine State.mem_walkFrom_of_stops (fun o h => h) (fun r hr => ?_) hstop (.inl rfl)
  obtain ⟨e, he, hitems⟩ := hlow r hr
  refine State.Harmless.congr hitems he.goto he.unknown ?_
  rcases hp with hp | hp
  · exact harmless_arrives hc ht hp he
  · exact harmless_replies hc ht hp he

end Harmless

end Molebridge
