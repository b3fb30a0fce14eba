import Molebridge.Proofs.Items

/-! The rules the contract can ask for, of every kind and backend, one constructor a
rule. What holds of all of them, such as that no two neighbouring priorities have
rules a delete could take for each other, is said by going through them. -/

namespace Molebridge

/-- A rule that `Rules` adds for some configuration and some tunnel addresses. -/
inductive AddedRule (c : Config) (f : Family) : Rule → Prop
  | localGuard (h : c.isNativeSidecar = false) : AddedRule c f (Spec.localGuard c f)
  | tempGuard (h : c.isNativeSidecar = false) : AddedRule c f (Spec.tempGuardRule c f)
  | markHost (h : c.isGluetun = true ∨ c.isNativeSidecar = true) (table : ℕ) :
      AddedRule c f (Spec.markedLo (lookupRule prioMarkHost f table) c.controlMark)
  | markReject (h : c.isGluetun = true ∨ c.isNativeSidecar = true) :
      AddedRule c f (Spec.markedLo (rejectRule prioMarkReject f) c.controlMark)
  | lan (h : c.isNativeSidecar = true) (p : Prefix) :
      AddedRule c f { lookupRule prioFromTunnel f tableMain with iifName := "lo", dst := some p }
  | tunnelMark (h : c.isNativeSidecar = true) :
      AddedRule c f (Spec.markedLo (lookupRule prioTunnelMark f tableMain) c.tunnelMark)
  | fromTunnel (ov : Prefix) :
      AddedRule c f { lookupRule prioFromTunnel f tableMain with iifName := c.exitIf, dst := some ov }
  | overlayMain (h : c.isGluetun = true) (ov : Prefix) :
      AddedRule c f { lookupRule prioOverlayMain f tableMain with
        iifName := "lo", dst := some ov, suppressPrefixLen := some 0 }
  | overlayReject (h : c.isGluetun = true) (ov : Prefix) :
      AddedRule c f { rejectRule prioOverlayReject f with iifName := "lo", dst := some ov }
  | returnPath (a : Addr) :
      AddedRule c f { lookupRule prioReturnPath f c.table with
        src := some (Prefix.host a), ipProto := some (icmp f) }
  | backstop (h : c.isGluetun = false) (a : Addr) :
      AddedRule c f { rejectRule prioBackstop f with
        src := some (Prefix.host a), ipProto := some (icmp f) }
  | sidecarEgress (h : c.isNativeSidecar = true) :
      AddedRule c f { lookupRule prioEgress f c.table with iifName := "lo" }
  | sidecarReject (h : c.isNativeSidecar = true) :
      AddedRule c f { rejectRule prioIngressReject f with iifName := "lo" }
  | ingress (h : c.isNativeSidecar = false) :
      AddedRule c f { lookupRule prioIngress f c.table with iifName := c.overlayIf }
  | egress (h : c.isNativeSidecar = false) :
      AddedRule c f { lookupRule prioEgress f c.table with oifName := c.exitIf }
  | ingressReject (h : c.isNativeSidecar = false) :
      AddedRule c f { rejectRule prioIngressReject f with iifName := c.overlayIf }
  | gluetunMark (h : c.isGluetun = true) :
      AddedRule c f (Spec.markedLo (lookupRule prioGluetunMark f tableMain) gluetunMark)
  | hostSubnets (h : c.isGluetun = true) :
      AddedRule c f { lookupRule prioHostSubnets f c.hostTable with
        iifName := "lo", suppressPrefixLen := some 0 }
  | killSwitch (h : c.isGluetun = true) :
      AddedRule c f { rejectRule prioKillSwitch f with iifName := "lo" }

variable {s : Spec} {f : Family} {r x : Rule} {a : Addr}

theorem addedRule_cases (h : r ∈ s.addedRules f) : AddedRule s.config f r ∧
    ((∃ a ∈ s.returnPath f, r ∈ returnPathPair s.config f a) ∨
      (r.priority ≠ prioReturnPath ∧ r.priority ≠ prioBackstop)) := by
  simp only [Spec.addedRules, List.mem_flatten, List.mem_cons, List.not_mem_nil, or_false,
    exists_eq_or_imp, exists_eq_left] at h
  rcases h with h | h | h | h | h | h | h
  · unfold Spec.guardRules at h
    split_ifs at h with hn ht
    · cases h
    · rcases List.mem_pair.1 h with rfl | rfl
      · exact ⟨.localGuard (by simpa using hn), .inr ⟨nofun, nofun⟩⟩
      · exact ⟨.tempGuard (by simpa using hn), .inr ⟨nofun, nofun⟩⟩
    · obtain rfl := List.mem_singleton.1 h
      exact ⟨.localGuard (by simpa using hn), .inr ⟨nofun, nofun⟩⟩
  · obtain ⟨hkind, h⟩ := List.mem_ite_nil_right.1 h
    rw [Bool.or_eq_true] at hkind
    rcases List.mem_pair.1 h with rfl | rfl
    · exact ⟨.markHost hkind _, .inr ⟨nofun, nofun⟩⟩
    · exact ⟨.markReject hkind, .inr ⟨nofun, nofun⟩⟩
  · obtain ⟨hn, h⟩ := List.mem_ite_nil_right.1 h
    rcases List.mem_append.1 h with h | h
    · obtain ⟨p, -, rfl⟩ := List.mem_map.1 h
      exact ⟨.lan hn p, .inr ⟨nofun, nofun⟩⟩
    · obtain rfl := List.mem_singleton.1 h
      exact ⟨.tunnelMark hn, .inr ⟨nofun, nofun⟩⟩
  · unfold Spec.overlayRules at h
    cases hov : s.config.overlayFor f with
    | none =>
      rw [hov] at h
      cases h
    | some ov =>
      rw [hov] at h
      rcases List.mem_cons.1 h with rfl | h
      · exact ⟨.fromTunnel ov, .inr ⟨nofun, nofun⟩⟩
      · obtain ⟨hg, h⟩ := List.mem_ite_nil_right.1 h
        rcases List.mem_pair.1 h with rfl | rfl
        · exact ⟨.overlayMain hg ov, .inr ⟨nofun, nofun⟩⟩
        · exact ⟨.overlayReject hg ov, .inr ⟨nofun, nofun⟩⟩
  · refine ⟨?_, .inl (List.mem_flatMap.1 h)⟩
    obtain ⟨a, -, h⟩ := List.mem_flatMap.1 h
    rcases List.mem_cons.1 h with rfl | h
    · exact .returnPath a
    · split_ifs at h with hg
      · cases h
      · obtain rfl := List.mem_singleton.1 h
        exact .backstop (by simpa using hg) a
  · unfold Spec.ingressRules at h
    split_ifs at h with hn
    · rcases List.mem_pair.1 h with rfl | rfl
      · exact ⟨.sidecarEgress hn, .inr ⟨nofun, nofun⟩⟩
      · exact ⟨.sidecarReject hn, .inr ⟨nofun, nofun⟩⟩
    · rw [Bool.not_eq_true] at hn
      rcases List.mem_cons.1 h with rfl | h
      · exact ⟨.ingress hn, .inr ⟨nofun, nofun⟩⟩
      · rcases List.mem_pair.1 h with rfl | rfl
        · exact ⟨.egress hn, .inr ⟨nofun, nofun⟩⟩
        · exact ⟨.ingressReject hn, .inr ⟨nofun, nofun⟩⟩
  · obtain ⟨hg, h⟩ := List.mem_ite_nil_right.1 h
    rcases List.mem_cons.1 h with rfl | h
    · exact ⟨.gluetunMark hg, .inr ⟨nofun, nofun⟩⟩
    · rcases List.mem_pair.1 h with rfl | rfl
      · exact ⟨.hostSubnets hg, .inr ⟨nofun, nofun⟩⟩
      · exact ⟨.killSwitch hg, .inr ⟨nofun, nofun⟩⟩

theorem addedRule_of_mem (h : r ∈ s.addedRules f) : AddedRule s.config f r := (addedRule_cases h).1

theorem pair_of_mem (h : r ∈ s.addedRules f)
    (hp : r.priority = prioReturnPath ∨ r.priority = prioBackstop) :
    ∃ a ∈ s.returnPath f, r ∈ returnPathPair s.config f a :=
  (addedRule_cases h).2.resolve_right fun hno => hp.elim hno.1 hno.2

theorem mem_rules (h : r ∈ s.rules f) :
    s.config.isGluetunSidecar = false ∧ r ∈ s.addedRules f := by
  unfold Spec.rules at h
  split_ifs at h with hgs
  · cases h
  · rw [List.mem_insertionSort, List.mem_filter] at h
    exact ⟨by simpa using hgs, h.1⟩

variable {c : Config}

theorem pair_mem_rules (hg : s.config.isGluetunSidecar = false)
    (hleave : s.leaveReturnPath f = false) (ha : a ∈ s.returnPath f) (hr : r ∈ returnPathPair s.config f a) :
    r ∈ s.rules f := by
  unfold Spec.rules
  rw [if_neg (by simp [hg]), List.mem_insertionSort, List.mem_filter]
  refine ⟨?_, by simp [Spec.skipped, hleave]⟩
  simp only [Spec.addedRules, List.mem_flatten, List.mem_cons, exists_eq_or_imp]
  exact .inr (.inr (.inr (.inr (.inl (List.mem_flatMap.2 ⟨a, ha, hr⟩)))))

def Config.priorities (c : Config) : List ℕ :=
  if c.isNativeSidecar then [88, 89, 90, 93, 94, 96, 97, 98]
  else if c.isGluetun then [1, 80, 88, 89, 90, 91, 92, 94, 95, 96, 97, 102, 103, 104]
  else [1, 80, 90, 94, 95, 96, 97, 98]

namespace AddedRule

variable {c : Config} {f : Family} {r : Rule}
variable (h : AddedRule c f r)

include h

theorem family : r.family = f := by
  cases h <;> rfl

theorem goto : r.goto = none := by
  cases h <;> rfl

theorem action :
    r.action = if r.priority ∈ [80, 89, 92, 97, 98, 104] then frActUnreachable else frActToTbl := by
  cases h <;> rfl

theorem suppressPrefixLen :
    r.suppressPrefixLen = if r.priority ∈ [91, 103] then some 0 else none := by
  cases h <;> rfl

theorem src :
    if r.priority ∈ [94, 98] then r.iifName = "" ∧ ∃ a, r.src = some (Prefix.host a) else r.src = none := by
  cases h <;> first | rfl | exact ⟨rfl, _, rfl⟩

omit h

theorem not_gluetun_of_sidecar (hn : c.isNativeSidecar = true) : c.isGluetun = false := by
  revert hn
  unfold Config.isNativeSidecar Config.isGluetun
  cases c.backend <;> simp

include h

theorem priority_mem : r.priority ∈ c.priorities := by
  have hng := not_gluetun_of_sidecar (c := c)
  unfold Config.priorities
  cases h <;> split_ifs <;> first | exact List.elem_iff.1 rfl | simp_all

theorem ingress_names (hp : r.priority = prioIngress) :
    c.isNativeSidecar = false ∧ r.iifName = c.overlayIf ∧ r.oifName = "" := by
  cases h <;> first | exact ⟨‹_›, rfl, rfl⟩ | cases hp

theorem egress_names (hp : r.priority = prioEgress)
    (hn : c.isNativeSidecar = false) : r.oifName = c.exitIf := by
  cases h with
  | egress => rfl
  | sidecarEgress h =>
    rw [hn] at h
    cases h
  | _ => cases hp

omit h

end AddedRule

/-! ### Neighbouring priorities -/

/-- What a rule that a delete request takes agrees with the request in. -/
structure TakenFor (req x : Rule) : Prop where
  priority : req.priority = x.priority
  action : req.action = 0 ∨ req.action = x.action
  iifName : req.iifName = "" ∨ req.iifName = x.iifName
  oifName : req.oifName = "" ∨ req.oifName = x.oifName
  suppressPrefixLen : req.suppressPrefixLen = none ∨ req.suppressPrefixLen = x.suppressPrefixLen
  src : ∀ p, req.src = some p → 0 < p.bits → x.src = some p

theorem takenFor {req : Rule} (h : deleteMatches req x = true) : TakenFor req x := by
  simp only [deleteMatches, List.all_cons, Bool.and_eq_true, id_eq, beq_iff_eq, Bool.or_eq_true] at h
  obtain ⟨h1, h2, -, h4, h5, -, -, -, h9, -, -, -, h13, -⟩ := h
  refine ⟨h1, h2, h4, h5, ?_, fun p hp hb => ?_⟩
  · cases hs : req.suppressPrefixLen with
    | none => exact .inl rfl
    | some n => simpa [givenDiffers, hs] using h9
  · by_contra hne
    have hne' : some p ≠ x.src := fun h => hne h.symm
    simp [prefixDiffers, hp, hb, hne'] at h13

/-- The interface names rules are written with are not empty. -/
def Config.Named (c : Config) : Prop :=
  c.isNativeSidecar = true ∨ (c.overlayIf ≠ "" ∧ c.exitIf ≠ "")

theorem neighbours_mem {p : ℕ} (h : p + 1 ∈ c.priorities) (h' : p ∈ c.priorities) :
    p ∈ [88, 89, 90, 91, 93, 94, 95, 96, 97, 102, 103] := by
  unfold Config.priorities at h h'
  split_ifs at h h'
  · exact (by decide : ∀ q ∈ [88, 89, 90, 93, 94, 96, 97, 98], q + 1 ∈ [88, 89, 90, 93, 94, 96, 97, 98] →
      q ∈ [88, 89, 90, 91, 93, 94, 95, 96, 97, 102, 103]) p h' h
  · exact (by decide : ∀ q ∈ [1, 80, 88, 89, 90, 91, 92, 94, 95, 96, 97, 102, 103, 104],
      q + 1 ∈ [1, 80, 88, 89, 90, 91, 92, 94, 95, 96, 97, 102, 103, 104] →
      q ∈ [88, 89, 90, 91, 93, 94, 95, 96, 97, 102, 103]) p h' h
  · exact (by decide : ∀ q ∈ [1, 80, 90, 94, 95, 96, 97, 98], q + 1 ∈ [1, 80, 90, 94, 95, 96, 97, 98] →
      q ∈ [88, 89, 90, 91, 93, 94, 95, 96, 97, 102, 103]) p h' h

/-- A rule with the items of one that selects a host is not taken for one that has the
items of one without a source. -/
theorem not_taken_of_src {w e e' : Rule} (hw : equalItems w.items e.items = true)
    (hx : equalItems x.items e'.items = true) (he : e.src = some (Prefix.host a)) (he' : e'.src = none)
    (hsrc : ∀ p, w.src = some p → 0 < p.bits → x.src = some p) : False := by
  have hmask := Rule.src_masked_eq hw
  rw [he] at hmask
  obtain ⟨q, hq, hqm⟩ := Option.map_eq_some_iff.1 hmask
  have hbits : q.bits = a.bitLen := congrArg Prefix.bits hqm
  have hpos : 0 < q.bits := by
    rw [hbits, Addr.bitLen]
    cases a.fam <;> decide
  have hx' := Rule.src_masked_eq hx
  rw [hsrc q hq hpos, he'] at hx'
  cases hx'

/-- A rule of the contract, moved one priority earlier, is not taken for one there:
the two differ in the action, a suppressor, an interface or the source. -/
theorem neighbours_differ (hc : c.Named) {w e e' : Rule} {p : ℕ}
    (he : AddedRule c f e) (hep : e.priority = p + 1) (hw : equalItems w.items e.items = true)
    (he' : AddedRule c f e') (hep' : e'.priority = p) (hx : equalItems x.items e'.items = true) :
    deleteMatches { w with priority := p } x = false := by
  by_contra hno
  obtain ⟨-, haction, hiif, hoif, hsup, hsrc⟩ := takenFor (by simpa using hno)
  rw [Rule.action_eq hw he.goto, Rule.action_eq hx he'.goto, he.action, he'.action, hep, hep'] at haction
  rw [Rule.suppressPrefixLen_eq hw, Rule.suppressPrefixLen_eq hx, he.suppressPrefixLen, he'.suppressPrefixLen,
    hep, hep'] at hsup
  rw [Rule.iifName_eq hw, Rule.iifName_eq hx] at hiif
  rw [Rule.oifName_eq hw, Rule.oifName_eq hx] at hoif
  have hs := he.src
  have hs' := he'.src
  have hin := he'.ingress_names
  rw [hep] at hs
  rw [hep'] at hs' hin
  have hmem := neighbours_mem (hep ▸ he.priority_mem) (hep' ▸ he'.priority_mem)
  simp only [List.mem_cons, List.not_mem_nil, or_false] at hmem
  rcases hmem with rfl | rfl | rfl | rfl | rfl | rfl | rfl | rfl | rfl | rfl | rfl
  · exact absurd haction (by decide)
  · exact absurd haction (by decide)
  · exact absurd hsup (by decide)
  · exact absurd haction (by decide)
  · obtain ⟨-, a, ha⟩ := hs
    exact not_taken_of_src hw hx ha hs' hsrc
  · obtain ⟨hn, hname, -⟩ := he.ingress_names hep
    rw [hname, hs'.1, or_self] at hiif
    exact (hc.resolve_left (by simp [hn])).1 hiif
  · obtain ⟨hn, -, hname⟩ := hin rfl
    rw [he.egress_names hep hn, hname, or_self] at hoif
    exact (hc.resolve_left (by simp [hn])).2 hoif
  · exact absurd haction (by decide)
  · obtain ⟨-, a, ha⟩ := hs
    exact not_taken_of_src hw hx ha hs' hsrc
  · exact absurd hsup (by decide)
  · exact absurd haction (by decide)
end Molebridge
