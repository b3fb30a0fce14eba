import Molebridge.Lib.Entries
import Molebridge.Proofs.Diff
import Molebridge.Proofs.Judgment
import Molebridge.Proofs.OneFault

/-! A plan that finds nothing to do is a contract that holds: the item-by-item
judgment (`diff`, `exitTableActions`, `unprotected`) implies that no protected
packet gets out but through the tunnel, which is what the packet-level judgment
(`State.violations`) checks. -/

namespace Molebridge

variable {r : Rule} {p : Packet}

/-! ### The exit table -/

theorem exitScan_clean {exitIf : ℕ} {mode : TunnelMode} (routes : List Route) {st : ExitScan}
    (h : (routes.foldl (exitScan exitIf mode) st).del = []) :
    st.del = [] ∧ ∀ r ∈ routes, isFallback r = true ∨ isTunnelRoute r exitIf = true := by
  induction routes generalizing st with
  | nil => exact ⟨h, by simp⟩
  | cons r t ih =>
    obtain ⟨hdel, ht⟩ := ih h
    unfold exitScan at hdel
    split_ifs at hdel with h1 h2
    · simp only [Bool.and_eq_true] at h1
      exact ⟨hdel, List.forall_mem_cons.2 ⟨.inl h1.1, ht⟩⟩
    · simp only [Bool.and_eq_true] at h2
      exact ⟨hdel, List.forall_mem_cons.2 ⟨.inr h2.1.1, ht⟩⟩
    · simp at hdel

theorem disposition_isFallback {r : Route} (h : isFallback r = true) :
    disposition r = some { kind := .stopped } := by
  simp only [isFallback, Bool.and_eq_true, beq_iff_eq] at h
  simp [disposition, h.1.1.1.1]

theorem disposition_isTunnelRoute {r : Route} {dev : ℕ} (h : isTunnelRoute r dev = true)
    (hencap : r.encap = false) :
    disposition r = some { kind := .viaDev, table := r.table, dev := dev } ∧ dev ≠ 0 := by
  simp only [isTunnelRoute, plainDeviceRoute, Bool.and_eq_true, beq_iff_eq, bne_iff_ne] at h
  obtain ⟨⟨⟨⟨⟨⟨⟨⟨htyp, -⟩, hdev⟩, hoif⟩, ⟨⟨⟨-, hvia⟩, hmulti⟩, hnhid⟩⟩, -⟩, -⟩, -⟩, -⟩ := h
  refine ⟨?_, hdev⟩
  simp [disposition, htyp, hoif, hvia, hmulti, Option.isNone_iff_eq_none.1 hnhid, hencap, rtnUnicast,
    rtnUnreachable, rtnBlackhole, rtnProhibit, rtnThrow]

/-! ### What a healthy plan says -/

section Healthy

variable {s : Spec} {snap : Snapshot} {f : Family} {starting : Bool}
variable (hc : s.config.NativeOverlay)

include hc in
theorem healthy_clean
    (h : (s.planFamily snap f starting).healthy = true) :
    diff (s.effective snap f) f (snap.rules f) false = [] ∧
      (∃ mode, exitTableActions (snap.routesInTable f s.config.table) f s.config.table
        (State.linkIndex snap s.config.exitIf) mode = []) ∧
      unprotected snap s.config f = false := by
  have hidx : ((snap.link s.config.exitIf).getD {}).index = State.linkIndex snap s.config.exitIf := by
    unfold State.linkIndex
    cases snap.link s.config.exitIf <;> rfl
  simp only [Plan.healthy, Plan.clean, Spec.planFamily, hc.not_gluetun,
    Bool.and_eq_true, List.isEmpty_iff, Bool.not_eq_true'] at h
  obtain ⟨⟨⟨⟨hrules, hroutes⟩, -⟩, hun⟩, -⟩ := h
  rw [hidx] at hroutes
  exact ⟨hrules, ⟨_, hroutes⟩, hun⟩

theorem effective_config (s : Spec) (snap : Snapshot) (f : Family) :
    (s.effective snap f).config = s.config := by
  unfold Spec.effective Spec.setReturnPath
  split_ifs <;> rfl

theorem effective_leave (s : Spec) (snap : Snapshot) (f : Family) :
    (s.effective snap f).leaveReturnPath = s.leaveReturnPath := by
  unfold Spec.effective Spec.setReturnPath
  split_ifs <;> rfl

theorem liveGlobals_eq {name : String} {link : Link} (h : snap.link name = some link) (f : Family) :
    liveGlobals snap name f =
      (((snap.addrs f).filter fun a => a.index == link.index && a.global).map (·.loc.addr)).foldl
        (fun out a => if out.contains a then out else out ++ [a]) [] := by
  have hfold : ∀ (l : List IfAddr) (out : List Addr),
      l.foldl (fun out a => if a.index == link.index && a.global && !out.contains a.loc.addr then
        out ++ [a.loc.addr] else out) out =
      ((l.filter fun a => a.index == link.index && a.global).map (·.loc.addr)).foldl
        (fun out a => if out.contains a then out else out ++ [a]) out := by
    intro l
    induction l with
    | nil => exact fun _ => rfl
    | cons a t ih =>
      intro out
      rw [List.foldl_cons, ih, List.filter_cons]
      cases a.index == link.index && a.global with
      | false => rfl
      | true =>
        simp only [if_true, List.map_cons, List.foldl_cons]
        cases out.contains a.loc.addr <;> rfl
  unfold liveGlobals
  rw [h]
  exact hfold (snap.addrs f) []

theorem mem_live (x : Addr) :
    x ∈ (State.fromSnapshot s snap).live f ↔ x ∈ liveGlobals snap s.config.exitIf f := by
  cases hl : snap.link s.config.exitIf with
  | none => simp [State.fromSnapshot, liveGlobals, hl]
  | some link =>
    rw [liveGlobals_eq hl, mem_foldl_add]
    simp [State.fromSnapshot, hl]

theorem sorted_sortedRules (l : List Rule) :
    (sortedRules l).Pairwise fun a b => a.priority ≤ b.priority := by
  exact List.pairwise_insertionSort _ l

theorem mem_sortedRules {l : List Rule} {r : Rule} : r ∈ sortedRules l ↔ r ∈ l := List.mem_insertionSort _

theorem split_sorted (n : ℕ) {l : List Rule} (h : l.Pairwise fun a b => a.priority ≤ b.priority) :
    l = (l.filter fun r => r.priority ≤ n) ++ l.filter fun r => !(decide (r.priority ≤ n)) := by
  induction h with
  | nil => rfl
  | @cons r t hr _ ih =>
    by_cases hn : r.priority ≤ n
    · simp [hn, ← ih]
    · have hlow : t.filter (fun r => decide (r.priority ≤ n)) = [] :=
        List.filter_eq_nil_iff.2 fun x hx => by
          have := hr x hx
          simp only [decide_eq_true_eq]
          omega
      simpa [hn, hlow] using ih

include hc

theorem same_of_returnPathShaped
    (h : s.returnPathShaped f r = true) :
    ∃ p, r.src = some p ∧ (Same r (returnPathRule s.config f p.addr) ∨ Same r (backstopRule f p.addr)) := by
  unfold Spec.returnPathShaped at h
  cases hsrc : r.src with
  | none => simp [hsrc] at h
  | some p =>
    simp only [hsrc, Bool.and_eq_true, List.any_eq_true, beq_iff_eq, returnPathPair_eq hc] at h
    obtain ⟨-, e, he, hprio, hitems⟩ := h
    refine ⟨p, rfl, ?_⟩
    rcases List.mem_cons.1 he with rfl | he
    · exact .inl ⟨hprio.symm, hitems⟩
    · obtain rfl := List.mem_singleton.1 he
      exact .inr ⟨hprio.symm, hitems⟩

theorem contractRule_of_healthy
    (h : (s.planFamily snap f starting).healthy = true) (hr : r ∈ snap.rules f)
    (hprio : r.priority ≤ prioBackstop) :
    ∃ e, ContractRule s.config f e ∧ equalItems r.items e.items = true := by
  have hce : (s.effective snap f).config = s.config := effective_config s snap f
  have hceff : (s.effective snap f).config.NativeOverlay := hce ▸ hc
  have howned : (s.effective snap f).owned r.priority = true := by
    simp [Spec.owned, hceff.not_sidecar, hceff.not_gluetun, hprio]
  rcases (diff_eq_nil (healthy_clean hc h).1).1 r hr howned with ⟨-, hshape⟩ | ⟨e, he, hsame⟩
  · obtain ⟨p, -, hsame | hsame⟩ := same_of_returnPathShaped hceff hshape
    · exact ⟨_, hce ▸ ContractRule.returnPath p.addr, hsame.2⟩
    · exact ⟨_, ContractRule.backstop p.addr, hsame.2⟩
  · exact ⟨e, hce ▸ Spec.contractRule_of_mem hceff he, hsame.2⟩

omit hc

theorem ContractRule.priority {c : Config} (h : ContractRule c f r) :
    r.priority ∈ addOrder ∧ r.priority ≤ prioBackstop := by
  cases h with
  | localGuard => exact (show prioLocalGuard ∈ addOrder ∧ prioLocalGuard ≤ prioBackstop by decide)
  | tempGuard => exact (show prioTempGuard ∈ addOrder ∧ prioTempGuard ≤ prioBackstop by decide)
  | fromTunnel => exact (show prioFromTunnel ∈ addOrder ∧ prioFromTunnel ≤ prioBackstop by decide)
  | returnPath => exact (show prioReturnPath ∈ addOrder ∧ prioReturnPath ≤ prioBackstop by decide)
  | backstop => exact (show prioBackstop ∈ addOrder ∧ prioBackstop ≤ prioBackstop by decide)
  | ingress => exact (show prioIngress ∈ addOrder ∧ prioIngress ≤ prioBackstop by decide)
  | egress => exact (show prioEgress ∈ addOrder ∧ prioEgress ≤ prioBackstop by decide)
  | ingressReject =>
    exact (show prioIngressReject ∈ addOrder ∧ prioIngressReject ≤ prioBackstop by decide)

include hc

theorem exists_same_of_healthy
    (h : (s.planFamily snap f starting).healthy = true) {e : Rule}
    (he : e ∈ (s.effective snap f).rules f) : ∃ r ∈ snap.rules f, Same r e := by
  have hce : (s.effective snap f).config = s.config := effective_config s snap f
  have hceff : (s.effective snap f).config.NativeOverlay := hce ▸ hc
  refine (diff_eq_nil (healthy_clean hc h).1).2 e he ?_
  rw [hceff.not_sidecar]
  exact (Spec.contractRule_of_mem hceff he).priority.1

theorem exists_backstop
    (hleave : s.leaveReturnPath f = true → s.returnPath f = [])
    (h : (s.planFamily snap f starting).healthy = true) {a : Addr}
    (ha : a ∈ (State.fromSnapshot s snap).protectedAddrs f) :
    ∃ r ∈ snap.rules f, Same r (backstopRule f a) := by
  have hce : (s.effective snap f).config = s.config := effective_config s snap f
  have ha : a ∈ liveGlobals snap s.config.exitIf f ∨ a ∈ s.returnPath f := by
    rcases List.mem_append.1 ha with ha | ha
    · exact .inl ((mem_live a).1 ha)
    · exact .inr ha
  cases hl : s.leaveReturnPath f with
  | false =>
    refine exists_same_of_healthy hc h (Spec.returnPath_mem_rules (hce ▸ hc) ?_ ?_).2
    · rw [effective_leave]; exact hl
    · unfold Spec.effective
      rw [if_neg (by simp [hc.not_gluetun]), if_neg (by simp [hl])]
      simp only [Spec.setReturnPath, Function.update_self, mem_foldl_add]
      exact ha.symm
  | true =>
    -- the comparison leaves the pair out; the address has its own rule 98
    have ha : a ∈ liveGlobals snap s.config.exitIf f :=
      ha.resolve_right (by simp [hleave hl])
    have hun := (healthy_clean hc h).2.2
    unfold unprotected at hun
    rw [List.any_eq_false] at hun
    have hsrc : hasSourceAt (snap.rules f) a prioBackstop = true := by
      have := hun a ha
      simp only [hc.not_gluetun] at this
      by_contra hno
      simp [hno] at this
    simp only [hasSourceAt, List.any_eq_true, Bool.and_eq_true, beq_iff_eq] at hsrc
    obtain ⟨r, hr, hra, hprio⟩ := hsrc
    refine ⟨r, hr, ?_⟩
    have hceff : (s.effective snap f).config.NativeOverlay := hce ▸ hc
    have howned : (s.effective snap f).owned r.priority = true := by
      simp [Spec.owned, hceff.not_sidecar, hceff.not_gluetun, hprio]
    rcases (diff_eq_nil (healthy_clean hc h).1).1 r hr howned with ⟨-, hshape⟩ | ⟨e, he, hsame⟩
    · obtain ⟨p, hp, hsame | hsame⟩ := same_of_returnPathShaped hceff hshape
      · exact absurd (hprio.symm.trans hsame.1) (show prioBackstop ≠ prioReturnPath by decide)
      · rw [hp] at hra
        rwa [← show p.addr = a by simpa using hra]
    · have hskip := ((Spec.mem_rules_iff hceff f e).1 he).2
      rw [← hsame.1, hprio] at hskip
      simp [Spec.skipped, hceff.not_gluetun, effective_leave, hl] at hskip

theorem tableRoutes_fromSnapshot (snap : Snapshot) (f : Family) :
    (State.fromSnapshot s snap).known = [s.config.table] ∧
      (State.fromSnapshot s snap).tableRoutes f s.config.table =
        snap.routesInTable f s.config.table := by
  have hint : s.interest = [s.config.table] := by
    simp [Spec.interest, hc.not_gluetun, hc.not_sidecar]
  constructor
  · simp [State.fromSnapshot, hint]
  · simp [State.fromSnapshot, State.tableRoutes, hint]

theorem exitTableHeld_of_healthy
    (hencap : ∀ rt ∈ snap.routesInTable f s.config.table, rt.encap = false)
    (h : (s.planFamily snap f starting).healthy = true) :
    ExitTableHeld (State.fromSnapshot s snap) f := by
  obtain ⟨hknown, hroutes⟩ := tableRoutes_fromSnapshot hc snap f
  refine ⟨by rw [hknown]; exact List.mem_singleton.2 rfl, fun rt hrt o ho => ?_⟩
  rw [show (State.fromSnapshot s snap).spec = s from rfl, hroutes] at hrt
  obtain ⟨_, hactions⟩ := (healthy_clean hc h).2.1
  simp only [exitTableActions, List.append_eq_nil_iff] at hactions
  rcases (exitScan_clean _ hactions.2).2 rt hrt with hfall | htun
  · rw [disposition_isFallback hfall] at ho
    cases ho
    exact .inl rfl
  · obtain ⟨hdisp, hne⟩ := disposition_isTunnelRoute htun (hencap rt hrt)
    rw [hdisp] at ho
    cases ho
    exact .inr ⟨rfl, rfl, hne⟩

theorem exists_stop_of_healthy (hlo : s.config.exitIf ≠ "lo")
    (hleave : s.leaveReturnPath f = true → s.returnPath f = [])
    (h : (s.planFamily snap f starting).healthy = true) (hpf : p.f = f)
    (hp : Arrives (State.fromSnapshot s snap) p ∨
      Sends (State.fromSnapshot s snap) ((State.fromSnapshot s snap).protectedAddrs f) p) :
    ∃ r ∈ snap.rules f, r.priority ≤ prioBackstop ∧ (State.fromSnapshot s snap).Stops p r := by
  subst hpf
  have hsame : ∀ e, ContractRule s.config p.f e → (State.fromSnapshot s snap).Stops p e →
      (∃ r ∈ snap.rules p.f, Same r e) →
      ∃ r ∈ snap.rules p.f, r.priority ≤ prioBackstop ∧ (State.fromSnapshot s snap).Stops p r := by
    rintro e he hst ⟨r, hr, hprio, hitems⟩
    exact ⟨r, hr, hprio ▸ he.priority.2, hst.congr hitems he.goto he.unknown⟩
  have hce : (s.effective snap p.f).config = s.config := effective_config s snap p.f
  rcases hp with hp | hp
  · have hmem := (Spec.ingress_mem_rules (hce ▸ hc) p.f).2
    rw [hce] at hmem
    exact hsame _ .ingressReject (stops_ingressReject hp) (exists_same_of_healthy hc h hmem)
  · obtain ⟨-, -, -, -, a, ha, hsrc⟩ := id hp
    exact hsame _ (.backstop a) (stops_backstop (hp.replies hlo) hsrc) (exists_backstop hc hleave h ha)

theorem walk_held_of_healthy (hlo : s.config.exitIf ≠ "lo")
    (hleave : s.leaveReturnPath f = true → s.returnPath f = [])
    (hencap : ∀ rt ∈ snap.routesInTable f s.config.table, rt.encap = false)
    (h : (s.planFamily snap f starting).healthy = true) (hpf : p.f = f)
    (hp : Arrives (State.fromSnapshot s snap) p ∨
      Sends (State.fromSnapshot s snap) ((State.fromSnapshot s snap).protectedAddrs f) p) :
    ∀ o ∈ (State.fromSnapshot s snap).walk p, Held (State.fromSnapshot s snap) o := by
  obtain ⟨r, hr, hprio, hstop⟩ := exists_stop_of_healthy hc hlo hleave h hpf hp
  subst hpf
  have hsorted := sorted_sortedRules (snap.rules p.f)
  refine walk_held hc (exitTableHeld_of_healthy hc hencap h) (hp.imp_right (·.replies hlo))
    (split_sorted prioBackstop hsorted) (fun x hx => ?_)
    ⟨r, List.mem_filter.2 ⟨mem_sortedRules.2 hr, by simpa using hprio⟩, hstop⟩
  obtain ⟨hx, hxprio⟩ := List.mem_filter.1 hx
  exact contractRule_of_healthy hc h (mem_sortedRules.1 hx) (by simpa using hxprio)

omit hc

end Healthy

/-! ### The packet-level judgment -/

theorem allows_of_held {s : State} (hidx : s.exitIdx ≠ unknownDev) {o : Outcome} (h : Held s o)
    (name : String) : ({ name := name, devs := [s.exitIdx] } : TrafficClass).allows o = true := by
  rcases h with h | ⟨hk, hdev, h0⟩
  · simp [TrafficClass.allows, h]
  · simp [TrafficClass.allows, hk, hdev, h0, hidx]

theorem not_escapes_of_held {s : State} (hc : s.spec.config.NativeOverlay)
    (hidx : s.exitIdx ≠ unknownDev) (hdst : p.dst.fam = p.f)
    (h : Arrives s p ∨ Sends s (s.protectedAddrs p.f) p → ∀ o ∈ s.walk p, Held s o) :
    ¬ Escapes s p := by
  rintro ⟨hany, o, ho, hforbid⟩
  unfold State.classifier State.classify at hany hforbid
  simp only [hc.not_sidecar, hc.not_gluetun, Bool.false_eq_true,
    if_false] at hany hforbid
  split_ifs at hany hforbid with h1 h2 h3 h4
  · have hheld := h (.inl ⟨hdst, by simpa using h1⟩) o ho
    rw [allows_of_held hidx hheld] at hforbid
    cases hforbid
  · simp only [Bool.and_eq_true, beq_iff_eq] at h4
    obtain ⟨hsrc, hproto⟩ := h4
    cases hs : p.src with
    | none => simp [hs] at hsrc
    | some a =>
      rw [hs, Option.elim_some, List.contains_iff_mem] at hsrc
      have hheld := h (.inr ⟨hdst, not_not.1 h2, hproto, by simpa using h3, a, hsrc, hs⟩) o ho
      rw [allows_of_held hidx hheld] at hforbid
      cases hforbid

/-- A contract that is healthy in both families is fail-closed: every protected
packet is stopped or leaves by the tunnel, and the policy finds no violation,
unless there are more classes than it judges. -/
theorem healthy_fail_closed (s : Spec) (snap : Snapshot) (starting : Bool)
    (hc : s.config.NativeOverlay) (hlo : s.config.exitIf ≠ "lo")
    (hidx : State.linkIndex snap s.config.exitIf ≠ unknownDev)
    (hleave : ∀ f, s.leaveReturnPath f = true → s.returnPath f = [])
    (hencap : ∀ f, ∀ rt ∈ snap.routesInTable f s.config.table, rt.encap = false)
    (h : ∀ f, (s.planFamily snap f starting).healthy = true) :
    (∀ p, Arrives (State.fromSnapshot s snap) p ∨
        Sends (State.fromSnapshot s snap) ((State.fromSnapshot s snap).protectedAddrs p.f) p →
      ∀ o ∈ (State.fromSnapshot s snap).walk p, Held (State.fromSnapshot s snap) o) ∧
    (Within (State.fromSnapshot s snap) [] → (State.fromSnapshot s snap).violations = []) := by
  have hheld : ∀ p, Arrives (State.fromSnapshot s snap) p ∨
        Sends (State.fromSnapshot s snap) ((State.fromSnapshot s snap).protectedAddrs p.f) p →
      ∀ o ∈ (State.fromSnapshot s snap).walk p, Held (State.fromSnapshot s snap) o :=
    fun p hp => walk_held_of_healthy hc hlo (hleave p.f) (hencap p.f) (h p.f) rfl hp
  refine ⟨hheld, fun hw => (violations_eq_nil_iff hc.not_gluetunSidecar).2 ⟨hw, fun f p hp => ?_⟩⟩
  have hlisted := listed_of_mem hp
  have hdst : p.dst.fam = p.f := by
    rw [hlisted.fam]
    rcases Facts.mem_addrs.1 hlisted.dst with hd | hd | ⟨hd, -⟩
    · rw [hd]; rfl
    · rw [hd]; exact otherAddr_fam f
    · exact hd
  exact not_escapes_of_held hc hidx hdst (hheld p)

/-! ### Two snapshots -/

def quietSpec : Spec where
  config := { kind := .overlay, backend := .native, overlayIf := "wt0", exitIf := "mullvad",
              table := 51821, overlay := heldSpec.config.overlay }
  returnPath f := if f = .v4 then [tunnelAddr] else []

/-- The tunnel is up, and main answers what the contract leaves. -/
def quietSnap : Snapshot where
  links := [{ index := 7, name := "mullvad", flags := iffUp }]
  addrs f := if f = .v4 then
    [{ family := .v4, index := 7, loc := Prefix.host tunnelAddr, scope := 0 }] else []
  rules f := quietSpec.rules f ++ [lookupRule 32766 f tableMain]
  routes f := fallbackRoute f 51821 :: if f = .v4 then [tunnelRoute f 51821 7] else []

theorem healthy_fail_closed_quietSnap :
    (State.fromSnapshot quietSpec quietSnap).violations = [] := by
  refine (healthy_fail_closed quietSpec quietSnap false
    ⟨rfl, rfl, by decide, by decide, by decide, by decide, by decide⟩ (by decide) (by decide)
    (fun f h => by cases h) (fun f => by cases f <;> decide) (fun f => ?_)).2 (fun f => ?_)
  · cases f <;> decide +kernel
  · cases f <;> decide +kernel

/-- A foreign rule that selects a mark, a protocol, a user and ports. -/
def busyRule (f : Family) (i : ℕ) : Rule :=
  { lookupRule (1000 + i) f tableMain with
    fwMark := some (BitVec.ofNat 32 i), ipProto := some (BitVec.ofNat 8 (100 + i)),
    unknown := [⟨fraUIDRange, [BitVec.ofNat 8 (10 * i), 0, 0, 0, BitVec.ofNat 8 (10 * i), 0, 0, 0]⟩,
      ⟨fraSportRange, [BitVec.ofNat 8 (10 * i), 0, BitVec.ofNat 8 (10 * i), 0]⟩,
      ⟨fraDportRange, [BitVec.ofNat 8 (10 * i), 0, BitVec.ofNat 8 (10 * i), 0]⟩] }

/-- The same with eight of them behind the contract. -/
def busySnap : Snapshot :=
  { quietSnap with
    rules := fun f => quietSpec.rules f ++ [1, 2, 3, 4, 5, 6, 7, 8].map (busyRule f) }

/-- A healthy contract behind which there are too many classes to judge. -/
theorem healthy_not_judged :
    ¬ ∀ (s : Spec) (snap : Snapshot) (starting : Bool), s.config.NativeOverlay →
      (∀ f, s.leaveReturnPath f = true → s.returnPath f = []) →
      (∀ f, (s.planFamily snap f starting).healthy = true) →
      (State.fromSnapshot s snap).violations = [] := by
  intro h
  have hnil := h quietSpec busySnap false
    ⟨rfl, rfl, by decide, by decide, by decide, by decide, by decide⟩ (fun f h => by cases h)
    (fun f => by cases f <;> decide +kernel)
  have hw := ((violations_eq_nil_iff (by decide)).1 hnil).1 .v4
  exact absurd hw (by decide +kernel)

end Molebridge
