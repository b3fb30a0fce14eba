import Molebridge.Lib.Entries
import Molebridge.Proofs.OverlayRules

/-! One fault is contained: of a kernel that holds the contract of a native
overlay exactly, any one rule or any one route of the exit table may go. Each
protected packet has two rules that stop it, one by itself (97, 98) and one as
long as the exit table answers (95, 94). -/

namespace Molebridge

/-- The kernel holds the contract: at the priorities up to 98 exactly its rules,
and in the exit table the fallback and, with the tunnel up, the tunnel route. -/
structure Intact (s : State) : Prop where
  config : s.spec.config.NativeOverlay
  leave : ∀ f, s.spec.leaveReturnPath f = true → s.spec.returnPath f = []
  known : s.spec.config.table ∈ s.known
  rules : ∀ f, ∃ low high, s.rules f = low ++ high ∧ low.Perm (s.spec.rules f) ∧
    ∀ r ∈ high, prioBackstop < r.priority
  routes : ∀ f, s.tableRoutes f s.spec.config.table = [fallbackRoute f s.spec.config.table] ∨
    s.exitIdx ≠ 0 ∧ (s.tableRoutes f s.spec.config.table).Perm
      [fallbackRoute f s.spec.config.table, tunnelRoute f s.spec.config.table s.exitIdx]

/-- One rule of the contract, or one route of the exit table, is deleted in one
family. -/
inductive OneFault (s : State) : State → Prop
  | rule (f : Family) (i : ℕ) (hi : i < (s.spec.rules f).length) :
    OneFault s (s.setRules f ((s.rules f).eraseIdx i))
  | route (f : Family) (i : ℕ) (hi : i < (s.tableRoutes f s.spec.config.table).length) :
    OneFault s (s.setTable f s.spec.config.table
      ((s.tableRoutes f s.spec.config.table).eraseIdx i))

/-! ### The exit table -/

theorem disposition_fallbackRoute (f : Family) (t : ℕ) :
    disposition (fallbackRoute f t) = some { kind := .stopped } := by
  simp [disposition, fallbackRoute]

theorem disposition_tunnelRoute (f : Family) (t dev : ℕ) :
    disposition (tunnelRoute f t dev) = some { kind := .viaDev, table := t, dev := dev } := by
  simp [disposition, tunnelRoute, rtnUnicast, rtnUnreachable, rtnBlackhole, rtnProhibit, rtnThrow]

section

variable {s : State} {p : Packet}

def exitRoutes (s : State) (f : Family) : List Route :=
  fallbackRoute f s.spec.config.table ::
    if s.exitIdx ≠ 0 then [tunnelRoute f s.spec.config.table s.exitIdx] else []

theorem exitTableHeld_of_subset {f : Family} (hk : s.spec.config.table ∈ s.known)
    (h : s.tableRoutes f s.spec.config.table ⊆ exitRoutes s f) : ExitTableHeld s f := by
  refine ⟨hk, fun rt hrt o ho => ?_⟩
  rcases List.mem_cons.1 (h hrt) with rfl | hrt
  · cases ho
    exact .inl rfl
  · obtain ⟨hidx, hrt⟩ := List.mem_ite_nil_right.1 hrt
    obtain rfl := List.mem_singleton.1 hrt
    cases ho
    exact .inr ⟨rfl, rfl, hidx⟩

theorem exit_lookup_ends (hc : s.spec.config.NativeOverlay) (hk : s.spec.config.table ∈ s.known)
    (h : s.tableRoutes p.f s.spec.config.table ⊆ exitRoutes s p.f)
    (hne : s.tableRoutes p.f s.spec.config.table ≠ []) (hdst : p.dst.fam = p.f) {r : Rule}
    (htab : r.table = s.spec.config.table) (hlen : r.suppressPrefixLen = none)
    (hgroup : r.suppressIfGroup = none) : (s.lookup r p).2 = false := by
  refine State.lookup_ends (by rw [htab]; exact hc.table_ne_local) (by rwa [htab]) hlen hgroup
    (by rwa [htab]) ?_
  rw [htab]
  intro rt hrt
  rcases List.mem_cons.1 (h hrt) with rfl | hrt
  · refine ⟨Prefix.default_contains hdst, ?_, by rw [disposition_fallbackRoute]; rfl⟩
    simp [State.routeApplies, fallbackRoute, outside, Route.faulty]
  · obtain rfl := List.mem_singleton.1 (List.mem_ite_nil_right.1 hrt).2
    refine ⟨Prefix.default_contains hdst, ?_, by rw [disposition_tunnelRoute]; rfl⟩
    simp [State.routeApplies, tunnelRoute, outside, Route.faulty]

/-! ### Two rules stop a protected packet -/

/-- Two different rules of the contract stop a protected packet: one whatever the
exit table holds, one when the table answers. -/
theorem exists_two_stops (hc : s.spec.config.NativeOverlay)
    (hleave : ∀ f, s.spec.leaveReturnPath f = true → s.spec.returnPath f = [])
    (hp : Arrives s p ∨ Replies s (s.spec.returnPath p.f) p) :
    ∃ wall door, wall ∈ s.spec.rules p.f ∧ door ∈ s.spec.rules p.f ∧ wall ≠ door ∧ s.Stops p wall ∧
      (s.tableRoutes p.f s.spec.config.table ⊆ exitRoutes s p.f →
        s.tableRoutes p.f s.spec.config.table ≠ [] → s.spec.config.table ∈ s.known →
        s.Stops p door) := by
  rcases hp with hp | hp
  · obtain ⟨hdoor, hwall⟩ := Spec.ingress_mem_rules hc p.f
    refine ⟨_, _, hwall, hdoor, ?_, stops_ingressReject hp, fun hsub hne hk => ?_⟩
    · exact fun h => absurd (congrArg Rule.priority h) (show prioIngressReject ≠ prioIngress by decide)
    · exact ⟨(ruleMatches_ingress p.f hp.2).1,
        .inr ⟨rfl, exit_lookup_ends hc hk hsub hne hp.1 rfl rfl rfl⟩⟩
  · obtain ⟨hdst, -, hproto, -, a, ha, hsrc⟩ := id hp
    have hstay : s.spec.leaveReturnPath p.f = false := by
      by_contra hl
      rw [hleave p.f (by simpa using hl)] at ha
      cases ha
    obtain ⟨hdoor, hwall⟩ := Spec.returnPath_mem_rules hc hstay ha
    refine ⟨_, _, hwall, hdoor, ?_, stops_backstop hp hsrc, fun hsub hne hk => ?_⟩
    · exact fun h => absurd (congrArg Rule.priority h) (show prioBackstop ≠ prioReturnPath by decide)
    · exact ⟨(ruleMatches_returnPath hproto hsrc).1,
        .inr ⟨rfl, exit_lookup_ends hc hk hsub hne hdst rfl rfl rfl⟩⟩

theorem mem_eraseIdx_or {α : Type*} {l : List α} {a b : α} (ha : a ∈ l) (hb : b ∈ l) (hne : a ≠ b)
    (i : ℕ) : a ∈ l.eraseIdx i ∨ b ∈ l.eraseIdx i := by
  obtain ⟨j, hj, rfl⟩ := List.getElem_of_mem ha
  obtain ⟨k, hk, rfl⟩ := List.getElem_of_mem hb
  by_cases h : j = i
  · right
    refine List.mem_eraseIdx_iff_getElem.2 ⟨k, hk, ?_, rfl⟩
    rintro rfl
    exact hne (by simp [h])
  · exact .inl (List.mem_eraseIdx_iff_getElem.2 ⟨j, hj, h, rfl⟩)

end

theorem tableRoutes_setTable {s : State} {f : Family} {t : ℕ} (h : s.tableRoutes f t ≠ [])
    (routes : List Route) (f' : Family) :
    (s.setTable f t routes).tableRoutes f' t = if f' = f then routes else s.tableRoutes f' t := by
  unfold State.tableRoutes State.setTable at *
  by_cases hf : f' = f
  · subst hf
    cases hl : (s.routes f').lookup t with
    | none => simp [hl] at h
    | some l => simp [lookup_map_entry, hl]
  · simp [hf]

theorem Intact.subset {s : State} (hs : Intact s) (f : Family) :
    s.tableRoutes f s.spec.config.table ⊆ exitRoutes s f ∧
      s.tableRoutes f s.spec.config.table ≠ [] := by
  rcases hs.routes f with h | ⟨hidx, h⟩
  · rw [h]
    exact ⟨by simp [exitRoutes], by simp⟩
  · rw [exitRoutes, if_pos hidx]
    exact ⟨h.subset, fun hnil => by simp [hnil] at h⟩

/-- Any single rule of the contract, or route of the exit table, may be gone: no
protected packet gets anywhere but into the tunnel. -/
theorem one_fault_contained (s s' : State) (hs : Intact s) (hf : OneFault s s')
    (p : Packet) (hp : Arrives s p ∨ Replies s (s.spec.returnPath p.f) p) :
    ∀ o ∈ s'.walk p, Held s o := by
  obtain ⟨low, high, hrules, hperm, -⟩ := hs.rules p.f
  obtain ⟨hsub, hne⟩ := hs.subset p.f
  have hlow : ∀ r ∈ low, ∃ e, ContractRule s.spec.config p.f e ∧ equalItems r.items e.items = true :=
    fun r hr => ⟨r, Spec.contractRule_of_mem hs.config (hperm.mem_iff.1 hr), equalItems_refl _⟩
  cases hf with
  | rule f i hi =>
    obtain ⟨wall, door, hwall, hdoor, hdiff, hstop, hstop'⟩ :=
      exists_two_stops (s := s.setRules f ((s.rules f).eraseIdx i)) (p := p) hs.config hs.leave hp
    have hstop' := hstop' hsub hne hs.known
    by_cases hpf : p.f = f
    · subst hpf
      have hlen : i < low.length := by rw [hperm.length_eq]; exact hi
      have hrules' : (s.setRules p.f ((s.rules p.f).eraseIdx i)).rules p.f = low.eraseIdx i ++ high := by
        simp [State.setRules, hrules, List.eraseIdx_append_of_lt_length hlen]
      refine walk_held (s := s.setRules p.f ((s.rules p.f).eraseIdx i)) hs.config
        (exitTableHeld_of_subset hs.known hsub) hp hrules'
        (fun r hr => hlow r (List.eraseIdx_subset hr)) ?_
      rcases mem_eraseIdx_or (hperm.mem_iff.2 hwall) (hperm.mem_iff.2 hdoor) hdiff i with h | h
      · exact ⟨wall, h, hstop⟩
      · exact ⟨door, h, hstop'⟩
    · have hrules' : (s.setRules f ((s.rules f).eraseIdx i)).rules p.f = low ++ high := by
        simpa [State.setRules, hpf] using hrules
      exact walk_held (s := s.setRules f ((s.rules f).eraseIdx i)) hs.config
        (exitTableHeld_of_subset hs.known hsub) hp hrules' hlow
        ⟨wall, hperm.mem_iff.2 hwall, hstop⟩
  | route f i hi =>
    -- the walls stand; what is left of the exit table still leads nowhere else
    obtain ⟨wall, -, hwall, -, -, hstop, -⟩ :=
      exists_two_stops (s := s.setTable f s.spec.config.table
        ((s.tableRoutes f s.spec.config.table).eraseIdx i)) (p := p) hs.config hs.leave hp
    refine walk_held (s := s.setTable f s.spec.config.table
        ((s.tableRoutes f s.spec.config.table).eraseIdx i)) hs.config
      (exitTableHeld_of_subset hs.known ?_) hp hrules hlow ⟨wall, hperm.mem_iff.2 hwall, hstop⟩
    rw [show (s.setTable f s.spec.config.table _).spec = s.spec from rfl,
      tableRoutes_setTable (hs.subset f).2]
    split_ifs with hpf
    · subst hpf
      exact List.Subset.trans List.eraseIdx_subset hsub
    · exact hsub

/-! ### A kernel that holds the contract -/

def tunnelAddr : Addr := ⟨.v4, 0x0a400002, by decide⟩

def heldSpec : Spec :=
  { config := { kind := .overlay, backend := .native, overlayIf := "wt0", exitIf := "mullvad",
                table := 51821, overlay := some ⟨⟨.v4, 0x64400000, by decide⟩, 10, by decide⟩ },
    returnPath := fun f => if f = .v4 then [tunnelAddr] else [] }

def heldExit : State :=
  { spec := heldSpec,
    rules := heldSpec.rules,
    routes := fun f => [(51821, [fallbackRoute f 51821, tunnelRoute f 51821 7])],
    known := [51821],
    locals := heldSpec.returnPath,
    exitIdx := 7 }

theorem heldExit_intact : Intact heldExit where
  config := ⟨rfl, rfl, by decide, by decide, by decide, by decide, by decide⟩
  leave f h := by cases h
  known := by decide
  rules f := ⟨heldExit.spec.rules f, [], by simp [heldExit], List.Perm.refl _, by simp⟩
  routes f := .inr ⟨by decide, List.Perm.refl _⟩

def packetFrom (iif : String) (src dst : Addr) : Packet :=
  { f := .v4, iif := iif, mark := 0, proto := 1, src := some src, dst := dst, tos := 0, sport := 0,
    dport := 0, uid := 0, l3 := false }

/-- Without rule 97 what arrives on the overlay interface goes into the tunnel. -/
theorem one_fault_contained_ingressReject : Intact heldExit ∧
    ∀ o ∈ (heldExit.setRules .v4 ((heldExit.rules .v4).eraseIdx 5)).walk
        (packetFrom "wt0" (Addr.zero .v4) ⟨.v4, 0x08080808, by decide⟩), Held heldExit o :=
  ⟨heldExit_intact, one_fault_contained heldExit _ heldExit_intact (.rule .v4 5 (by decide)) _ (.inl ⟨rfl, rfl⟩)⟩

/-- ICMP from a tunnel address to the exit itself is delivered locally, and what
comes in by the tunnel for the overlay goes to main, whatever is deleted. -/
theorem one_fault_let_through :
    (¬ ∀ s s' : State, Intact s → OneFault s s' → ∀ p : Packet, p.dst.fam = p.f → ¬ FromTunnel s p →
      (p.iif = s.spec.config.overlayIf ∨
        p.proto = icmp p.f ∧ ∃ a ∈ s.spec.returnPath p.f, p.src = some a) →
      ∀ o ∈ s'.walk p, Held s o) ∧
    ¬ ∀ s s' : State, Intact s → OneFault s s' → ∀ p : Packet, p.dst.fam = p.f →
      s.isLocal p.f p.dst = false →
      (p.iif = s.spec.config.overlayIf ∨
        p.proto = icmp p.f ∧ ∃ a ∈ s.spec.returnPath p.f, p.src = some a) →
      ∀ o ∈ s'.walk p, Held s o := by
  have hfault : OneFault heldExit _ := .rule .v4 5 (by decide)
  constructor
  · intro h
    have hheld := h heldExit _ heldExit_intact hfault (packetFrom "lo" tunnelAddr tunnelAddr)
      rfl (fun hft => absurd hft.1 (by decide)) (.inr ⟨rfl, tunnelAddr, by decide, rfl⟩)
    have hloc : ∃ o ∈ (heldExit.setRules .v4 ((heldExit.rules .v4).eraseIdx 5)).walk
        (packetFrom "lo" tunnelAddr tunnelAddr), o.kind = .loc := by decide +kernel
    obtain ⟨o, ho, hkind⟩ := hloc
    rcases hheld o ho with hk | ⟨hk, -⟩ <;> rw [hkind] at hk <;> cases hk
  · intro h
    -- 100.64.0.9 is in the overlay
    have hheld := h heldExit _ heldExit_intact hfault
      (packetFrom "mullvad" tunnelAddr ⟨.v4, 0x64400009, by decide⟩)
      rfl (by decide) (.inr ⟨rfl, tunnelAddr, by decide, rfl⟩)
    have hmain : ∃ o ∈ (heldExit.setRules .v4 ((heldExit.rules .v4).eraseIdx 5)).walk
        (packetFrom "mullvad" tunnelAddr ⟨.v4, 0x64400009, by decide⟩), o.kind = .viaTable := by
      decide +kernel
    obtain ⟨o, ho, hkind⟩ := hmain
    rcases hheld o ho with hk | ⟨hk, -⟩ <;> rw [hkind] at hk <;> cases hk

end Molebridge
