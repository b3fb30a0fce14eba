import Molebridge.Lib.Entries
import Molebridge.Spec.Status
import Molebridge.Proofs.FailClosed

/-! A passing status check means that what arrives on the overlay is contained:
the rules up to 97 are the contract's item by item, the exit table leads nowhere
but into the tunnel, and rule 97 is there. -/

namespace Molebridge

variable {r : Rule} {routes : List Route} {opt : StatusOptions} {allowed : List Addr} {snap : Snapshot}

/-! ### The scans -/

theorem exactRule_items {want : Rule} (h : exactRule r want = true) : equalItems r.items want.items = true := by
  simp only [exactRule, Bool.and_eq_true] at h
  exact h.2

theorem claimFound_some {l l' : List (Rule × Bool)} (h : claimFound r l = some l') :
    l'.map Prod.fst = l.map Prod.fst ∧ (∃ want ∈ l.map Prod.fst, Same r want) ∧
      ∀ want, (want, true) ∈ l' → (want, true) ∈ l ∨ Same r want := by
  induction l generalizing l' with
  | nil => simp [claimFound] at h
  | cons x rest ih =>
    obtain ⟨want, _⟩ := x
    unfold claimFound at h
    split_ifs at h with hx
    · simp only [Bool.and_eq_true, beq_iff_eq] at hx
      have hsame : Same r want := ⟨hx.1.2, exactRule_items hx.2⟩
      cases h
      refine ⟨rfl, ⟨want, by simp, hsame⟩, fun w hw => ?_⟩
      rcases List.mem_cons.1 hw with hw | hw
      · exact .inr ((Prod.mk.inj hw).1 ▸ hsame)
      · exact .inl (.tail _ hw)
    · obtain ⟨_, hl₁, rfl⟩ := Option.map_eq_some_iff.1 h
      obtain ⟨hmap, ⟨w, hw, hsame⟩, hmark⟩ := ih hl₁
      refine ⟨by simp [hmap], ⟨w, .tail _ hw, hsame⟩, fun w hw => ?_⟩
      rcases List.mem_cons.1 hw with hw | hw
      · exact .inl (hw ▸ (.head _))
      · exact (hmark w hw).imp (.tail _) id

/-- What the scan of some rules has done to the expected ones. -/
structure Scanned (spec : Spec) (rules : List Rule) (st st' : RuleScan) : Prop where
  wants : st'.found.map Prod.fst = st.found.map Prod.fst
  ok : st'.rulesOK = true → st.rulesOK = true ∧
    ∀ r ∈ rules, spec.owned r.priority = true → ∃ want ∈ st.found.map Prod.fst, Same r want
  marks : ∀ want, (want, true) ∈ st'.found → (want, true) ∈ st.found ∨ ∃ r ∈ rules, Same r want

theorem RuleScan.see_scanned (spec : Spec) (st : RuleScan) (r : Rule) : Scanned spec [r] st (st.see spec r) := by
  unfold RuleScan.see
  -- a rule that lets overlay packets into the local table only costs the verdict
  obtain ⟨st₁, h₁, hfound, hok⟩ : ∃ st₁, (if (!spec.config.isNativeSidecar &&
      localRuleAdmitsOverlay r spec.config.overlayIf) = true then { st with rulesOK := false } else st) = st₁ ∧
      st₁.found = st.found ∧ (st₁.rulesOK = true → st.rulesOK = true) := by
    split_ifs
    · exact ⟨_, rfl, rfl, by simp⟩
    · exact ⟨_, rfl, rfl, id⟩
  simp only [h₁]
  split_ifs with hown
  · refine ⟨by rw [hfound], fun h => ⟨hok h, fun x hx hx' => ?_⟩, fun w hw => .inl (hfound ▸ hw)⟩
    rw [List.mem_singleton.1 hx] at hx'
    simp [hx'] at hown
  · cases hclaim : claimFound r st₁.found with
    | none => exact ⟨by simp [hfound], by simp, fun w hw => .inl (hfound ▸ hw)⟩
    | some found =>
      obtain ⟨hmap, hwant, hmark⟩ := claimFound_some hclaim
      rw [hfound] at hmap hwant hmark
      refine ⟨hmap, fun h => ⟨hok h, fun x hx _ => List.mem_singleton.1 hx ▸ hwant⟩, fun w hw => ?_⟩
      exact (hmark w hw).imp id fun h => ⟨r, by simp, h⟩

theorem RuleScan.foldl_scanned (spec : Spec) (rules : List Rule) (st : RuleScan) :
    Scanned spec rules st (rules.foldl (RuleScan.see spec) st) := by
  induction rules generalizing st with
  | nil => exact ⟨rfl, fun h => ⟨h, by simp⟩, fun _ h => .inl h⟩
  | cons r rest ih =>
    have hone := RuleScan.see_scanned spec st r
    have hrest := ih (st.see spec r)
    refine ⟨hrest.wants.trans hone.wants, fun h => ?_, fun w hw => ?_⟩
    · obtain ⟨hok, hmem⟩ := hrest.ok h
      refine ⟨(hone.ok hok).1, List.forall_mem_cons.2 ⟨(hone.ok hok).2 r (by simp), fun x hx hown => ?_⟩⟩
      exact hone.wants ▸ hmem x hx hown
    · rcases hrest.marks w hw with hw | ⟨x, hx, hsame⟩
      · refine (hone.marks w hw).imp id ?_
        rintro ⟨x, hx, hsame⟩
        exact ⟨x, by simp [List.mem_singleton.1 hx], hsame⟩
      · exact .inr ⟨x, .tail _ hx, hsame⟩

/-- The fallback, or a route out of the exit interface itself. -/
def ToExit (exitIfIndex : ℕ) (rt : Route) : Prop :=
  isFallback rt = true ∨ (rt.typ = rtnUnicast ∧ exitIfIndex ≠ 0 ∧ rt.oif = some exitIfIndex ∧
    plainDeviceRoute rt = true)

theorem RouteScan.foldl_ok {exitIfIndex : ℕ} {st : RouteScan}
    (h : (routes.foldl (RouteScan.see exitIfIndex) st).routesOK = true) :
    st.routesOK = true ∧ ∀ rt ∈ routes, ToExit exitIfIndex rt := by
  induction routes generalizing st with
  | nil => exact ⟨h, by simp⟩
  | cons rt rest ih =>
    obtain ⟨hst, hrest⟩ := ih h
    unfold RouteScan.see at hst
    split_ifs at hst with h1 h2 h3
    · exact ⟨hst, List.forall_mem_cons.2 ⟨.inl h1, hrest⟩⟩
    all_goals
      simp only [Bool.and_eq_true, beq_iff_eq, bne_iff_ne] at h2
      exact ⟨hst, List.forall_mem_cons.2 ⟨.inr ⟨h2.1.1.1, h2.1.1.2, h2.1.2, h2.2⟩, hrest⟩⟩

/-- The rules in the contract's priorities are the expected ones, which are all
there, and the exit table leads to the exit interface. -/
structure Exact (spec : Spec) (want rules : List Rule) (routes : List Route) (exitIfIndex : ℕ) : Prop where
  only : ∀ r ∈ rules, spec.owned r.priority = true → ∃ e ∈ want, Same r e
  all : ∀ e ∈ want, ∃ r ∈ rules, Same r e
  routes : ∀ rt ∈ routes, ToExit exitIfIndex rt

theorem exact_of_familyStatus {spec : Spec} {f : Family} {rules : List Rule}
    (h : (familyStatus spec f rules routes opt).1 = true) :
    Exact spec ((spec.statusSpec f opt.tunnelAddress).rules f) rules routes opt.exitIfIndex := by
  unfold familyStatus at h
  split_ifs at h with hfam
  · simp only [Bool.and_eq_true] at h
    obtain ⟨⟨⟨⟨hrules, hfound⟩, hroutes⟩, -⟩, -⟩ := h
    have hscan := RuleScan.foldl_scanned (spec.statusSpec f opt.tunnelAddress) rules
      { found := ((spec.statusSpec f opt.tunnelAddress).rules f).map (·, false) }
    have hwants : (((spec.statusSpec f opt.tunnelAddress).rules f).map (·, false)).map Prod.fst =
        (spec.statusSpec f opt.tunnelAddress).rules f := by simp [Function.comp_def]
    refine ⟨fun r hr hown => ?_, fun e he => ?_, (RouteScan.foldl_ok hroutes).2⟩
    · rw [← hwants]
      exact (hscan.ok hrules).2 r hr hown
    · rw [← hwants, ← hscan.wants, List.mem_map] at he
      obtain ⟨⟨w, seen⟩, hmem, rfl⟩ := he
      obtain rfl : seen = true := List.all_eq_true.1 hfound _ hmem
      rcases hscan.marks w hmem with hw | hw
      · simp at hw
      · exact hw

/-! ### What the contract expects -/

/-- The exit interface has a name of its own, and with gluetun the overlay is not
the loopback interface, which some of the contract's rules name. -/
structure Config.Apart (c : Config) : Prop where
  named : c.exitIf ≠ ""
  differ : c.overlayIf ≠ c.exitIf
  notLo : c.isGluetun = true → c.overlayIf ≠ "lo"

/-- A lookup of the exit table, whatever it answers. -/
def ExitLookup (c : Config) (e : Rule) : Prop :=
  e.action = frActToTbl ∧ e.table = c.table ∧ e.suppressPrefixLen = none

/-- The shapes of an overlay's rules, as far as they concern what arrives on it. -/
structure OverlayShape (c : Config) (f : Family) (e : Rule) : Prop where
  goto : e.goto = none
  unknown : e.unknown = []
  shape : e = Spec.localGuard c f ∨ (e.rejects ∧ prioIngress < e.priority) ∨ ExitLookup c e ∨
    (e.flags = 0 ∧ (e.iifName = c.exitIf ∨ (e.iifName = "lo" ∧ c.isGluetun = true)))

section Overlay

variable {s : Spec} {f : Family}

theorem not_sidecar_of_overlay {c : Config} (hk : c.kind = .overlay) :
    c.isNativeSidecar = false ∧ c.isGluetunSidecar = false := by
  simp [Config.isNativeSidecar, Config.isGluetunSidecar, hk]

theorem overlayShape_of_mem (hk : s.config.kind = .overlay) {e : Rule} (h : e ∈ s.rules f)
    (htemp : s.tempGuard f = true → e.priority ≠ prioTempGuard) : OverlayShape s.config f e := by
  obtain ⟨hn, hg⟩ := not_sidecar_of_overlay hk
  unfold Spec.rules at h
  rw [if_neg (by simp [hg]), List.mem_insertionSort, List.mem_filter] at h
  simp only [Spec.addedRules, List.flatten_cons, List.flatten_nil, List.mem_append,
    List.mem_flatMap] at h
  rcases h with h | h | h | h | ⟨a, -, h⟩ | h | h
  · simp only [Spec.guardRules, hn, Bool.false_eq_true, if_false, List.mem_cons] at h
    rcases h with rfl | h
    · exact ⟨rfl, rfl, .inl rfl⟩
    · split_ifs at h with hguard
      · rw [List.mem_singleton.1 h] at htemp
        exact absurd rfl (htemp hguard)
      · cases h
  · simp only [Spec.controlRules, hn, Bool.or_false, Bool.false_eq_true, if_false] at h
    split_ifs at h with hgl
    · simp only [List.mem_cons, List.not_mem_nil, or_false] at h
      rcases h with rfl | rfl
      all_goals exact ⟨rfl, rfl, .inr (.inr (.inr ⟨rfl, .inr ⟨rfl, hgl⟩⟩))⟩
    · cases h
  · simp [Spec.sidecarRules, hn] at h
  · unfold Spec.overlayRules at h
    split at h
    · cases h
    · rcases List.mem_cons.1 h with rfl | h
      · exact ⟨rfl, rfl, .inr (.inr (.inr ⟨rfl, .inl rfl⟩))⟩
      · split_ifs at h with hgl
        · simp only [List.mem_cons, List.not_mem_nil, or_false] at h
          rcases h with rfl | rfl
          all_goals exact ⟨rfl, rfl, .inr (.inr (.inr ⟨rfl, .inr ⟨rfl, hgl⟩⟩))⟩
        · cases h
  · rcases List.mem_cons.1 h with rfl | h
    · exact ⟨rfl, rfl, .inr (.inr (.inl ⟨rfl, rfl, rfl⟩))⟩
    · split_ifs at h
      · cases h
      · rw [List.mem_singleton.1 h]
        exact ⟨rfl, rfl, .inr (.inl ⟨.inl rfl, (by decide : prioIngress < prioBackstop)⟩)⟩
  · simp only [Spec.ingressRules, hn, Bool.false_eq_true, if_false, List.mem_cons, List.not_mem_nil,
      or_false] at h
    rcases h with rfl | rfl | rfl
    · exact ⟨rfl, rfl, .inr (.inr (.inl ⟨rfl, rfl, rfl⟩))⟩
    · exact ⟨rfl, rfl, .inr (.inr (.inl ⟨rfl, rfl, rfl⟩))⟩
    · exact ⟨rfl, rfl, .inr (.inl ⟨.inl rfl, (by decide : prioIngress < prioIngressReject)⟩)⟩
  · unfold Spec.killSwitchRules at h
    split_ifs at h with hgl
    · simp only [List.mem_cons, List.not_mem_nil, or_false] at h
      rcases h with rfl | rfl | rfl
      all_goals exact ⟨rfl, rfl, .inr (.inr (.inr ⟨rfl, .inr ⟨rfl, hgl⟩⟩))⟩
    · simp at h

theorem ingress_pair_mem_rules (hk : s.config.kind = .overlay) (f : Family) :
    ingressRule s.config f ∈ s.rules f ∧ ingressReject s.config f ∈ s.rules f := by
  obtain ⟨hn, hg⟩ := not_sidecar_of_overlay hk
  unfold Spec.rules
  rw [if_neg (by simp [hg])]
  simp only [List.mem_insertionSort, List.mem_filter]
  refine ⟨⟨?_, ?_⟩, ?_, ?_⟩
  · simp [Spec.addedRules, Spec.ingressRules, hn, ingressRule]
  · simp [Spec.skipped, ingressRule, lookupRule, prioIngress, prioReturnPath, prioBackstop]
  · simp [Spec.addedRules, Spec.ingressRules, hn, ingressReject]
  · simp [Spec.skipped, ingressReject, rejectRule, prioIngressReject, prioReturnPath, prioBackstop]

end Overlay

/-! ### What arrives is contained -/

/-- The rules up to 97 are shapes of the contract, rules 95 and 97 are among them,
and the exit table leads to the exit interface. -/
structure Guarded (c : Config) (f : Family) (rules : List Rule) (routes : List Route) (exitIfIndex : ℕ) : Prop where
  only : ∀ r ∈ rules, r.priority ≤ prioIngressReject → ∃ e, OverlayShape c f e ∧ Same r e
  door : ∃ r ∈ rules, Same r (ingressRule c f)
  wall : ∃ r ∈ rules, Same r (ingressReject c f)
  routes : ∀ rt ∈ routes, ToExit exitIfIndex rt

section Guarded

variable {spec : Spec} {f : Family} {rules : List Rule} {routes : List Route}

theorem owned_of_le (hk : spec.config.kind = .overlay) {n : ℕ} (h : n ≤ prioIngressReject) :
    spec.owned n = true := by
  unfold prioIngressReject at h
  unfold Spec.owned
  rw [if_neg (by simp [(not_sidecar_of_overlay hk).1])]
  split_ifs
  · simp [h]
  · exact decide_eq_true (h.trans (by decide))

theorem guarded_of_familyStatus (hk : spec.config.kind = .overlay)
    (h : (familyStatus spec f rules routes opt).1 = true) :
    Guarded spec.config f rules routes opt.exitIfIndex := by
  have hexact := exact_of_familyStatus h
  obtain ⟨hdoor, hwall⟩ := ingress_pair_mem_rules (s := spec.statusSpec f opt.tunnelAddress) hk f
  refine ⟨fun r hr hle => ?_, hexact.all _ hdoor, hexact.all _ hwall, hexact.routes⟩
  obtain ⟨e, he, hsame⟩ := hexact.only r hr (owned_of_le hk hle)
  exact ⟨e, overlayShape_of_mem (s := spec.statusSpec f opt.tunnelAddress) hk he nofun, hsame⟩

theorem items_attached (r : Rule) : r.attached.items = r.items := by
  have hinv : r.attached.invert = r.invert := by
    have h : (~~~(fibRuleIifDetached ||| fibRuleOifDetached)) &&& fibRuleInvert = fibRuleInvert := by decide
    simp [Rule.invert, Rule.attached, BitVec.and_assoc, h]
  have hextra : r.attached.extraFlags = r.extraFlags := by
    have h : (~~~(fibRuleIifDetached ||| fibRuleOifDetached)) &&& ~~~(Rule.bookkeepingFlags ||| fibRuleInvert) =
        ~~~(Rule.bookkeepingFlags ||| fibRuleInvert) := by decide
    simp [Rule.extraFlags, Rule.attached, BitVec.and_assoc, h]
  unfold Rule.items
  rw [hinv, hextra]
  rfl

theorem exists_adjusted (present : Bool) (hr : r ∈ rules) (hprio : r.priority ≠ prioReturnPath) :
    ∃ r' ∈ adjustedRules present rules, r'.priority = r.priority ∧ r'.items = r.items := by
  refine ⟨_, List.mem_map_of_mem (List.mem_filter.2 ⟨hr, by simpa using hprio⟩), ?_⟩
  split_ifs
  · exact ⟨rfl, items_attached r⟩
  · exact ⟨rfl, rfl⟩

theorem exists_of_adjusted {present : Bool} {r' : Rule} (h : r' ∈ adjustedRules present rules) :
    ∃ r ∈ rules, r'.priority = r.priority ∧ r'.items = r.items := by
  obtain ⟨r, hr, rfl⟩ := List.mem_map.1 h
  refine ⟨r, (List.mem_filter.1 hr).1, ?_⟩
  split_ifs
  · exact ⟨rfl, items_attached r⟩
  · exact ⟨rfl, rfl⟩

theorem returnPathHit_some {a : Addr}
    (h : returnPathHit spec f allowed r = some a) :
    ∃ s : Spec, s.config = spec.config ∧ ∃ e ∈ s.rules f, e.priority = prioReturnPath ∧ exactRule r e = true := by
  unfold returnPathHit at h
  rw [List.foldl_eq_foldr_reverse] at h
  generalize allowed.reverse = l at h
  induction l with
  | nil => cases h
  | cons b rest ih =>
    rw [List.foldr_cons] at h
    dsimp only at h
    split_ifs at h with hany
    · obtain ⟨e, he, hx⟩ := List.any_eq_true.1 hany
      simp only [Bool.and_eq_true, beq_iff_eq] at hx
      exact ⟨{ spec with returnPath := fun g => if g = f then [b] else [] }, rfl, e, he, hx⟩
    · exact ih h

theorem hit_of_returnPathsMatch {matched : List Addr} {l : List Rule}
    (h : returnPathsMatch spec f allowed l matched = true) : ∀ r ∈ l, ∃ a, returnPathHit spec f allowed r = some a := by
  induction l generalizing matched with
  | nil => simp
  | cons r rest ih =>
    unfold returnPathsMatch at h
    split at h
    · cases h
    · rename_i a ha
      simp only [Bool.and_eq_true] at h
      exact List.forall_mem_cons.2 ⟨⟨a, ha⟩, ih h.2⟩

theorem guarded_of_gluetunTransitionStatus (hk : spec.config.kind = .overlay) {opt : TransitionOptions}
    (h : (gluetunTransitionStatus spec f rules routes opt).1 = true) :
    Guarded spec.config f rules routes opt.exitIfIndex := by
  unfold gluetunTransitionStatus at h
  dsimp only at h
  split_ifs at h with hready hfam hpaths
  · exact guarded_of_familyStatus hk hready
  · have hg := guarded_of_familyStatus hk h
    have hback : ∀ {e}, (∃ r ∈ adjustedRules opt.interfacePresent rules, Same r e) → ∃ r ∈ rules, Same r e := by
      rintro e ⟨r', hr', hsame⟩
      obtain ⟨r, hr, hp, hitems⟩ := exists_of_adjusted hr'
      exact ⟨r, hr, hp ▸ hsame.1, hitems ▸ hsame.2⟩
    refine ⟨fun r hr hle => ?_, hback hg.door, hback hg.wall, hg.routes⟩
    · by_cases hprio : r.priority = prioReturnPath
      · obtain ⟨a, ha⟩ := hit_of_returnPathsMatch (by simpa using hpaths) r (List.mem_filter.2 ⟨hr, by simpa using hprio⟩)
        obtain ⟨s, hs, e, he, hep, hex⟩ := returnPathHit_some ha
        have hshape := overlayShape_of_mem (hs ▸ hk) he fun _ => by rw [hep]; decide
        exact ⟨e, hs ▸ hshape, hprio.trans hep.symm, exactRule_items hex⟩
      · obtain ⟨r', hr', hp, hitems⟩ := exists_adjusted opt.interfacePresent hr hprio
        obtain ⟨e, he, hsame⟩ := hg.only r' hr' (hp ▸ hle)
        exact ⟨e, he, hp ▸ hsame.1, hitems ▸ hsame.2⟩

theorem familyStatus_of_routingStatus {opt : RoutingOptions}
    (h : (routingStatus spec snap opt).1 = true) (f : Family) :
    ∃ address, (familyStatus spec f (snap.rules f) (snap.routesInTable f spec.config.table)
      { tunnelAddress := address, exitIfIndex := State.linkIndex snap spec.config.exitIf }).1 = true := by
  unfold routingStatus at h
  dsimp only at h
  cases hl : snap.link spec.config.exitIf with
  | none => simp [hl] at h
  | some link =>
    simp only [hl] at h
    split_ifs at h
    simp only [Bool.and_eq_true] at h
    have hidx : State.linkIndex snap spec.config.exitIf = link.index := by simp [State.linkIndex, hl]
    rw [hidx]
    cases f with
    | v4 => exact ⟨_, h.1.2⟩
    | v6 => exact ⟨_, h.2⟩

end Guarded

/-! ### The routes that may answer -/

namespace State

/-- Of routes in the kernel's order those that may answer a packet: all that may
apply, up to the first that surely does. -/
def answering (s : State) (p : Packet) : List Route → List Route
  | [] => []
  | rt :: rest =>
    match s.routeApplies rt p with
    | .no => answering s p rest
    | .maybe => rt :: answering s p rest
    | .yes => [rt]

/-- The routes of the exit table that may answer a packet. -/
def exitAnswers (s : State) (p : Packet) : List Route :=
  s.answering p (s.candidates p s.spec.config.table)

variable {s : State} {p : Packet}

theorem mem_of_answering {rt : Route} {l : List Route} (h : rt ∈ s.answering p l) : rt ∈ l := by
  induction l with
  | nil => exact h
  | cons x rest ih =>
    unfold answering at h
    cases happ : s.routeApplies x p <;> rw [happ] at h
    · exact .tail _ (ih h)
    · rw [List.mem_singleton.1 h]
      exact .head _
    · rcases List.mem_cons.1 h with rfl | h
      · exact .head _
      · exact .tail _ (ih h)

theorem mem_of_exitAnswers {rt : Route} (h : rt ∈ s.exitAnswers p) :
    rt ∈ s.tableRoutes p.f s.spec.config.table :=
  (List.mem_filter.1 ((mem_insertSort _ _ _).1 (mem_of_answering h))).1

theorem addRoute_fst (hlen : r.suppressPrefixLen = none) (rt : Route) (acc : List Outcome × Bool) :
    (addRoute r rt acc).1 = acc.1 ++ (disposition rt).toList := by
  unfold addRoute
  rw [hlen]
  cases disposition rt with
  | none => simp
  | some o =>
    dsimp only [Option.elim_none]
    split_ifs <;> simp_all

theorem scanRoutes_fst (hlen : r.suppressPrefixLen = none) (l : List Route) (acc : List Outcome × Bool) :
    (s.scanRoutes r p l acc).1 = acc.1 ++ (s.answering p l).flatMap fun rt => (disposition rt).toList := by
  induction l generalizing acc with
  | nil => simp [scanRoutes, answering]
  | cons rt rest ih =>
    unfold scanRoutes answering
    cases s.routeApplies rt p with
    | no => exact ih acc
    | yes => simp [addRoute_fst hlen]
    | maybe => simp [ih, addRoute_fst hlen]

theorem mem_lookup_exit (hloc : s.spec.config.table ≠ tableLocal) (hknown : s.spec.config.table ∈ s.known)
    (he : ExitLookup s.spec.config r) (o : Outcome) :
    o ∈ (s.lookup r p).1 ↔ ∃ rt ∈ s.exitAnswers p, disposition rt = some o := by
  obtain ⟨-, htab, hlen⟩ := he
  unfold lookup
  rw [if_neg (by rwa [htab]), if_neg (by simpa [htab] using hknown), scanRoutes_fst hlen, htab]
  simp [exitAnswers]

theorem mem_places_walkFrom_of_lookup {door : Rule} {before after : List Rule} {o : Outcome}
    (hbefore : ∀ r ∈ before, ruleMatches r p = .no ∨ (r.action = frActToTbl ∧ o ∈ places (s.lookup r p).1))
    (hdoor : ruleMatches door p = .yes) (hact : door.action = frActToTbl) (ho : o ∈ places (s.lookup door p).1) :
    o ∈ places (s.walkFrom p (before ++ door :: after)) := by
  -- a rule in front is passed, or is a lookup that finds the place itself
  induction before with
  | nil =>
    rw [List.nil_append, walkFrom_cons_yes s p after hdoor]
    exact (mem_places_takenFrom_lookup s p after hact o).2 (.inl ho)
  | cons x rest ih =>
    obtain ⟨hx, hrest⟩ := List.forall_mem_cons.1 hbefore
    rw [List.cons_append]
    cases hm : ruleMatches x p with
    | no =>
      rw [walkFrom_cons_no s p _ hm]
      exact ih hrest
    | yes =>
      obtain ⟨hact, hin⟩ := hx.resolve_left (by simp [hm])
      rw [walkFrom_cons_yes s p _ hm]
      exact (mem_places_takenFrom_lookup s p _ hact o).2 (.inl hin)
    | maybe =>
      obtain ⟨hact, hin⟩ := hx.resolve_left (by simp [hm])
      exact (mem_places_walkFrom_cons_maybe s p _ hm o).2
        (.inl ((mem_places_takenFrom_lookup s p _ hact o).2 (.inl hin)))

end State

section Walk

variable {s : State} {p : Packet}

theorem passes_overlay (hapart : s.spec.config.Apart) (hp : p.iif = s.spec.config.overlayIf) {e : Rule}
    (he : OverlayShape s.spec.config p.f e) :
    ruleMatches e p = .no ∨ (e.rejects ∧ prioIngress < e.priority) ∨ ExitLookup s.spec.config e := by
  rcases he.shape with rfl | hrej | hlook | ⟨hflags, hiif⟩
  · exact .inl (ruleMatches_localGuard _ hp)
  · exact .inr (.inl hrej)
  · exact .inr (.inr hlook)
  · have hinv : e.invert = false := by simp [Rule.invert, hflags]
    rcases hiif with hiif | ⟨hiif, hgl⟩
    · exact .inl (ruleMatches_other_iif (hiif ▸ hapart.named) (by rw [hiif, hp]; exact hapart.differ.symm) hinv)
    · exact .inl (ruleMatches_other_iif (by simp [hiif]) (by rw [hiif, hp]; exact (hapart.notLo hgl).symm) hinv)

theorem harmless_overlay (hloc : s.spec.config.table ≠ tableLocal) (hapart : s.spec.config.Apart)
    (hknown : s.spec.config.table ∈ s.known)
    (hroutes : ∀ rt ∈ s.exitAnswers p, ∀ o, disposition rt = some o → Held s o)
    (hp : p.iif = s.spec.config.overlayIf) {e : Rule}
    (he : OverlayShape s.spec.config p.f e) : s.Harmless p (Held s) e := by
  rcases passes_overlay hapart hp he with hno | ⟨hrej, -⟩ | hlook
  · exact .inl hno
  · exact .inr (.inl hrej)
  · refine .inr (.inr ⟨hlook.1, fun o ho => ?_⟩)
    obtain ⟨x, hx, rfl⟩ := List.mem_map.1 ho
    obtain ⟨rt, hrt, hdisp⟩ := (State.mem_lookup_exit hloc hknown hlook x).1 hx
    exact hroutes rt hrt x hdisp

theorem disposition_toExit {idx : ℕ} {rt : Route} (h : ToExit idx rt) :
    disposition rt = some { kind := .stopped } ∧ rt.typ ≠ rtnUnicast ∨
      rt.typ = rtnUnicast ∧ idx ≠ 0 ∧
        disposition rt = some { kind := .viaDev, table := rt.table, dev := if rt.encap then unknownDev else idx } := by
  rcases h with h | ⟨htyp, hidx, hoif, hplain⟩
  · refine .inl ⟨disposition_isFallback h, fun htyp => ?_⟩
    simp [isFallback, htyp, rtnUnicast, rtnUnreachable] at h
  · simp only [plainDeviceRoute, Bool.and_eq_true] at hplain
    obtain ⟨⟨⟨-, hvia⟩, hmulti⟩, hnhid⟩ := hplain
    refine .inr ⟨htyp, hidx, ?_⟩
    cases hencap : rt.encap <;>
      simp [disposition, htyp, hoif, hvia, hmulti, Option.isNone_iff_eq_none.1 hnhid, hencap, rtnUnicast,
        rtnUnreachable, rtnBlackhole, rtnProhibit, rtnThrow]

end Walk

section FromSnapshot

variable {spec : Spec} {p : Packet} (hloc : spec.config.table ≠ tableLocal) (hapart : spec.config.Apart)
  (hp : p.iif = spec.config.overlayIf)
  (h : Guarded spec.config p.f (snap.rules p.f) (snap.routesInTable p.f spec.config.table)
    (State.linkIndex snap spec.config.exitIf))

theorem table_mem_known (spec : Spec) (snap : Snapshot) :
    spec.config.table ∈ (State.fromSnapshot spec snap).known :=
  List.mem_dedup.2 (by simp [Spec.interest])

theorem walk_fromSnapshot (spec : Spec) (snap : Snapshot) (p : Packet) : (State.fromSnapshot spec snap).walk p =
    (State.fromSnapshot spec snap).walkFrom p (sortedRules (snap.rules p.f)) := rfl

include h in
theorem toExit_of_exitAnswers {rt : Route} (hrt : rt ∈ (State.fromSnapshot spec snap).exitAnswers p) :
    ToExit (State.linkIndex snap spec.config.exitIf) rt := by
  have hknown : spec.config.table ∈ spec.interest.dedup := table_mem_known spec snap
  have hlookup := lookup_map_graph (fun t => snap.routesInTable p.f t) hknown
  have hroutes : (State.fromSnapshot spec snap).tableRoutes p.f spec.config.table =
      snap.routesInTable p.f spec.config.table := by
    simp [State.tableRoutes, State.fromSnapshot, hlookup]
  exact h.routes rt (hroutes ▸ State.mem_of_exitAnswers hrt)

include hloc hapart hp h

/-- The routing of a family that is guarded holds what arrives on the overlay, unless
a route that may answer it encapsulates. -/
theorem walk_held_of_guarded
    (hencap : ∀ rt ∈ (State.fromSnapshot spec snap).exitAnswers p, rt.typ = rtnUnicast → rt.encap = false) :
    ∀ o ∈ (State.fromSnapshot spec snap).walk p, Held (State.fromSnapshot spec snap) o := by
  have hroutes : ∀ rt ∈ (State.fromSnapshot spec snap).exitAnswers p, ∀ o, disposition rt = some o →
      Held (State.fromSnapshot spec snap) o := by
    intro rt hrt o ho
    rcases disposition_toExit (toExit_of_exitAnswers h hrt) with ⟨hd, -⟩ | ⟨htyp, hidx, hd⟩
    · cases hd.symm.trans ho
      exact .inl rfl
    · rw [hencap rt hrt htyp] at hd
      cases hd.symm.trans ho
      exact .inr ⟨rfl, rfl, hidx⟩
  rw [walk_fromSnapshot, split_sorted prioIngressReject (sorted_sortedRules (snap.rules p.f))]
  refine State.mem_walkFrom_of_stops (fun o h => h) (fun r hr => ?_) ?_ (.inl rfl)
  · obtain ⟨hr, hle⟩ := List.mem_filter.1 hr
    obtain ⟨e, he, hsame⟩ := h.only r (mem_sortedRules.1 hr) (by simpa using hle)
    exact (harmless_overlay hloc hapart (table_mem_known spec snap) hroutes hp he).congr hsame.2 he.goto he.unknown
  · obtain ⟨r, hr, hsame⟩ := h.wall
    refine ⟨r, List.mem_filter.2 ⟨mem_sortedRules.2 hr, by simp [hsame.1, ingressReject, rejectRule]⟩, ?_⟩
    have hyes := (ruleMatches_ingress (s := State.fromSnapshot spec snap) p.f hp).2
    exact State.Stops.congr hsame.2 rfl rfl ⟨hyes, .inl (.inl rfl)⟩

/-- Where a route that may answer leads, what arrives on the overlay may end. -/
theorem mem_walk_of_exitAnswers {rt : Route} (hrt : rt ∈ (State.fromSnapshot spec snap).exitAnswers p) {o : Outcome}
    (ho : disposition rt = some o) : o.place ∈ places ((State.fromSnapshot spec snap).walk p) := by
  have hlook : ∀ {r e : Rule}, Same r e → e.goto = none → ExitLookup spec.config e →
      o.place ∈ places ((State.fromSnapshot spec snap).lookup r p).1 := by
    intro r e hsame hgoto he
    rw [Rule.lookup_eq hsame.2 hgoto]
    exact List.mem_map_of_mem ((State.mem_lookup_exit hloc (table_mem_known spec snap) he o).2 ⟨rt, hrt, ho⟩)
  obtain ⟨door, hdoor, hsame⟩ := h.door
  obtain ⟨before, after, hsplit⟩ := List.append_of_mem (mem_sortedRules.2 hdoor)
  have hsorted := sorted_sortedRules (snap.rules p.f)
  have hmem : ∀ r ∈ before, r ∈ snap.rules p.f := fun r hr =>
    mem_sortedRules.1 (hsplit ▸ List.mem_append_left _ hr)
  rw [walk_fromSnapshot, hsplit]
  rw [hsplit] at hsorted
  refine State.mem_places_walkFrom_of_lookup (fun r hr => ?_) ?_ ?_ (hlook hsame rfl ⟨rfl, rfl, rfl⟩)
  · -- a rule before 95 is passed, or looks the same table up
    have hle : r.priority ≤ prioIngress :=
      ((List.pairwise_append.1 hsorted).2.2 r hr door (.head _)).trans hsame.1.le
    obtain ⟨e, he, hsame'⟩ := h.only r (hmem r hr) (hle.trans (by decide))
    rcases passes_overlay (s := State.fromSnapshot spec snap) hapart hp he with hno | ⟨-, hlt⟩ | hexit
    · exact .inl ((Rule.ruleMatches_eq hsame'.2 he.unknown p).trans hno)
    · rw [← hsame'.1] at hlt
      omega
    · exact .inr ⟨(Rule.action_eq hsame'.2 he.goto).trans hexit.1, hlook hsame' he.goto hexit⟩
  · rw [Rule.ruleMatches_eq hsame.2 rfl]
    exact (ruleMatches_ingress (s := State.fromSnapshot spec snap) p.f hp).1
  · exact Rule.action_eq hsame.2 rfl

end FromSnapshot

/-- What the status checks of a family report as ready, protected or safe. -/
def PassesStatus (spec : Spec) (snap : Snapshot) (f : Family) : Prop :=
  let rules := snap.rules f
  let routes := snap.routesInTable f spec.config.table
  let exitIfIndex := State.linkIndex snap spec.config.exitIf
  (spec.config.backend = .native ∧
    ((∃ opt : StatusOptions, opt.exitIfIndex = exitIfIndex ∧ (familyStatus spec f rules routes opt).1 = true) ∨
      ∃ opt, (routingStatus spec snap opt).1 = true)) ∨
  (spec.config.backend = .gluetun ∧
    ∃ opt : TransitionOptions, opt.exitIfIndex = exitIfIndex ∧
      (gluetunTransitionStatus spec f rules routes opt).1 = true)

theorem guarded_of_passesStatus {spec : Spec} {f : Family} (hk : spec.config.kind = .overlay)
    (h : PassesStatus spec snap f) : Guarded spec.config f (snap.rules f)
      (snap.routesInTable f spec.config.table) (State.linkIndex snap spec.config.exitIf) := by
  rcases h with ⟨-, ⟨opt, hidx, h⟩ | ⟨opt, h⟩⟩ | ⟨-, opt, hidx, h⟩
  · exact hidx ▸ guarded_of_familyStatus hk h
  · obtain ⟨address, hready⟩ := familyStatus_of_routingStatus h f
    exact guarded_of_familyStatus hk hready
  · exact hidx ▸ guarded_of_gluetunTransitionStatus hk h

/-- A passing status check means that a packet that arrives on the overlay is stopped
or leaves by the tunnel, exactly when no route that may answer it encapsulates. -/
theorem status_contained_iff (spec : Spec) (snap : Snapshot) (hk : spec.config.kind = .overlay)
    (hloc : spec.config.table ≠ tableLocal) (hapart : spec.config.Apart)
    (hidx : State.linkIndex snap spec.config.exitIf ≠ unknownDev) (p : Packet) (hp : p.iif = spec.config.overlayIf)
    (h : PassesStatus spec snap p.f) :
    (∀ o ∈ (State.fromSnapshot spec snap).walk p, Held (State.fromSnapshot spec snap) o) ↔
      ∀ rt ∈ (State.fromSnapshot spec snap).exitAnswers p, rt.typ = rtnUnicast → rt.encap = false := by
  have hg := guarded_of_passesStatus hk h
  refine ⟨fun hheld rt hrt htyp => ?_, walk_held_of_guarded hloc hapart hp hg⟩
  by_contra hencap
  -- such a route may answer, and leads to a device the model does not know
  rcases disposition_toExit (toExit_of_exitAnswers hg hrt) with ⟨-, hne⟩ | ⟨-, -, hd⟩
  · exact hne htyp
  · rw [if_pos (by simpa using hencap)] at hd
    obtain ⟨o, ho, hplace⟩ := List.mem_map.1 (mem_walk_of_exitAnswers hloc hapart hp hg hrt hd)
    simp only [Outcome.place, Outcome.mk.injEq] at hplace
    rcases hheld o ho with hk | ⟨-, hdev, -⟩
    · rw [hplace.1] at hk
      cases hk
    · exact hidx (hdev.symm.trans hplace.2.2.1)

/-! ### Checks that pass, and packets -/

/-- All the contract's rules with one tunnel address, and the given exit table. -/
def readySnap (c : Config) (address : Addr) (exit : List Route) : Snapshot where
  links := [{ index := 3, name := c.overlayIf }, { index := 7, name := c.exitIf, flags := iffUp }]
  addrs f := if f = .v4 then [{ family := .v4, index := 7, loc := Prefix.host address, scope := 0 }] else []
  rules f := ({ config := c } : Spec).statusSpec f (if f = .v4 then some address else none) |>.rules f
  routes f := if f = .v4 then exit else [fallbackRoute .v6 c.table]

def statusPacket (iif : String) (mark : BitVec 32) (dst : Addr) : Packet :=
  { f := .v4, iif := iif, mark := mark, proto := 6, src := none, dst := dst, tos := 0, sport := 0,
    dport := 0, uid := 0, l3 := false }

/-- The tunnel is up with 10.64.0.2. -/
theorem status_contained_ready :
    PassesStatus quietSpec (readySnap quietSpec.config ⟨.v4, 0x0a400002, by decide⟩
        [fallbackRoute .v4 51821, tunnelRoute .v4 51821 7]) .v4 ∧
      ∀ o ∈ (State.fromSnapshot quietSpec (readySnap quietSpec.config ⟨.v4, 0x0a400002, by decide⟩
          [fallbackRoute .v4 51821, tunnelRoute .v4 51821 7])).walk
          (statusPacket "wt0" 0 ⟨.v4, 0x08080808, by decide⟩),
        o.kind = .stopped ∨ o.dev = 7 := by
  have hpass : PassesStatus quietSpec (readySnap quietSpec.config ⟨.v4, 0x0a400002, by decide⟩
      [fallbackRoute .v4 51821, tunnelRoute .v4 51821 7]) .v4 :=
    .inl ⟨rfl, .inr ⟨{ requireAddress := true, returnPath := true }, by decide +kernel⟩⟩
  refine ⟨hpass, fun o ho => ?_⟩
  have hheld := (status_contained_iff quietSpec _ rfl (by decide) ⟨by decide, by decide, by decide⟩ (by decide)
    (statusPacket "wt0" 0 ⟨.v4, 0x08080808, by decide⟩) rfl hpass).2 (by decide +kernel) o ho
  exact hheld.imp id fun h => h.2.1

/-- The check passes, and a packet that arrives on the overlay is neither stopped
nor leaves by the tunnel. -/
def PassesOpen (spec : Spec) (snap : Snapshot) (p : Packet) : Prop :=
  spec.config.kind = .overlay ∧ spec.config.table ≠ tableMain ∧ spec.config.table ≠ tableLocal ∧
    PassesStatus spec snap p.f ∧ p.iif = spec.config.overlayIf ∧
    ∃ o ∈ (State.fromSnapshot spec snap).walk p,
      o.kind ≠ .stopped ∧ (o.kind = .viaDev → o.dev ≠ State.linkIndex snap spec.config.exitIf)

def loConfig : Config :=
  { kind := .overlay, backend := .gluetun, overlayIf := "lo", exitIf := "wg0", table := 51821,
    hostIf := "eth0", hostTable := 51822, controlMark := 0x1bd00 }

/-- A tunnel route that encapsulates passes; so does an overlay that the contract takes
for the loopback interface. -/
theorem status_passes_open :
    PassesOpen quietSpec (readySnap quietSpec.config ⟨.v4, 0x0a400002, by decide⟩
        [fallbackRoute .v4 51821, { tunnelRoute .v4 51821 7 with encap := true }])
      (statusPacket "wt0" 0 ⟨.v4, 0x08080808, by decide⟩) ∧
    PassesOpen { config := loConfig } (readySnap loConfig ⟨.v4, 0x0a400002, by decide⟩
        [fallbackRoute .v4 51821, tunnelRoute .v4 51821 7, tunnelRoute .v4 51822 2])
      (statusPacket "lo" 0x1bd00 ⟨.v4, 0x08080808, by decide⟩) := by
  refine ⟨⟨rfl, by decide, by decide, .inl ⟨rfl, .inr ⟨{ requireAddress := true, returnPath := true }, ?_⟩⟩, rfl, ?_⟩,
    ⟨rfl, by decide, by decide,
      .inr ⟨rfl, { tunnelAddress := some ⟨.v4, 0x0a400002, by decide⟩, interfaceUp := true, exitIfIndex := 7 },
        rfl, ?_⟩,
      rfl, ?_⟩⟩ <;> decide +kernel

end Molebridge
