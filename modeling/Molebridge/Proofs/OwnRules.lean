import Molebridge.Proofs.Additions
import Molebridge.Proofs.Diff
import Molebridge.Spec.Repair

/-! What a repair puts into the kernel: the rules of the contract for the expected
and the live tunnel addresses, the return-path rules it found and left alone,
copies of these one priority earlier, and the two routes of the exit table. -/

namespace Molebridge

variable {c : Config} {r : Rule}

variable {name : String} {actual : List Rule} {routes : List Route} {exitIf : ℕ} {mode : TunnelMode}
  {a : RouteAction}

theorem ContractRule.action {f : Family} (h : ContractRule c f r) :
    r.action = frActToTbl ∨ r.action = frActUnreachable := by
  cases h <;> first | exact .inl rfl | exact .inr rfl

theorem ContractRule.priority_mem {f : Family} (h : ContractRule c f r) :
    r.priority ∈ [1, 80, 90, 94, 95, 96, 97, 98] := by
  cases h <;> exact List.elem_iff.1 rfl

/-- A rule the owner puts in: one with the items of a rule of the contract. -/
structure OwnerRule (c : Config) (f : Family) (r : Rule) : Prop where
  family : r.family = f
  items : ∃ e, ContractRule c f e ∧ equalItems r.items e.items = true

namespace OwnerRule

variable {c : Config} {f : Family} {r : Rule} (h : OwnerRule c f r)
include h

theorem not_goto : r.action ≠ frActGoto := by
  obtain ⟨e, he, hi⟩ := h.items
  rw [Rule.action_eq hi he.goto]
  rcases he.action with ha | ha <;> rw [ha] <;> decide

theorem unmarked : r.effectiveMark.2 = 0 := by
  obtain ⟨e, he, hi⟩ := h.items
  by_contra hne
  have hm : ∀ v w, (r.effectiveMark.2 ≠ 0 ∧ v = r.effectiveMark.1 ∧ w = r.effectiveMark.2) ↔
      (e.effectiveMark.2 ≠ 0 ∧ v = e.effectiveMark.1 ∧ w = e.effectiveMark.2) := by
    intro v w
    simpa [Rule.HasItem] using Rule.hasItem_congr hi (i := .fwmark v w) rfl
  have := ((hm _ _).1 ⟨hne, rfl, rfl⟩).1
  cases he <;> exact this rfl

theorem proto : r.ipProto = none ∨ r.ipProto = some (icmp f) := by
  obtain ⟨e, he, hi⟩ := h.items
  rw [Rule.ipProto_eq hi]
  cases he <;> first | exact .inl rfl | exact .inr rfl

theorem tos : r.tos = 0 := by
  obtain ⟨e, he, hi⟩ := h.items
  rw [Rule.tos_eq hi]
  cases he <;> rfl

theorem unknown : r.unknown = [] := by
  obtain ⟨e, he, hi⟩ := h.items
  refine List.eq_nil_iff_forall_not_mem.2 fun a ha => ?_
  simpa [he.unknown] using (Rule.mem_unknown_iff hi a).1 ha

theorem dscp : r.ext.dscp = none := by simp [Rule.ext, h.unknown]

theorem suppressors : r.suppressPrefixLen = none ∧ r.suppressIfGroup = none := by
  obtain ⟨e, he, hi⟩ := h.items
  rw [Rule.suppressPrefixLen_eq hi, Rule.suppressIfGroup_eq hi]
  cases he <;> exact ⟨rfl, rfl⟩

omit h in
theorem harmless {s : State} {p : Packet} (h : OwnerRule s.spec.config p.f r)
    (hc : s.spec.config.NativeOverlay) (hlo : s.spec.config.exitIf ≠ "lo")
    (ht : ExitTableHeld s p.f) {addrs : List Addr} (hp : Arrives s p ∨ Sends s addrs p) :
    s.Harmless p (Held s) r := by
  obtain ⟨e, he, hi⟩ := h.items
  refine State.Harmless.congr hi he.goto he.unknown ?_
  rcases hp with hp | hp
  · exact harmless_arrives hc ht hp he
  · exact harmless_replies hc ht (hp.replies hlo) he

end OwnerRule

/-! ### The rules and the routes -/

/-- The rule one priority later, and one earlier. -/
def Rule.raise (r : Rule) : Rule := { r with priority := r.priority + 1 }

def Rule.lower (r : Rule) : Rule := { r with priority := r.priority - 1 }

section Own

variable (spec : Spec) (k : Kern)

/-- The contract with both guards, for the expected and the live addresses. -/
def widestSpec : Spec :=
  { spec with
    tempGuard := fun _ => true
    returnPath := fun f => spec.returnPath f ++ liveGlobals (k.view spec.interest) spec.config.exitIf f }

/-- The rules that may be expected, and those a transaction may have left. -/
def expectedRules (f : Family) : List Rule :=
  (widestSpec spec k).addedRules f ++
    (k.rules f ++ (k.rules f).map Rule.raise).filter (spec.returnPathShaped f)

/-- With the protective copies. -/
def ownRules (f : Family) : List Rule := expectedRules spec k f ++ (expectedRules spec k f).map Rule.lower

def exitIndex : ℕ := ((k.links.find? (·.name == spec.config.exitIf)).map (·.index)).getD 0

def ownRoutes (f : Family) : List Route :=
  fallbackRoute f spec.config.table ::
    if exitIndex spec k = 0 then [] else [tunnelRoute f spec.config.table (exitIndex spec k)]

end Own

section Rules

variable {spec : Spec} {k : Kern} {f : Family} {r : Rule}
variable (hc : spec.config.NativeOverlay)

theorem contractRule_of_added {s : Spec} (hc : s.config.NativeOverlay) (h : r ∈ s.addedRules f) :
    ContractRule s.config f r ∧ r.family = f ∧
      (r.src = none ∨ r.priority = prioReturnPath ∨ r.priority = prioBackstop) := by
  rw [Spec.addedRules_eq hc] at h
  simp only [List.cons_append, List.mem_cons, List.mem_append, List.mem_ite_nil_right,
    List.not_mem_nil, or_false, Option.mem_toList, Option.map_eq_some_iff, List.mem_flatMap] at h
  rcases h with rfl | (((⟨-, rfl⟩ | ⟨ov, hov, rfl⟩) | ⟨a, -, rfl | rfl⟩) | rfl | rfl | rfl)
  · exact ⟨.localGuard, rfl, .inl rfl⟩
  · exact ⟨.tempGuard, rfl, .inl rfl⟩
  · exact ⟨.fromTunnel ov hov, rfl, .inl rfl⟩
  · exact ⟨.returnPath a, rfl, .inr (.inl rfl)⟩
  · exact ⟨.backstop a, rfl, .inr (.inr rfl)⟩
  · exact ⟨.ingress, rfl, .inl rfl⟩
  · exact ⟨.egress, rfl, .inl rfl⟩
  · exact ⟨.ingressReject, rfl, .inl rfl⟩

include hc

theorem of_returnPathShaped (h : spec.returnPathShaped f r = true) :
    OwnerRule spec.config f r ∧ r.src ≠ none ∧ (r.priority = prioReturnPath ∨ r.priority = prioBackstop) := by
  unfold Spec.returnPathShaped at h
  cases hsrc : r.src with
  | none => simp [hsrc] at h
  | some p =>
    simp only [hsrc, Bool.and_eq_true, beq_iff_eq, List.any_eq_true, returnPathPair_eq hc, List.mem_cons,
      List.not_mem_nil, or_false] at h
    obtain ⟨⟨⟨hf, -⟩, -⟩, e, rfl | rfl, hprio, hitems⟩ := h
    · exact ⟨⟨hf, _, .returnPath p.addr, hitems⟩, by simp, .inl hprio.symm⟩
    · exact ⟨⟨hf, _, .backstop p.addr, hitems⟩, by simp, .inr hprio.symm⟩

theorem widest_native : (widestSpec spec k).config.NativeOverlay := hc

theorem of_expected (h : r ∈ expectedRules spec k f) :
    OwnerRule spec.config f r ∧ 1 ≤ r.priority ∧ r.priority ≤ 98 ∧
      (r.src = none ∨ r.priority = prioReturnPath ∨ r.priority = prioBackstop) := by
  rcases List.mem_append.1 h with h | h
  · obtain ⟨hr, hf, hsrc⟩ := contractRule_of_added (widest_native hc) h
    have hp := hr.priority_mem
    simp only [List.mem_cons, List.not_mem_nil, or_false] at hp
    exact ⟨⟨hf, r, hr, equalItems_refl _⟩, by omega, by omega, hsrc⟩
  · obtain ⟨hr, -, hp⟩ := of_returnPathShaped hc (List.mem_filter.1 h).2
    have hp' := hp
    simp only [prioReturnPath, prioBackstop] at hp'
    exact ⟨hr, by omega, by omega, .inr hp⟩

omit hc

theorem OwnerRule.lower (h : OwnerRule c f r) : OwnerRule c f r.lower := ⟨h.family, h.items⟩

include hc in
theorem ownerRule_of_own (h : r ∈ ownRules spec k f) :
    OwnerRule spec.config f r := by
  rcases List.mem_append.1 h with h | h
  · exact (of_expected hc h).1
  · obtain ⟨e, he, rfl⟩ := List.mem_map.1 h
    exact (of_expected hc he).1.lower

theorem lower_mem_own (h : r ∈ expectedRules spec k f) : r.lower ∈ ownRules spec k f :=
  List.mem_append_right _ (List.mem_map_of_mem h)

theorem expected_mem_own (h : r ∈ expectedRules spec k f) : r ∈ ownRules spec k f := List.mem_append_left _ h

end Rules

/-! ### What a snapshot shows and a plan adds -/

/-- The expected state of a pass: only the guards are its own. -/
structure SpecOf (spec s : Spec) : Prop where
  config : s.config = spec.config
  returnPath : s.returnPath = spec.returnPath
  leaveReturnPath : s.leaveReturnPath = spec.leaveReturnPath

/-- A snapshot of a kernel whose rules are those of `k` and the owner's. -/
structure Shows (spec : Spec) (k : Kern) (snap : Snapshot) : Prop where
  links : snap.links ⊆ k.links
  addrs : ∀ f, snap.addrs f ⊆ k.addrs f
  rules : ∀ f, ∀ r ∈ snap.rules f, r ∈ k.rules f ∨ r ∈ ownRules spec k f

section Plans

variable {spec s : Spec} {k : Kern} {f : Family} {snap : Snapshot}
variable (hc : spec.config.NativeOverlay)

theorem find?_name_eq {l l' : List Link} {x : Link} (hsub : l ⊆ l')
    (hnd : (l'.map (·.name)).Nodup) (h : l.find? (·.name == name) = some x) :
    l'.find? (·.name == name) = some x := by
  have hx : x ∈ l' := hsub (List.mem_of_find?_eq_some h)
  have hname : x.name = name := by simpa using List.find?_some h
  cases hy : l'.find? (·.name == name) with
  | none => exact absurd (List.find?_eq_none.1 hy x hx) (by simp [hname])
  | some y =>
    have hy' : y.name = name := by simpa using List.find?_some hy
    rw [List.inj_on_of_nodup_map hnd (List.mem_of_find?_eq_some hy) hx (hy'.trans hname.symm)]

theorem mem_liveGlobals {a : Addr} : a ∈ liveGlobals snap name f ↔
    ∃ link, snap.link name = some link ∧ ∃ x ∈ snap.addrs f, x.index = link.index ∧ x.global = true ∧ x.loc.addr = a := by
  unfold liveGlobals
  cases snap.link name with
  | none => simp
  | some link =>
    suffices ∀ (l : List IfAddr) (out : List Addr), a ∈ l.foldl (fun out a =>
        if a.index == link.index && a.global && !out.contains a.loc.addr then out ++ [a.loc.addr] else out) out ↔
        a ∈ out ∨ ∃ x ∈ l, x.index = link.index ∧ x.global = true ∧ x.loc.addr = a by
      simpa using this (snap.addrs f) []
    intro l
    induction l with
    | nil => simp
    | cons x t ih =>
      intro out
      rw [List.foldl_cons, ih]
      simp only [List.exists_mem_cons_iff]
      by_cases hx : (x.index == link.index && x.global && !out.contains x.loc.addr) = true
      · rw [if_pos hx]
        simp only [Bool.and_eq_true, beq_iff_eq] at hx
        obtain ⟨⟨hidx, hglob⟩, -⟩ := hx
        simp [hidx, hglob, or_assoc, eq_comm (a := a)]
      · rw [if_neg hx]
        -- the address is not taken: it is on another link, or already there
        have hout : x.index = link.index → x.global = true → x.loc.addr = a → a ∈ out := by
          rintro hidx hglob rfl
          simpa [hidx, hglob] using hx
        constructor
        · tauto
        · rintro (h | ⟨h1, h2, h3⟩ | h)
          · exact .inl h
          · exact .inl (hout h1 h2 h3)
          · exact .inr h

theorem liveGlobals_subset (hs : Shows spec k snap) (hnd : (k.links.map (·.name)).Nodup) (name : String)
    (tables : List ℕ) : liveGlobals snap name f ⊆ liveGlobals (k.view tables) name f := by
  intro a ha
  obtain ⟨link, hl, x, hx, hrest⟩ := mem_liveGlobals.1 ha
  exact mem_liveGlobals.2 ⟨link, find?_name_eq hs.links hnd hl, x, hs.addrs f hx, hrest⟩

theorem effective_native (hc : s.config.NativeOverlay) (snap : Snapshot) (f : Family) :
    (s.effective snap f).config = s.config ∧ (s.effective snap f).leaveReturnPath = s.leaveReturnPath ∧
      ∀ a ∈ (s.effective snap f).returnPath f, a ∈ s.returnPath f ∨ a ∈ liveGlobals snap s.config.exitIf f := by
  unfold Spec.effective
  rw [if_neg (by simp [hc.not_gluetun])]
  split_ifs with hleave
  · exact ⟨rfl, rfl, fun a ha => .inl ha⟩
  · refine ⟨rfl, rfl, fun a ha => ?_⟩
    simp only [Spec.setReturnPath, Function.update_self] at ha
    exact (mem_foldl_add _ _ a).1 ha

include hc in
theorem rules_expected (h : SpecOf spec s) (hs : Shows spec k snap)
    (hnd : (k.links.map (·.name)).Nodup) : (s.effective snap f).rules f ⊆ expectedRules spec k f := by
  have hcs : s.config.NativeOverlay := h.config ▸ hc
  obtain ⟨hcfg, -, hrp⟩ := effective_native hcs snap f
  intro r hr
  refine List.mem_append_left _ ?_
  rw [Spec.addedRules_eq (widest_native hc)]
  have hcfg' : (s.effective snap f).config = spec.config := hcfg.trans h.config
  have hr' := ((Spec.mem_rules_overlay (hcfg ▸ hcs)).1 hr).1
  rw [hcfg'] at hr'
  simp only [List.mem_cons, List.mem_append, List.mem_ite_nil_right, List.not_mem_nil,
    or_false, Option.mem_toList, Option.map_eq_some_iff, List.mem_flatMap, or_assoc]
  rcases hr' with rfl | ⟨-, rfl⟩ | ⟨ov, hov, rfl⟩ | ⟨a, ha, hr'⟩ | hr'
  · exact .inl rfl
  · exact .inr (.inl ⟨rfl, rfl⟩)
  · exact .inr (.inr (.inl ⟨ov, hov, rfl⟩))
  · refine .inr (.inr (.inr (.inl ⟨a, List.mem_append.2 ?_, hr'⟩)))
    rcases hrp a ha with ha | ha
    · exact .inl (h.returnPath ▸ ha)
    · rw [h.config] at ha
      exact .inr (liveGlobals_subset hs hnd _ _ ha)
  · exact .inr (.inr (.inr (.inr hr')))

theorem mem_leftReturnPath (h : r ∈ leftReturnPath s f actual) :
    s.skipped f r.priority = true ∧ s.returnPathShaped f r = true ∧ ∃ x ∈ actual, r = shifted s f x := by
  suffices ∀ (l : List Rule) (out : List Rule), r ∈ l.foldl (fun out x =>
      let a := shifted s f x
      if !s.skipped f a.priority || !s.returnPathShaped f a then out
      else if out.any fun y => y.priority == a.priority && equalItems y.items a.items then out
      else out ++ [a]) out → r ∈ out ∨ s.skipped f r.priority = true ∧ s.returnPathShaped f r = true ∧
        ∃ x ∈ l, r = shifted s f x by
    exact (this actual [] h).resolve_left (by simp)
  intro l
  induction l with
  | nil => exact fun out h => .inl h
  | cons x t ih =>
    intro out h
    rcases ih _ h with h | ⟨h1, h2, y, hy, h3⟩
    · dsimp only at h
      split_ifs at h with hbad hdup
      · exact .inl h
      · exact .inl h
      · rcases List.mem_append.1 h with h | h
        · exact .inl h
        · obtain rfl := List.mem_singleton.1 h
          simp only [Bool.or_eq_true, Bool.not_eq_true', not_or, Bool.not_eq_false] at hbad
          exact .inr ⟨hbad.1, hbad.2, x, (.head _), rfl⟩
    · exact .inr ⟨h1, h2, y, .tail x hy, h3⟩

theorem skipped_priority {n : ℕ} (h : s.skipped f n = true) : n = prioReturnPath ∨ n = prioBackstop := by
  unfold Spec.skipped at h
  simp only [Bool.and_eq_true, Bool.or_eq_true, beq_iff_eq] at h
  exact h.2

include hc in
theorem left_expected (hcfg : s.config = spec.config) (hs : Shows spec k snap) :
    leftReturnPath s f (snap.rules f) ⊆ expectedRules spec k f := by
  intro r hr
  obtain ⟨hskip, hshape, x, hx, hrx⟩ := mem_leftReturnPath hr
  have hshape : spec.returnPathShaped f r = true := by
    unfold Spec.returnPathShaped at hshape ⊢
    rwa [hcfg] at hshape
  obtain ⟨-, hsrc, hprio⟩ := of_returnPathShaped hc hshape
  -- the rule is one of the kernel's, or the one above it
  have hcases : r = x ∨ r = x.raise := by
    unfold shifted at hrx
    split_ifs at hrx
    · exact .inr hrx
    · exact .inl hrx
  rcases hs.rules f x hx with hk | hown
  · refine List.mem_append_right _ (List.mem_filter.2 ⟨List.mem_append.2 ?_, hshape⟩)
    rcases hcases with rfl | rfl
    · exact .inl hk
    · exact .inr (List.mem_map_of_mem hk)
  · rcases List.mem_append.1 hown with hexp | hcopy
    · rcases hcases with rfl | rfl
      · exact hexp
      · obtain ⟨-, -, -, hsrc'⟩ := of_expected hc hexp
        simp only [Rule.raise, prioReturnPath, prioBackstop] at hprio hsrc hsrc'
        rcases hsrc' with h | h | h
        · exact absurd h hsrc
        · omega
        · omega
    · obtain ⟨e, he, rfl⟩ := List.mem_map.1 hcopy
      obtain ⟨-, hpos, -, hsrc'⟩ := of_expected hc he
      rcases hcases with rfl | rfl
      · simp only [Rule.lower, prioReturnPath, prioBackstop] at hprio hsrc hsrc'
        rcases hsrc' with h | h | h
        · exact absurd h hsrc
        · omega
        · omega
      · have : e.lower.raise = e := by
          simp [Rule.lower, Rule.raise, Nat.sub_add_cancel hpos]
        rwa [this]

theorem diff_add {hold : Bool} {a : Action} (h : a ∈ diff s f actual hold)
    (hk : a.kind = .add) : a.rule ∈ s.rules f ∨ a.rule ∈ leftReturnPath s f actual := by
  unfold diff at h
  rcases List.mem_append.1 h with h | h
  · rcases List.mem_append.1 h with h | h
    · obtain ⟨n, -, h⟩ := List.mem_flatMap.1 h
      obtain ⟨w, hw, rfl⟩ := List.mem_map.1 h
      have hmem := List.mem_map_of_mem (f := Prod.fst) (List.mem_filter.1 hw).1
      rw [foldl_rules] at hmem
      left
      simpa using hmem
    · obtain ⟨n, -, h⟩ := List.mem_flatMap.1 h
      obtain ⟨l, hl, rfl⟩ := List.mem_map.1 h
      exact .inr (List.mem_filter.1 hl).1
  · exact absurd hk (foldl_kind (by simp) a h)

structure PlanOf (spec : Spec) (k : Kern) (p : Plan) : Prop where
  refresh : p.hostRefresh = false
  adds : ∀ a ∈ p.rules, a.kind = .add → a.rule ∈ ownRules spec k p.family
  want : ∀ n, ∀ w ∈ p.wantAt n, w ∈ expectedRules spec k p.family ∧ w.priority = n
  routes : ∀ a ∈ p.routes, a.kind ≠ .delRoute → a.route ∈ ownRoutes spec k p.family
  table : ∀ a ∈ p.routes, a.route.table = spec.config.table

theorem exitTableActions_add {table : ℕ}
    (h : a ∈ exitTableActions routes f table exitIf mode) (hk : a.kind ≠ .delRoute) :
    a.route = fallbackRoute f table ∨ (exitIf ≠ 0 ∧ a.route = tunnelRoute f table exitIf) := by
  have hdel : ∀ (l : List Route) (st : ExitScan), (∀ x ∈ st.del, x.kind = .delRoute) →
      ∀ x ∈ (l.foldl (exitScan exitIf mode) st).del, x.kind = .delRoute := by
    intro l
    induction l with
    | nil => exact fun st h => h
    | cons r t ih =>
      intro st hst
      refine ih _ ?_
      unfold exitScan
      split_ifs
      · exact hst
      · exact hst
      · intro x hx
        rcases List.mem_append.1 hx with hx | hx
        · exact hst x hx
        · rw [List.mem_singleton.1 hx]
  unfold exitTableActions at h
  rcases List.mem_append.1 h with h | h
  · rcases List.mem_append.1 h with h | h
    · split_ifs at h
      · cases h
      · rw [List.mem_singleton.1 h]
        exact .inl rfl
    · split_ifs at h with hc
      · rw [List.mem_singleton.1 h]
        exact .inr ⟨hc.2.2, rfl⟩
      · cases h
  · exact absurd (hdel _ _ (by simp) a h) hk

theorem exitTableActions_table {table : ℕ}
    (ht : ∀ r ∈ routes, r.table = table)
    (h : a ∈ exitTableActions routes f table exitIf mode) : a.route.table = table := by
  have hdel : ∀ (l : List Route) (st : ExitScan), (∀ r ∈ l, r.table = table) →
      (∀ x ∈ st.del, x.route.table = table) → ∀ x ∈ (l.foldl (exitScan exitIf mode) st).del, x.route.table = table := by
    intro l
    induction l with
    | nil => exact fun st _ h => h
    | cons r t ih =>
      intro st hl hst
      refine ih _ (fun x hx => hl x (.tail r hx)) ?_
      unfold exitScan
      split_ifs
      · exact hst
      · exact hst
      · intro x hx
        rcases List.mem_append.1 hx with hx | hx
        · exact hst x hx
        · rw [List.mem_singleton.1 hx]
          exact hl r (.head _)
  unfold exitTableActions at h
  rcases List.mem_append.1 h with h | h
  · rcases List.mem_append.1 h with h | h
    · split_ifs at h
      · cases h
      · rw [List.mem_singleton.1 h]
        rfl
    · split_ifs at h
      · rw [List.mem_singleton.1 h]
        rfl
      · cases h
  · exact hdel _ _ ht (by simp) a h

include hc in
theorem planOf_planFamily (h : SpecOf spec s) (hs : Shows spec k snap)
    (hnd : (k.links.map (·.name)).Nodup) (f : Family) (starting : Bool) :
    PlanOf spec k (s.planFamily snap f starting) where
  refresh := by
    have hg : s.config.isGluetun = false := by rw [h.config]; exact hc.not_gluetun
    simp [Spec.planFamily, hg]
  adds a ha hk := by
    have hcfg : (s.effective snap f).config = spec.config :=
      (effective_native (h.config ▸ hc) snap f).1.trans h.config
    refine expected_mem_own ?_
    rcases diff_add ha hk with ha | ha
    · exact rules_expected hc h hs hnd ha
    · exact left_expected hc hcfg hs ha
  want n w hw := by
    have hcfg : (s.effective snap f).config = spec.config :=
      (effective_native (h.config ▸ hc) snap f).1.trans h.config
    unfold Plan.wantAt at hw
    split_ifs at hw
    · obtain ⟨hw, hn⟩ := List.mem_filter.1 hw
      exact ⟨left_expected hc hcfg hs hw, by simpa using hn⟩
    · obtain ⟨hw, hn⟩ := List.mem_filter.1 hw
      exact ⟨rules_expected hc h hs hnd hw, by simpa using hn⟩
  routes a ha hk := by
    rcases exitTableActions_add ha hk with hr | ⟨hne, hr⟩
    · rw [hr, h.config]
      exact .head _
    · have hidx : ((snap.link s.config.exitIf).getD {}).index = exitIndex spec k := by
        cases hl : snap.link s.config.exitIf with
        | none =>
          rw [hl] at hne
          exact absurd rfl hne
        | some x =>
          have := find?_name_eq hs.links hnd hl
          rw [h.config] at this
          simp [exitIndex, this]
      rw [hidx] at hne hr
      rw [hr, h.config]
      simp [ownRoutes, hne, Spec.planFamily]
  table a ha := by
    rw [← h.config]
    refine exitTableActions_table (fun r hr => ?_) ha
    simpa using (List.mem_filter.1 hr).2

theorem guardRule_eq (hc : s.config.NativeOverlay) (f : Family) : guardRule s f = Spec.tempGuardRule s.config f := by
  have hc' : ({ s with tempGuard := fun g => g == f } : Spec).config.NativeOverlay := hc
  have hmem : Spec.tempGuardRule s.config f ∈ Spec.rules { s with tempGuard := fun g => g == f } f := by
    refine (Spec.mem_rules_overlay hc').2 ⟨.inr (.inl ⟨by simp, rfl⟩), ?_⟩
    simp [Spec.skipped, Spec.tempGuardRule, rejectRule, prioTempGuard, prioReturnPath, prioBackstop]
  unfold guardRule
  cases hfind : (Spec.rules { s with tempGuard := fun g => g == f } f).find? (·.priority == prioTempGuard) with
  | none => exact absurd (List.find?_eq_none.1 hfind _ hmem) (by simp [Spec.tempGuardRule, rejectRule])
  | some r =>
    have hprio : r.priority = prioTempGuard := by simpa using List.find?_some hfind
    have hr := ((Spec.mem_rules_overlay hc').1 (List.mem_of_find?_eq_some hfind)).1
    -- no other rule of the contract has the guard's priority
    rcases hr with rfl | ⟨-, rfl⟩ | ⟨_, -, rfl⟩ | ⟨a, -, rfl | rfl⟩ | rfl | rfl | rfl
    · cases hprio
    · rfl
    · cases hprio
    · cases hprio
    · cases hprio
    · cases hprio
    · cases hprio
    · cases hprio

include hc in
theorem guardRule_mem_own (h : SpecOf spec s) (f : Family) :
    guardRule s f ∈ ownRules spec k f := by
  rw [guardRule_eq (h.config ▸ hc), h.config]
  refine expected_mem_own (List.mem_append_left _ ?_)
  rw [Spec.addedRules_eq (widest_native hc)]
  simp [widestSpec]

theorem Shows.withRule (hs : Shows spec k snap) (hr : r ∈ ownRules spec k f) :
    Shows spec k (snap.withRule f r) := by
  refine ⟨hs.links, hs.addrs, fun g x hx => ?_⟩
  replace hx : x ∈ Function.update snap.rules f (State.insertRule r (snap.rules f)) g := hx
  by_cases hg : g = f
  · subst hg
    rw [Function.update_self] at hx
    rcases mem_insertRule.1 hx with rfl | hx
    · exact .inr hr
    · exact hs.rules g x hx
  · rw [Function.update_of_ne hg] at hx
    exact hs.rules g x hx

theorem SpecOf.setGuard (h : SpecOf spec s) (f : Family) (held : Bool) : SpecOf spec (s.setGuard f held) :=
  ⟨h.config, h.returnPath, h.leaveReturnPath⟩

end Plans

end Molebridge
