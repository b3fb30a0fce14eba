import Molebridge.Spec.Status

/-! The two readings of the host table. The plan copies the main table's plain host
routes (`isHostRoute`); the check wants, of the main table, also the destinations of
routes that apply under a condition or go through a gateway of the other family
(`isWantedHost`), which nothing copies. The two agree where each such route has the
destination of a plain one. -/

namespace Molebridge

variable {hostIf : ℕ} {r : Route}

theorem isHostRoute_isHostDestination (h : isHostRoute hostIf r = true) :
    isHostDestination hostIf r = true := by
  simp only [isHostRoute, Bool.and_eq_true, Bool.not_eq_true', Bool.or_eq_false_iff, beq_iff_eq,
    bne_iff_ne] at h
  obtain ⟨⟨⟨⟨htyp, hoif⟩, hif⟩, ⟨⟨⟨_, hnh⟩, henc⟩, hmp⟩, hcond⟩, hgw⟩ := h
  simp [isHostDestination, htyp, hoif, hif, hnh, henc, hmp, hcond, hgw]

theorem isHostRoute_isWantedHost (h : isHostRoute hostIf r = true) :
    isWantedHost hostIf r = true := by
  simp only [isHostRoute, Bool.and_eq_true, Bool.not_eq_true', Bool.or_eq_false_iff] at h
  obtain ⟨⟨⟨⟨_, _⟩, _⟩, ⟨⟨⟨_, _⟩, _⟩, _⟩, -⟩, _⟩ := h
  simp only [isWantedHost]
  cases hg : r.gateway.isSome <;> simp_all

theorem mem_hostRoutes_dst (check : Bool) {routes : List Route} {d : Option Prefix} :
    d ∈ (hostRoutes routes hostIf check).1.map HostRoute.dst ↔
      ∃ r ∈ routes, isHostRoute hostIf r = true ∧ r.dst = d := by
  simp [hostRoutes, and_assoc]

theorem length_eq_and_subset_iff {α : Type*} [DecidableEq α] {wanted found : List α}
    (hw : wanted.Nodup) (hf : found.Nodup) (hsub : found ⊆ wanted) :
    (wanted.length = found.length ∧ wanted ⊆ found) ↔ wanted ⊆ found := by
  refine ⟨And.right, fun h => ⟨?_, h⟩⟩
  exact le_antisymm (hw.subperm h).length_le (hf.subperm hsub).length_le

theorem isHostRoute_of_wanted (h : isWantedHost hostIf r = true)
    (hvia : r.via = false) (hcond : r.unconditional = true) : isHostRoute hostIf r = true := by
  simp only [isWantedHost, Bool.and_eq_true, Bool.or_eq_true] at h
  obtain ⟨⟨⟨⟨⟨⟨htyp, hif⟩, hoif⟩, henc⟩, hmp⟩, hnh⟩, hgw⟩ := h
  rcases hgw with hgw | hgw <;>
    simp [isHostRoute, htyp, hif, hoif, henc, hmp, hnh, hgw, hvia, hcond]

theorem hostTableStatus_of_copied {host main : List Route} (f : Family)
    (hplain : ∀ r ∈ host, isHostRoute hostIf r = true)
    (hsame : ∀ d, (∃ r ∈ host, r.dst = d) ↔ ∃ r ∈ main, isHostRoute hostIf r = true ∧ r.dst = d) :
    hostTableStatus host hostIf f main true = true ↔
      (∀ r ∈ main, isWantedHost hostIf r = true → ∃ r' ∈ host, r'.dst = r.dst) ∧
        ((∃ r ∈ host, r.isDefault = true) ∨ f = .v6) := by
  have hdest : hostDestinations host hostIf = some (host.map (·.dst)).dedup := by
    rw [hostDestinations, if_pos (List.all_eq_true.2 fun r hr =>
      isHostRoute_isHostDestination (hplain r hr))]
  unfold hostTableStatus
  rw [hdest]
  dsimp only
  set wanted := ((main.filter (isWantedHost hostIf)).map (·.dst)).dedup with hwanted
  have hmem : ∀ d, d ∈ wanted ↔ ∃ r ∈ main, isWantedHost hostIf r = true ∧ r.dst = d := by
    simp [hwanted, and_assoc]
  have hsub : (host.map (·.dst)).dedup ⊆ wanted := by
    intro d hd
    obtain ⟨r, hr, hroute, hrd⟩ := (hsame d).1 (by simpa using hd)
    exact (hmem d).2 ⟨r, hr, isHostRoute_isWantedHost hroute, hrd⟩
  have hcover : (wanted.length == (host.map (·.dst)).dedup.length &&
      wanted.all ((host.map (·.dst)).dedup.contains ·)) = true ↔
        ∀ r ∈ main, isWantedHost hostIf r = true → ∃ r' ∈ host, r'.dst = r.dst := by
    have hall : wanted.all ((host.map (·.dst)).dedup.contains ·) = true ↔
        wanted ⊆ (host.map (·.dst)).dedup := by
      simp only [List.all_eq_true, List.contains_iff_mem]
      rfl
    rw [Bool.and_eq_true, beq_iff_eq, hall,
      length_eq_and_subset_iff (List.nodup_dedup _) (List.nodup_dedup _) hsub]
    constructor
    · intro h r hr hw
      simpa using h ((hmem r.dst).2 ⟨r, hr, hw, rfl⟩)
    · intro h d hd
      obtain ⟨r, hr, hw, rfl⟩ := (hmem d).1 hd
      simpa using h r hr hw
  have hdefault : ((host.map (·.dst)).dedup.any fun d => d.elim false (·.bits == 0)) = true ↔
      ∃ r ∈ host, r.isDefault = true := by
    simp [Route.isDefault]
  rw [Bool.true_and, ← hcover, ← hdefault]
  cases h : wanted.length == (host.map (·.dst)).dedup.length &&
      wanted.all ((host.map (·.dst)).dedup.contains ·) <;> simp

section Plan

variable {s : Spec} {snap : Snapshot} {f : Family} {starting : Bool}

def hostIfIndex (s : Spec) (snap : Snapshot) : ℕ := ((snap.link s.config.hostIf).getD {}).index

theorem copied_of_no_refresh (hg : s.config.isGluetun = true)
    (h : (s.planFamily snap f starting).hostRefresh = false) :
    (∀ r ∈ snap.routesInTable f s.config.hostTable, isHostRoute (hostIfIndex s snap) r = true) ∧
    (∀ d, (∃ r ∈ snap.routesInTable f s.config.hostTable, r.dst = d) ↔
      ∃ r ∈ snap.routesInTable f tableMain, isHostRoute (hostIfIndex s snap) r = true ∧ r.dst = d) := by
  have hmatch : hostTableMatches
      (hostRoutes (snap.routesInTable f tableMain) (hostIfIndex s snap) false).1
      (hostRoutes (snap.routesInTable f s.config.hostTable) (hostIfIndex s snap) true).1
      (hostRoutes (snap.routesInTable f s.config.hostTable) (hostIfIndex s snap) true).2 = true := by
    simpa [Spec.planFamily, hg, hostIfIndex] using h
  rw [hostTableMatches, Bool.and_eq_true, Bool.not_eq_true', beq_iff_eq] at hmatch
  have hplain : ∀ r ∈ snap.routesInTable f s.config.hostTable,
      isHostRoute (hostIfIndex s snap) r = true := by
    intro r hr
    have hodd := hmatch.1
    simp only [hostRoutes, Bool.true_and, List.any_eq_false, Bool.not_eq_true', Bool.not_eq_false] at hodd
    exact hodd r hr
  refine ⟨hplain, fun d => ?_⟩
  rw [← mem_hostRoutes_dst false, hmatch.2, mem_hostRoutes_dst]
  exact exists_congr fun r => and_congr_right fun hr => by simp [hplain r hr]

theorem default_of_no_problem (hg : s.config.isGluetun = true)
    (hrefresh : (s.planFamily snap f starting).hostRefresh = false)
    (h : Problem.noDefault ∉ (s.planFamily snap f starting).problems) :
    (∃ r ∈ snap.routesInTable f s.config.hostTable, r.isDefault = true) ∨ f = .v6 := by
  cases f with
  | v6 => exact .inr rfl
  | v4 =>
    refine .inl (by_contra fun hno => h ?_)
    have hlist : hasIPv4Default
        (hostRoutes (snap.routesInTable .v4 s.config.hostTable) (hostIfIndex s snap) true).1 = false := by
      rw [hasIPv4Default, List.any_eq_false]
      intro x hx hbits
      obtain ⟨r, hr, -, hdst⟩ := (mem_hostRoutes_dst true).1 (List.mem_map_of_mem hx)
      exact hno ⟨r, hr, by rw [Route.isDefault, hdst]; exact hbits⟩
    refine List.mem_flatten.2 ⟨[.noDefault], .tail _ ?_, List.mem_singleton_self _⟩
    have hcond : (s.config.isGluetun && !(s.planFamily snap .v4 starting).hostRefresh &&
        Family.v4 == .v4 && !hasIPv4Default (hostRoutes (snap.routesInTable .v4 s.config.hostTable)
          (hostIfIndex s snap) true).1) = true := by
      rw [hg, hrefresh, hlist]
      rfl
    have hindex : (if s.config.isGluetun || s.config.isNativeSidecar then
        (snap.link s.config.hostIf).getD {} else {}).index = hostIfIndex s snap := by
      rw [hg, Bool.true_or, if_pos rfl, hostIfIndex]
    rw [← hindex] at hcond
    exact List.mem_cons.2 (.inl (if_pos hcond).symm)

end Plan

/-- Where the plan asks for nothing, the check passes exactly when every route of the
main table that it wants and the plan does not copy, for its condition or its gateway
of the other family, has the destination of one that is copied. -/
theorem hostTableStatus_iff (s : Spec) (snap : Snapshot) (f : Family) (starting : Bool)
    (hg : s.config.isGluetun = true)
    (hrefresh : (s.planFamily snap f starting).hostRefresh = false)
    (hdefault : Problem.noDefault ∉ (s.planFamily snap f starting).problems) :
    hostTableStatus (snap.routesInTable f s.config.hostTable) (hostIfIndex s snap) f
        (snap.routesInTable f tableMain) true = true ↔
      ∀ r ∈ snap.routesInTable f tableMain, isWantedHost (hostIfIndex s snap) r = true →
        r.via = true ∨ r.unconditional = false →
        ∃ r' ∈ snap.routesInTable f tableMain,
          isHostRoute (hostIfIndex s snap) r' = true ∧ r'.dst = r.dst := by
  obtain ⟨hplain, hsame⟩ := copied_of_no_refresh hg hrefresh
  rw [hostTableStatus_of_copied f hplain hsame]
  have hdef := default_of_no_problem hg hrefresh hdefault
  constructor
  · rintro ⟨hall, -⟩ r hr hw -
    exact (hsame r.dst).1 (hall r hr hw)
  · refine fun h => ⟨fun r hr hw => (hsame r.dst).2 ?_, hdef⟩
    by_cases hodd : r.via = true ∨ r.unconditional = false
    · exact h r hr hw hodd
    · rw [not_or, Bool.not_eq_true, Bool.not_eq_false] at hodd
      exact ⟨r, hr, isHostRoute_of_wanted hw hodd.1 hodd.2, rfl⟩

/-- A gluetun exit whose host interface eth0 has index 2. -/
def hostSpec : Spec :=
  { config := { kind := .overlay, backend := .gluetun, hostIf := "eth0", hostTable := 51822 } }

/-- An IPv6 default route of the main table through the host interface. -/
def hostDefault (src : Option Prefix) : Route :=
  { family := .v6, dst := some (Prefix.default .v6), table := tableMain, typ := rtnUnicast,
    oif := some 2, src := src }

/-- 2001:db8::/32. -/
def documentation : Prefix := ⟨⟨.v6, 0x20010DB8 * 2 ^ 96, by decide⟩, 32, by decide⟩

def hostSnap (main host : List Route) : Snapshot :=
  { routes := fun f => if f = .v6 then main ++ host else []
    links := [{ index := 2, name := "eth0" }] }

/-- A default route for the packets of one source only: the plan asks for nothing, and the check fails
while the host table has no default. -/
theorem hostTableStatus_conditional :
    hostSpec.config.isGluetun = true ∧
    (hostSpec.planFamily (hostSnap [hostDefault documentation] []) .v6 false).hostRefresh = false ∧
    Problem.noDefault ∉ (hostSpec.planFamily (hostSnap [hostDefault documentation] []) .v6 false).problems ∧
    hostTableStatus ((hostSnap [hostDefault documentation] []).routesInTable .v6 hostSpec.config.hostTable)
      (hostIfIndex hostSpec (hostSnap [hostDefault documentation] [])) .v6
      ((hostSnap [hostDefault documentation] []).routesInTable .v6 tableMain) true = false := by
  decide

/-- A plain default route that is copied. -/
theorem hostTableStatus_iff_copied :
    hostTableStatus
      ((hostSnap [hostDefault none] [{ hostDefault none with table := 51822 }]).routesInTable .v6 51822)
      2 .v6
      ((hostSnap [hostDefault none] [{ hostDefault none with table := 51822 }]).routesInTable .v6 tableMain)
      true = true :=
  (hostTableStatus_iff hostSpec (hostSnap [hostDefault none] [{ hostDefault none with table := 51822 }])
    .v6 false rfl (by decide) (by decide)).2 (by decide)

end Molebridge
