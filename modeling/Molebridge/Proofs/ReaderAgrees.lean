import Molebridge.Proofs.PublishedOk

/-! A record the applier publishes as ok, read back by `assess`: the two agree unless
the catalogue aged out during the inspection, the provider's check left out a family of
the tunnel, or the attempt's own outcome speaks against it. -/

namespace Molebridge.Applier

variable {expected entries : List String} {record raw check : Members} {server : String} {age : Option ℤ}
  {name : CheckName}

/-! ### The addresses of the record -/

theorem lookup_map_const {α : Type} (names : List String) (v : α) (name : String) :
    (names.map (·, v)).lookup name = if name ∈ names then some v else none := by
  induction names with
  | nil => rfl
  | cons x rest ih =>
    rw [List.map_cons, List.lookup_cons, ih]
    by_cases h : name = x
    · simp [h]
    · simp [h, beq_eq_false_iff_ne.2 h]

variable {e : EgressResult} {tier : Tier}

theorem mem_keys_shownIPs {f : String} :
    f ∈ (shownIPs e (shownFamilies (some tier) e expected)).keys ↔ f ∈ expected ∧ f ∈ e.ips.map Prod.fst := by
  have hshown : shownFamilies (some tier) e expected = expected.map (·, "pass") := rfl
  simp only [Members.keys, shownIPs, hshown, lookup_map_const, List.mem_dedup, List.mem_map, List.mem_filter]
  constructor
  · rintro ⟨x, ⟨y, ⟨hy, hmem⟩, rfl⟩, rfl⟩
    exact ⟨by simpa using hmem, y, hy, rfl⟩
  · rintro ⟨hmem, y, hy, rfl⟩
    exact ⟨(y.1, .str y.2), ⟨y, ⟨hy, by simpa using hmem⟩, rfl⟩, rfl⟩

theorem egressIPsConsistent_shown {spec : Provider}
    {at_ : String} (hnodup : expected.Nodup)
    (hraw : record.get "checks" = .obj raw)
    (hcheck : raw.get "egress" = egressCheck spec e (some tier) at_ server expected)
    (hips : record.get "egress_ips" = .obj (shownIPs e (shownFamilies (some tier) e expected))) :
    egressIPsConsistent record = true ↔ expected ⊆ e.ips.map Prod.fst := by
  set families : Members := expected.map fun f => (f, .str "pass") with hfam
  have hkeys : families.keys = expected := by
    rw [Members.keys, hfam, List.map_map, Function.comp_def, List.map_id', hnodup.dedup]
  have hpassing : (families.keys.filter fun f => (families.get f).isStr "pass") = expected := by
    rw [hkeys, List.filter_eq_self]
    intro f hf
    simp [hfam, Members.get, lookup_map_const, hf]
  have hget : ∃ check : Members, raw.get "egress" = .obj check ∧ check.get "families" = .obj families := by
    refine ⟨_, hcheck, ?_⟩
    simp [shownFamilies, hfam, Function.comp_def]
  obtain ⟨_, hcheck, hshown⟩ := hget
  unfold egressIPsConsistent
  simp only [hraw, Json.object_obj, Option.getD_some, hcheck, hips, hshown, hpassing, Bool.and_eq_true, List.all_eq_true,
    has_iff_mem_keys, mem_keys_shownIPs, beq_iff_eq]
  constructor
  · rintro ⟨hall, -⟩ f hf
    exact (hall f hf).2
  · intro hsub
    refine ⟨fun f hf => ⟨hf, hsub hf⟩, List.Perm.length_eq ?_⟩
    refine (List.perm_ext_iff_of_nodup (List.nodup_dedup _) hnodup).2 fun f => mem_keys_shownIPs.trans ?_
    exact ⟨fun h => h.1, fun hf => ⟨hf, hsub hf⟩⟩

/-! ### The tier -/

theorem nordRounds_tier {rounds : List (Option Insights × Bool)}
    (h : nordRounds entries rounds = some e) : e.tier = none := by
  fun_induction nordRounds entries rounds with
  | case1 => cases h
  | case2 => cases h
  | case3 i another rest hlast =>
    cases h
    rfl
  | case4 i another rest hlast ih => exact ih h

theorem egressFor_tier {method : EgressMethod} {reading : EgressReading} {known : Bool}
    (h : egressFor method reading known entries age = some e)
    (htier : e.tier = some .tunnel) : method = .tunnel := by
  cases method with
  | tunnel => rfl
  | mullvad =>
    simp only [egressFor, mullvadEgress, Option.bind_eq_bind, Option.bind_eq_some_iff] at h
    obtain ⟨_, -, h⟩ := h
    simp [mullvadFamilies_tier h] at htier
  | nord =>
    simp only [egressFor, nordEgressFor, Option.bind_eq_bind, Option.bind_eq_some_iff] at h
    obtain ⟨-, -, h⟩ := h
    simp [nordRounds_tier h] at htier
  | pia =>
    simp only [egressFor, piaEgress, Option.bind_eq_bind, Option.bind_eq_some_iff] at h
    obtain ⟨-, -, x, -, h⟩ := h
    cases h
    cases htier
  | unmeasurable =>
    simp only [egressFor, unmeasurableEgress, Option.bind_eq_bind, Option.bind_eq_some_iff] at h
    obtain ⟨-, -, _, -, h⟩ := h
    cases h
    cases htier

theorem spec_backend (s : ExitSettings) : s.spec.backend = s.exit.backend := by
  obtain ⟨p, hp⟩ := Option.isSome_iff_exists.1 s.known
  simp [ExitSettings.spec, ExitSettings.exit, ExitConfig.backend, backendOf, hp]

theorem tierShape_confirmed {m : Memory} {applying : Bool} {r : Reading}
    (hanswer : (checkedEgress m server age applying r).1 = some e) (htier : egressTier m.settings.spec e = some tier)
    (hcheck : check.get "tier" = .str tier.text) : tierShape m.settings.exit check = true := by
  obtain ⟨_, -, hreading⟩ := checkedEgress_some hanswer
  have hread : (check.get "tier").string.bind Tier.ofText = some tier := by
    rw [hcheck]
    cases tier <;> decide
  unfold tierShape
  rw [hread]
  cases tier with
  | provider => rfl
  | tunnel =>
    have htunnel : m.settings.spec.egressTier = .tunnel ∧ e.tier = some .tunnel := by
      unfold egressTier at htier
      split_ifs at htier with hconfirmed htunnel
      · cases htier
      · exact htunnel
    have hmethod := egressFor_tier hreading htunnel.2
    have hside : m.settings.exit.gluetunSidecar = false := by
      by_contra hside
      simp only [ExitConfig.gluetunSidecar, Bool.not_eq_false, Bool.and_eq_true, beq_iff_eq, ← spec_backend] at hside
      have hkind : m.settings.kind = .sidecar := hside.1
      unfold egressMethod at hmethod
      simp only [hside.2] at hmethod
      split_ifs at hmethod
    have hlookup : lookupProvider m.settings.exit.provider = some m.settings.spec :=
      (Option.some_get m.settings.known).symm
    simp [hside, hlookup, htunnel.1]

/-! ### The checks of the record -/

section Checks

variable {m : Memory} {applying : Bool} {time : ℚ} {r : Reading} {server : String} {age : ℤ} {tunnel : List Family}
  {e : EgressResult} {tier : Tier} {record raw : Members} {now ownerTime expiry : ℤ}
variable (hh : Healthy m applying time r server age tunnel e tier)

/-- The checks a reader finds: those of the inspection, with the owner's filled in. -/
structure Filled (m : Memory) (found : Members) (record raw : Members) (now ownerTime expiry : ℤ) : Prop where
  checks : record.get "checks" = .obj raw
  measured : ∀ name : CheckName, ¬ (m.settings.native = true ∧ name = .ownerRecord) → raw.get name.text = found.get name.text
  owner : m.settings.native = true → raw.get CheckName.ownerRecord.text = .obj (ownerCheck true ownerTime expiry)
  held : fresh (.str (formatTime ownerTime)) now = true ∧ leaseLapsed (ownerCheck true ownerTime expiry) now = false

include hh

theorem get_peer
    (hf : Filled m (measure m applying time r).checks record raw now ownerTime expiry) :
    raw.get "peer" = peerCheck (formatTime r.started) server
      (if m.catalog.usable r.wallPeer then none else some "catalogue-stale") := by
  have hget := hf.measured .peer (by simp)
  rw [hh.checks] at hget
  simpa [CheckName.text, Members.get, Members.lookup_set] using hget

theorem get_handshake
    (hf : Filled m (measure m applying time r).checks record raw now ownerTime expiry) :
    raw.get "handshake" = .obj [("state", .str "pass"), ("at", .str (formatTime r.started)), ("server", .str server),
      ("age_s", .int age)] := by
  have hget := hf.measured .handshake (by simp)
  rw [hh.checks] at hget
  simpa [CheckName.text, Members.get, Members.lookup_set] using hget

theorem get_egress
    (hf : Filled m (measure m applying time r).checks record raw now ownerTime expiry) :
    raw.get "egress" = egressCheck m.settings.spec e (some tier) (formatTime r.wallEgress) server
      (tunnel.map familyName) := by
  have hget := hf.measured .egress (by simp)
  rw [hh.checks] at hget
  simpa [CheckName.text] using hget

theorem get_guard
    (hf : Filled m (measure m applying time r).checks record raw now ownerTime expiry)
    (hname : name = .routing ∨ name = .netbird ∨ name = .trafficProtection) :
    raw.get name.text = (guardFinding m time r).checks.get name.text := by
  have hget := hf.measured name (by rcases hname with rfl | rfl | rfl <;> simp)
  rw [hh.checks] at hget
  rcases hname with rfl | rfl | rfl <;> simpa [CheckName.text, Members.get, Members.lookup_set] using hget

theorem nullable_named : nullable server = .str server :=
  if_neg hh.named

theorem expected_families :
    tunnel.map familyName = ["4"] ∨ tunnel.map familyName = ["4", "6"] := by
  obtain ⟨_, -, hgroup⟩ := Option.bind_eq_some_iff.1 hh.carries
  rw [groupAddresses_eq hgroup]
  split_ifs
  · exact .inr rfl
  · exact .inl rfl

theorem egressShape_confirmed
    (hcheck : egressCheck m.settings.spec e (some tier) (formatTime r.wallEgress) server (tunnel.map familyName) =
      .obj check) : egressShape m.settings.exit check .pass = true := by
  have htier : tierShape m.settings.exit check = true :=
    tierShape_confirmed hh.answer hh.confirmed (by rw [← Json.obj.inj hcheck]; rfl)
  have hget : check.get "expected_families" = .arr ((tunnel.map familyName).map Json.str) := by
    rw [← Json.obj.inj hcheck]
    rfl
  have hfamilies : check.get "families" = .obj ((tunnel.map familyName).map (·, .str "pass")) := by
    rw [← Json.obj.inj hcheck]
    simp [shownFamilies]
  unfold egressShape expectedFamilies
  simp only [hget, hfamilies, htier]
  rcases expected_families hh with hnames | hnames
  · rw [hnames]
    decide
  · rw [hnames]
    decide

theorem readCheck_published
    (hf : Filled m (measure m applying time r).checks record raw now ownerTime expiry)
    (husable : m.catalog.usable r.wallPeer = true) (hstarted : fresh (.str (formatTime r.started)) now = true)
    (hegress : fresh (.str (formatTime r.wallEgress)) now = true)
    (hname : name ∈ m.settings.exit.required) :
    readCheck m.settings.exit (.str server) raw now name = some (.pass, none) := by
  have hguard : name = .routing ∨ name = .netbird ∨ name = .trafficProtection →
      readCheck m.settings.exit (.str server) raw now name = some (.pass, none) := by
    intro hcase
    obtain ⟨_, hget, hstate, hat, -⟩ := guardPassed_of_guarded hh.guarded hname hcase
    refine readCheck_of_passed ((get_guard hh hf hcase).trans hget) hstate (by rw [hat]; exact hstarted) ?_ ?_ ?_
    · rcases hcase with rfl | rfl | rfl <;> rfl
    · rcases hcase with rfl | rfl | rfl <;> exact fun hbound => absurd hbound (by decide)
    · rcases hcase with rfl | rfl | rfl <;> exact fun h => by cases h
  cases name with
  | routing => exact hguard (.inl rfl)
  | netbird => exact hguard (.inr (.inl rfl))
  | trafficProtection => exact hguard (.inr (.inr rfl))
  | appAttachment =>
    exfalso
    revert hname
    unfold ExitConfig.required
    generalize m.settings.exit.kind = k
    generalize m.settings.exit.backend = b
    cases k <;> cases b <;> decide
  | ownerRecord =>
    have hnative : m.settings.native = true := by
      change CheckName.ownerRecord ∈ requiredChecks m.settings.kind m.settings.backend at hname
      unfold ExitSettings.native
      revert hname
      generalize m.settings.kind = k
      generalize m.settings.backend = b
      cases k <;> cases b <;> decide
    exact readCheck_of_passed (hf.owner hnative) rfl hf.held.1 rfl (fun hbound => absurd hbound (by decide))
      fun _ => hf.held.2
  | peer =>
    have hget := get_peer hh hf
    rw [husable, if_pos rfl, peerCheck, nullable_named hh] at hget
    exact readCheck_of_passed hget rfl hstarted rfl (fun _ => ⟨by simp [Json.same], rfl⟩)
      fun h => by cases h
  | handshake =>
    refine readCheck_of_passed (get_handshake hh hf) rfl hstarted ?_
      (fun _ => ⟨by simp [Json.same], rfl⟩) fun h => by cases h
    obtain ⟨hlo, hhi⟩ := hh.recent
    have hage : (Json.int age).isInt = some age := by
      refine if_pos ?_
      simp only [handshakeFreshSec] at hhi
      omega
    simp [validShape, handshakeShape, hage, hlo, hhi]
  | egress =>
    have hget := get_egress hh hf
    refine readCheck_of_passed hget rfl hegress (egressShape_confirmed hh rfl)
      (fun _ => ⟨?_, rfl⟩) fun h => by cases h
    simp [nullable_named hh, Json.same]

theorem readChecks_published_iff
    (hf : Filled m (measure m applying time r).checks record raw now ownerTime expiry)
    (hserver : record.get "server" = .str server) :
    (∃ display found, readChecks m.settings.exit record now = .ok (display, found) ∧ found.Clear) ↔
      m.catalog.usable r.wallPeer = true ∧ fresh (.str (formatTime r.started)) now = true ∧
        fresh (.str (formatTime r.wallEgress)) now = true ∧ egressIPsConsistent record = true := by
  constructor
  · rintro ⟨_, _, hread, hclear⟩
    obtain ⟨raw', hraw', hips, hpass⟩ := of_readChecks_clear hread hclear
    obtain rfl : raw' = raw := Json.obj.inj (hraw'.symm.trans hf.checks)
    have hbound : ∀ name ∈ serverBound, name ∈ m.settings.exit.required := by
      unfold ExitConfig.required
      generalize m.settings.exit.kind = k
      generalize m.settings.exit.backend = b
      cases k <;> cases b <;> decide
    obtain ⟨-, _, hpeer, hpeerPassed⟩ := passed_of_readCheck (hpass .peer (hbound _ (by decide)))
    obtain ⟨-, _, hegress, hegressPassed⟩ := passed_of_readCheck (hpass .egress (hbound _ (by decide)))
    obtain rfl := Json.obj.inj (hpeer.symm.trans (get_peer hh hf))
    obtain rfl := Json.obj.inj (hegress.symm.trans (get_egress hh hf))
    refine ⟨?_, (measured_iff _ _).2 hpeerPassed.measured, (measured_iff _ _).2 hegressPassed.measured, hips⟩
    by_contra husable
    have hstate := hpeerPassed.state
    simp [husable, passFail] at hstate
  · rintro ⟨husable, hstarted, hegress, hips⟩
    refine readChecks_clear hf.checks (fun name hname => ?_) (fun hname => ?_) hips
    · rw [hserver]
      exact readCheck_published hh hf husable hstarted hegress hname
    · obtain ⟨check, hget, -, -, hfrom⟩ := guardPassed_of_guarded hh.guarded hname (.inr (.inr rfl))
      have hraw : raw.get "traffic_protection" = .obj check := (get_guard hh hf (.inr (.inr rfl))).trans hget
      simp [hraw, hfrom rfl]

end Checks

/-! ### The agreement -/

/-- When a reader's judgment of an ok record is the applier's: the catalogue was still
usable where the peer was judged, a check that asks about IPv4 alone met a tunnel
without IPv6, nothing about the attempt speaks against it, and its times are of years
with four digits. -/
structure Readable (m : Memory) (attempt : Attempt) (r : Reading) (p : Publishing) : Prop where
  usable : m.catalog.usable r.wallPeer = true
  families : ipv4Only (egressMethod m.settings.spec m.settings.kind) →
    ∀ addresses, r.addresses = some addresses → .v6 ∉ addresses.map (·.fam)
  settled : Settled { m with attempt } (r.server.getD "")
  dated : Dated r.started ∧ Dated r.wallEgress ∧ Dated p.wall

section Agreement

variable {m : Memory} {applying emitting : Bool} {time : ℚ} {r : Reading} {server : String} {age : ℤ}
  {tunnel : List Family} {e : EgressResult} {tier : Tier} {attempt : Attempt} {p : Publishing} {now ownerTime expiry : ℤ}
variable (hh : Healthy m applying time r server age tunnel e tier)

def published (m : Memory) (attempt : Attempt) (p : Publishing) (f : Finding) (emitting : Bool) (ownerTime expiry : ℤ) :
    Members :=
  renderRecord m.settings true ownerTime expiry (emitRecord { m with attempt } p f emitting)

include hh

theorem published_get
    (hok : (emitStatus { m with attempt } (measure m applying time r) emitting).1 = .ok) {key : String} {v : Json}
    (hkey : key ∉ ["checks", "egress_ip", "egress_city", "egress_country", "egress_ips", "server_list_update", "repair",
      "routing_activity"])
    (hcommon : ∀ message, List.lookup key (commonMembers { m with attempt } p .ok message server
      (measure m applying time r).checks) = some v) :
    (published m attempt p (measure m applying time r) emitting ownerTime expiry).get key = v := by
  simp only [List.mem_cons, not_or] at hkey
  rw [published, renderRecord_get_of_ne _ hkey.1, emitRecord]
  dsimp only
  rw [hok, hh.shown]
  refine statusRecord_get ?_ ?_ (hcommon _)
  · rw [hh.fields]
    simp [hkey]
  · simp [extraMembers, hkey]

theorem shows_published
    (hok : (emitStatus { m with attempt } (measure m applying time r) emitting).1 = .ok) :
    Shows { m with attempt } p (published m attempt p (measure m applying time r) emitting ownerTime expiry) server where
  server := by
    rw [published_get hh hok (by decide) fun _ => rfl]
    exact nullable_named hh
  requested := published_get hh hok (by decide) fun _ => rfl
  configured := published_get hh hok (by decide) fun _ => rfl
  requestId := published_get hh hok (by decide) fun _ => rfl
  selection := published_get hh hok (by decide) fun _ => rfl

theorem filled_published
    (howner : fresh (.str (formatTime ownerTime)) now = true ∧ leaseLapsed (ownerCheck true ownerTime expiry) now = false) :
    ∃ raw, Filled m (measure m applying time r).checks
      (published m attempt p (measure m applying time r) emitting ownerTime expiry) raw now ownerTime expiry := by
  have hraw : (emitRecord { m with attempt } p (measure m applying time r) emitting).get "checks" =
      .obj (measure m applying time r).checks := by
    refine statusRecord_get ?_ (by decide) rfl
    simp [hh.fields]
  obtain ⟨raw, hchecks, hmeasured, hfilled⟩ := @renderRecord_checks m.settings true ownerTime expiry _ _ hraw
  exact ⟨raw, hchecks, hmeasured, hfilled, howner⟩

theorem egressIPs_published :
    (published m attempt p (measure m applying time r) emitting ownerTime expiry).get "egress_ips" =
      .obj (shownIPs e (shownFamilies (some tier) e (tunnel.map familyName))) := by
  rw [published, renderRecord_get_of_ne _ (by decide), emitRecord]
  exact statusRecord_egressIPs hh.fields

theorem egressIPsConsistent_published
    (hsame : r.egress.addresses = r.addresses ∧ r.again.addresses = r.addresses)
    (hf : Filled m (measure m applying time r).checks record raw now ownerTime expiry)
    (hips : record.get "egress_ips" = .obj (shownIPs e (shownFamilies (some tier) e (tunnel.map familyName)))) :
    egressIPsConsistent record = true ↔ (ipv4Only (egressMethod m.settings.spec m.settings.kind) →
      ∀ addresses, r.addresses = some addresses → .v6 ∉ addresses.map (·.fam)) := by
  have hnodup : (tunnel.map familyName).Nodup := by rcases expected_families hh with h | h <;> rw [h] <;> decide
  rw [egressIPsConsistent_shown hnodup hf.checks (get_egress hh hf) hips]
  obtain ⟨reading, hreading, hfor⟩ := checkedEgress_some hh.answer
  have htunnel : reading.tunnel = some tunnel := by
    rw [EgressReading.tunnel]
    rcases hreading with rfl | rfl
    · rw [hsame.1, hh.carries]
    · rw [hsame.2, hh.carries]
  obtain ⟨honly, hall⟩ := egressFor_ips hfor hh.confirmed htunnel
  obtain ⟨_, haddr, hgroup⟩ := Option.bind_eq_some_iff.1 hh.carries
  by_cases hmethod : ipv4Only (egressMethod m.settings.spec m.settings.kind)
  · rw [honly hmethod, groupAddresses_eq hgroup]
    simp only [hmethod, haddr, Option.some.injEq, forall_eq']
    split_ifs with h6
    · simp [familyName, h6]
    · simp [familyName, h6]
  · simp [hall hmethod, hmethod]

omit hh

/-- A record published as ok is read as ok for 149 seconds in exactly these cases. -/
theorem published_ok_iff (u : Unicode) (m : Memory) (applying emitting : Bool) (time : ℚ) (r : Reading)
    (attempt : Attempt) (p : Publishing) (desired : Json) (ownerTime expiry clock now : ℤ)
    (hresolved : Resolved { m with attempt } desired)
    (hsame : r.egress.addresses = r.addresses ∧ r.again.addresses = r.addresses)
    (hok : (emitStatus { m with attempt } (measure m applying time r) emitting).1 = .ok)
    (howner : fresh (.str (formatTime ownerTime)) (orPresent clock now) = true ∧
      leaseLapsed (ownerCheck true ownerTime expiry) (orPresent clock now) = false)
    (hnow : ∀ t ∈ [r.started, r.wallEgress, p.wall],
      t ≤ orPresent clock now ∧ orPresent clock now ≤ t + 149 * second) :
    (assess u m.settings.exit (.obj (published m attempt p (measure m applying time r) emitting ownerTime expiry))
        (targetForPanel u (.obj (published m attempt p (measure m applying time r) emitting ownerTime expiry)) desired
          m.settings.provider) clock now).state = .ok ↔ Readable m attempt r p := by
  unfold assess
  generalize orPresent clock now = now at howner hnow ⊢
  obtain ⟨hfound, hrejected⟩ := emitStatus_ok hok
  obtain ⟨server, age, tunnel, e, tier, hh⟩ := healthy_of_ok hfound
  have hshow := @shows_published m applying emitting time r server age tunnel e tier attempt p ownerTime expiry hh hok
  obtain ⟨raw, hf⟩ := @filled_published m applying emitting time r server age tunnel e tier attempt p now ownerTime expiry
    hh howner
  have hget := fun {key v} => @published_get m applying emitting time r server age tunnel e tier attempt p ownerTime
    expiry hh hok key v
  have hips := egressIPsConsistent_published hh hsame hf (egressIPs_published hh)
  obtain ⟨hack, htarget⟩ := @target_shown u { m with attempt } p desired _ server hshow hh.named r.wallConfig now hh.config hh.wanted hresolved hrejected
  have hfresh : ∀ t ∈ [r.started, r.wallEgress, p.wall], (fresh (.str (formatTime t)) now = true ↔ Dated t) :=
    fun t ht => fresh_formatTime_iff (hnow t ht).1 (hnow t ht).2
  rw [assessAt_ok_iff (by rw [hget (by decide) fun _ => rfl]; rfl) (hget (by decide) fun _ => rfl)
      (hget (by decide) fun _ => rfl) (hget (by decide) fun _ => rfl) (hget (by decide) fun _ => rfl) hack,
    readChecks_published_iff hh hf hshow.server, hips, hget (by decide) fun _ => rfl, hshow.selection,
    Json.object_obj, Option.getD_some, refusedOutcome_selectionRecord hrejected, htarget,
    hfresh r.started (by simp), hfresh r.wallEgress (by simp), hfresh p.wall (by simp)]
  have hserver : r.server.getD "" = server := by rw [hh.live, Option.getD_some]
  constructor
  · rintro ⟨hwall, ⟨husable, hstarted, hegress, hfamilies⟩, houtcome, hselected⟩
    exact ⟨husable, hfamilies, ⟨houtcome, hserver ▸ hselected⟩, hstarted, hegress, hwall⟩
  · rintro ⟨husable, hfamilies, hsettled, hstarted, hegress, hwall⟩
    exact ⟨hwall, ⟨husable, hstarted, hegress, hfamilies⟩, hsettled.outcome, hserver ▸ hsettled.selected⟩

/-! ### A tunnel with both families -/

/-- An overlay without a SERVER and without a request, its catalogue just fetched. -/
def unselected (provider server : String) (known : (lookupProvider provider).isSome = true) : Memory :=
  { settings := { kind := .overlay, provider, server := "", portForward := false, known }
    configuredAt := "2023-11-14T22:00:00Z", bootId := "b", attempt := {}
    catalog := { names := [server], fetchedAt := .str "2023-11-14T22:00:00Z" } }

/-- Mullvad's check asks about both families: a minute later the record reads as ok. -/
theorem published_ok_mullvad :
    let m := unselected "mullvad" "se-sto-wg-001" mullvad_known
    let r := confirmedReading "se-sto-wg-001"
    let record := published m {} published1700 (measure m false 0 r) false (1700000030 * second) (1700000090 * second)
    (assess asciiPrint m.settings.exit (.obj record) (targetForPanel asciiPrint (.obj record) .null "mullvad")
      0 (1700000060 * second)).state = .ok := by
  refine (published_ok_iff asciiPrint (unselected "mullvad" "se-sto-wg-001" mullvad_known) false false 0
    (confirmedReading "se-sto-wg-001") {} published1700 .null (1700000030 * second) (1700000090 * second)
    0 (1700000060 * second) ⟨nofun, fun _ => rfl, nofun⟩ ⟨rfl, rfl⟩ (by decide +kernel) (by decide +kernel)
    (by decide +kernel)).2 ⟨by decide +kernel, ?_, ⟨by decide, nofun⟩, ⟨by decide, by decide⟩, ⟨by decide, by decide⟩,
      by decide, by decide⟩
  rintro (h | h) <;> exact absurd h (by decide +kernel)

/-- NordVPN's asks about IPv4 alone, the record says both families pass, and a reader
finds an address for one of them. -/
theorem published_ok_unread :
    let m := unselected "gluetun-nordvpn" "se100.nordvpn.com" (by decide +kernel)
    let r := confirmedReading "se100.nordvpn.com"
    let record := published m {} published1700 (measure m false 0 r) false (1700000000 * second) (1700000090 * second)
    Resolved m .null ∧ (record.get "status").isStr "ok" = true ∧
      (assess asciiPrint m.settings.exit (.obj record) (targetForPanel asciiPrint (.obj record) .null "gluetun-nordvpn")
        0 (1700000000 * second)).state = .unknown :=
  ⟨⟨nofun, fun _ => rfl, nofun⟩, by decide +kernel, by decide +kernel⟩

end Agreement

end Molebridge.Applier
