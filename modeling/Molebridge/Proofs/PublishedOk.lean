import Molebridge.Proofs.FailureRecord
import Molebridge.Proofs.ServerNames
import Molebridge.Spec.Inspect

/-! When a record that the applier publishes as ok is one that its readers call ok. -/

namespace Molebridge

variable {found : Issues} {entries : List String} {tunnel : List Family} {raw record : Members}

/-! ### A verdict of ok -/

section Assess

variable {u : Unicode} {exit : ExitConfig} {record : Members} {target : Target} {now : ℤ}

/-- The outcome of a selection that no status makes up for. -/
def refusedOutcome (selection : Members) : Bool :=
  (selection.get "outcome").isStr "rejected" || (selection.get "outcome").isStr "mutation-failed"

theorem judgeChecks_ok_iff {selection : Members} {base : Verdict} {checks : Checks}
    (hstatus : record.get "status" = .str "ok") :
    (judgeChecks exit record target selection base checks found).state = .ok ↔
      found.Clear ∧ refusedOutcome selection = false ∧
        targetDisagreement record target selection base.configuredServer = none := by
  constructor
  · intro h
    obtain ⟨hclear, htarget⟩ := judgeChecks_ok h
    refine ⟨hclear, ?_, htarget⟩
    by_contra href
    simp only [refusedOutcome] at href
    have hfailed : found.failed = [] := hclear .failed
    unfold judgeChecks at h
    simp [href] at h
  · rintro ⟨hclear, href, htarget⟩
    have hfailed : found.failed = [] := hclear .failed
    have hexpired : found.expired = [] := hclear .expired
    have hunmeasured : found.unmeasured = [] := hclear .unmeasured
    simp only [refusedOutcome] at href
    unfold judgeChecks
    simp [hfailed, hexpired, hunmeasured, href, htarget, hstatus]

theorem assessAt_ok_iff (hschema : (record.get "schema").isInt = some 2)
    (hkind : record.get "kind" = .str exit.kind.text) (hprovider : record.get "provider" = .str exit.provider)
    (hbackend : record.get "backend" = .str exit.backend.text) (hstatus : record.get "status" = .str "ok")
    (hack : unacknowledged record target now = none) :
    (assessAt u exit (.obj record) target now).state = .ok ↔
      fresh (record.get "checked_at") now = true ∧
        (∃ display found, readChecks exit record now = .ok (display, found) ∧ found.Clear) ∧
        refusedOutcome ((record.get "selection").object.getD []) = false ∧
        targetDisagreement record target ((record.get "selection").object.getD [])
          ((configuredServer u (.obj record)).getD "") = none := by
  have hhas : record.has "schema" = true := Members.has_of_get_ne_null fun h => by simp [h, Json.isInt] at hschema
  have hne : ("ok" == "applying") = false := by decide
  unfold assessAt
  simp only [Json.object_obj, hhas, hschema, ne_eq, not_true_eq_false,
    assessRecord, hkind, hprovider, hbackend, Json.isStr_str, beq_self_eq_true, hack, hstatus, hne, Bool.or_self]
  cases hfresh : fresh (record.get "checked_at") now with
  | false => simp
  | true =>
    cases hread : readChecks exit record now with
    | error checks => simp
    | ok x =>
      obtain ⟨-, -⟩ := x
      simp only [Bool.not_true, Bool.false_eq_true, if_false]
      rw [judgeChecks_ok_iff hstatus, announce_configuredServer]
      simp

end Assess

namespace Applier

/-! ### An inspection that finds nothing wrong -/

/-- The answers behind a finding of ok, and what it shows of them. -/
structure Healthy (m : Memory) (applying : Bool) (time : ℚ) (r : Reading) (server : String) (age : ℤ)
    (tunnel : List Family) (e : EgressResult) (tier : Tier) : Prop where
  config : configurationError m r.wallConfig = none
  live : r.server = some server
  named : server ≠ ""
  recent : 0 ≤ age ∧ age < handshakeFreshSec
  carries : r.addresses.bind (groupAddresses · true) = some tunnel
  answer : (checkedEgress m server (some age) applying r).1 = some e
  confirmed : egressTier m.settings.spec e = some tier
  wanted : expectedServer m ≠ "" → server = expectedServer m
  guarded : (guardFinding m time r).guard = ""
  shown : (measure m applying time r).server = server
  checks : (measure m applying time r).checks =
    (((guardFinding m time r).checks.set "peer" (peerCheck (formatTime r.started) server
      (if m.catalog.usable r.wallPeer then none else some "catalogue-stale"))).set "handshake"
      (.obj [("state", .str "pass"), ("at", .str (formatTime r.started)), ("server", .str server),
        ("age_s", .int age)])).set "egress"
      (egressCheck m.settings.spec e (some tier) (formatTime r.wallEgress) server (tunnel.map familyName))
  fields : (measure m applying time r).fields =
    [("egress_ip", nullable e.ip), ("egress_city", (e.city.map Json.str).getD .null),
     ("egress_country", (e.country.map Json.str).getD .null),
     ("egress_ips", .obj (shownIPs e (shownFamilies (some tier) e (tunnel.map familyName))))]

variable {age : Option ℤ} {e result : EgressResult} {server at_ key : String} {wall now : ℤ}
  {r : EgressReading} {fs : List Family} {known : Bool} {f : Finding} {name : CheckName} {exit : ExitConfig}

section Measure

variable {m : Memory} {applying : Bool} {r : Reading} {f : Finding}

theorem inspectionFailure_none {tier : Option Tier}
    (h : inspectionFailure m age tier e server wall = none) :
    freshAge age = true ∧ tier.isSome = true ∧ server ≠ "" ∧ (expectedServer m ≠ "" → server = expectedServer m) := by
  unfold inspectionFailure at h
  dsimp only at h
  split_ifs at h with hfresh htier hcatalog htarget
  simp only [Bool.or_eq_true, beq_iff_eq, not_or] at hcatalog
  refine ⟨by simpa using hfresh, by simpa [Option.isSome_iff_ne_none] using htier, hcatalog.2, fun hne => ?_⟩
  by_contra hserver
  exact htarget ⟨hne, hserver⟩

theorem measureEgress_ok {expected : List String} (hf : f.ok = false)
    (h : (measureEgress m applying r f age expected).ok = true) :
    ∃ e tier, (checkedEgress m f.server age applying r).1 = some e ∧ egressTier m.settings.spec e = some tier ∧
      freshAge age = true ∧ f.server ≠ "" ∧ (expectedServer m ≠ "" → f.server = expectedServer m) ∧
      (measureEgress m applying r f age expected).server = f.server ∧
      (measureEgress m applying r f age expected).checks = f.checks.set "egress"
        (egressCheck m.settings.spec e (some tier) (formatTime r.wallEgress) f.server expected) ∧
      (measureEgress m applying r f age expected).fields =
        [("egress_ip", nullable e.ip), ("egress_city", (e.city.map Json.str).getD .null),
         ("egress_country", (e.country.map Json.str).getD .null),
         ("egress_ips", .obj (shownIPs e (shownFamilies (some tier) e expected)))] := by
  unfold measureEgress at h ⊢
  rcases hcheck : checkedEgress m f.server age applying r with ⟨answer, _⟩
  cases answer with
  | none => simp [hcheck, hf] at h
  | some e =>
    simp only [hcheck, Option.isNone_iff_eq_none] at h ⊢
    obtain ⟨hfresh, htier, hserver, htarget⟩ := inspectionFailure_none h
    obtain ⟨tier, htier⟩ := Option.isSome_iff_exists.1 htier
    exact ⟨e, tier, rfl, htier, hfresh, hserver, htarget, trivial, by rw [htier], by rw [htier]⟩

theorem freshAge_eq (h : freshAge age = true) :
    ∃ a, age = some a ∧ 0 ≤ a ∧ a < handshakeFreshSec := by
  cases age with
  | none => simp [freshAge] at h
  | some a => exact ⟨a, rfl, by simpa [freshAge] using h⟩

theorem guardFinding_ok (time : ℚ) : (guardFinding m time r).ok = false := by
  unfold guardFinding measureGuards overlayGuards sidecarGuards
  split_ifs <;> rfl

theorem measurePeer_ok (hf : f.ok = false) (h : (measurePeer m applying r at_ key f).ok = true) :
    ∃ age tunnel, f.guard = "" ∧ r.addresses.bind (groupAddresses · true) = some tunnel ∧ freshAge age = true ∧
      measurePeer m applying r at_ key f = measureEgress m applying r { f with
        age
        checks := f.checks.set "handshake" (.obj [("state", passFail (freshAge age)), ("at", .str at_),
          ("server", nullable f.server), ("age_s", (age.map Json.int).getD .null)]) } age (tunnel.map familyName) := by
  unfold measurePeer at h ⊢
  cases hhand : r.handshakes with
  | none => simp [hhand, hf] at h
  | some handshakes =>
    simp only [hhand] at h ⊢
    by_cases hguard : f.guard = ""
    · cases htunnel : r.addresses.bind (groupAddresses · true) with
      | none => simp [hguard, htunnel, hf] at h
      | some tunnel =>
        simp only [hguard, htunnel] at h ⊢
        obtain ⟨e, -, -, -, hfresh, -⟩ := measureEgress_ok (by exact hf) h
        exact ⟨_, tunnel, trivial, rfl, hfresh, rfl⟩
    · simp [hguard, hf] at h

theorem measureServer_ok {keys : List String} (hf : f.ok = false)
    (h : (measureServer m applying r keys server f).ok = true) : ∃ key, keys = [key] := by
  match keys with
  | [] => simp [measureServer, hf] at h
  | [key] => exact ⟨key, rfl⟩
  | _ :: _ :: _ => simp [measureServer, hf] at h

theorem healthy_of_ok {time : ℚ} (h : (measure m applying time r).ok = true) :
    ∃ server age tunnel e tier, Healthy m applying time r server age tunnel e tier := by
  have hguards : (guardFinding m time r).ok = false := guardFinding_ok time
  cases hconfig : configurationError m r.wallConfig with
  | some x => simp [measure, hconfig] at h
  | none =>
    cases hpeers : r.peers with
    | none => simp [measure, hconfig, hpeers, hguards] at h
    | some keys =>
      cases hserver : r.server with
      | none => simp [measure, hconfig, hpeers, hserver, hguards] at h
      | some server =>
        have hmeasure : measure m applying time r =
            measureServer m applying r keys server { guardFinding m time r with peers := keys.length } := by
          simp [measure, hconfig, hpeers, hserver]
        rw [hmeasure] at h
        obtain ⟨key, rfl⟩ := measureServer_ok (by exact hguards) h
        obtain ⟨_, tunnel, hguard, htunnel, hfresh, heq⟩ := measurePeer_ok (by exact hguards) h
        have heq' := hmeasure.trans heq
        rw [measureServer, heq] at h
        obtain ⟨e, tier, hanswer, htier, -, hnamed, hwanted, hshown, hchecks, hfields⟩ :=
          measureEgress_ok (by exact hguards) h
        obtain ⟨a, rfl, hrecent⟩ := freshAge_eq hfresh
        have hreason : peerReason [key] (m.catalog.usable r.wallPeer) server (expectedServer m) =
            if m.catalog.usable r.wallPeer then none else some "catalogue-stale" := by
          have htarget : ¬ (expectedServer m ≠ "" ∧ server ≠ expectedServer m) := fun ⟨h₁, h₂⟩ => h₂ (hwanted h₁)
          have hserver' : server ≠ "" := hnamed
          unfold peerReason
          cases m.catalog.usable r.wallPeer with
          | false => rfl
          | true => simp [hserver', htarget]
        have hnullable : nullable server = .str server := if_neg hnamed
        refine ⟨server, a, tunnel, e, tier, hconfig, hserver, hnamed, hrecent, htunnel, hanswer, htier, hwanted, hguard,
          ?_, ?_, ?_⟩
        · rw [heq', hshown]
        · rw [heq', hchecks, hreason, hfresh, hnullable]
          rfl
        · rw [heq', hfields]

end Measure

/-! ### The addresses of a confirmed egress -/

theorem mullvadFamilies_tier
    (h : mullvadFamilies r fs result = some e) : e.tier = result.tier := by
  induction fs generalizing result with
  | nil =>
    cases h
    rfl
  | cons family rest ih =>
    simp only [mullvadFamilies, Option.bind_eq_bind, Option.bind_eq_some_iff] at h
    obtain ⟨_, -, h⟩ := h
    split_ifs at h with hexit hv4
    · simpa using ih h
    · simpa using ih h
    · cases h
      rfl
    · cases h
      rfl

theorem mullvadFamilies_ips
    (h : mullvadFamilies r fs result = some e) (hconfirmed : e.exitConfirmed = true) :
    e.ips.map Prod.fst = result.ips.map Prod.fst ++ fs.map familyName := by
  induction fs generalizing result with
  | nil =>
    cases h
    simp
  | cons family rest ih =>
    simp only [mullvadFamilies, Option.bind_eq_bind, Option.bind_eq_some_iff] at h
    obtain ⟨_, -, h⟩ := h
    split_ifs at h with hexit hv4
    · simpa using ih h
    · simpa using ih h
    · cases h
      cases hconfirmed
    · cases h
      cases hconfirmed

theorem tunnelFamilies_ips (h : tunnelFamilies r age fs known result = some (true, e)) :
    e.ips.map Prod.fst = result.ips.map Prod.fst ++ fs.map familyName := by
  induction fs generalizing known result with
  | nil =>
    simp only [tunnelFamilies, Option.some.injEq, Prod.mk.injEq] at h
    simp [h.2]
  | cons family rest ih =>
    unfold tunnelFamilies at h
    split at h
    · dsimp only at h
      split_ifs at h with hsame
      · cases h
      · split at h
        · cases h
        · split_ifs at h with hverified
          · simpa using ih h
          · cases h
    · cases h

theorem tunnelFamilies_exitConfirmed {verified : Bool} (h : tunnelFamilies r age fs known result = some (verified, e)) :
    e.exitConfirmed = result.exitConfirmed := by
  induction fs generalizing known result with
  | nil =>
    simp only [tunnelFamilies, Option.some.injEq, Prod.mk.injEq] at h
    rw [h.2]
  | cons family rest ih =>
    unfold tunnelFamilies at h
    split at h
    · dsimp only at h
      split_ifs at h with hsame
      · cases h
        rfl
      · split at h
        · cases h
        · split_ifs at h with hverified
          · simpa using ih h
          · cases h
            rfl
    · cases h

theorem nordRounds_ips {rounds : List (Option Insights × Bool)}
    (h : nordRounds entries rounds = some e) : e.ips.map Prod.fst = ["4"] := by
  fun_induction nordRounds entries rounds with
  | case1 => cases h
  | case2 => cases h
  | case3 i another rest hlast =>
    cases h
    rfl
  | case4 i another rest hlast ih => exact ih h

def ipv4Only (method : EgressMethod) : Prop := method = .nord ∨ method = .pia

theorem egressFor_ips {spec : Provider} {method : EgressMethod} {reading : EgressReading}
    {tier : Tier}
    (h : egressFor method reading known entries age = some e)
    (htier : egressTier spec e = some tier) (htunnel : reading.tunnel = some tunnel) :
    (ipv4Only method → e.ips.map Prod.fst = ["4"]) ∧
      (¬ ipv4Only method → e.ips.map Prod.fst = tunnel.map familyName) := by
  cases method with
  | mullvad =>
    simp only [egressFor, mullvadEgress, htunnel] at h
    have hnone : e.tier = none := mullvadFamilies_tier h
    have hconfirmed : e.exitConfirmed = true := by
      by_contra hne
      simp [egressTier, hne, hnone] at htier
    exact ⟨by simp [ipv4Only], fun _ => by simpa using mullvadFamilies_ips h hconfirmed⟩
  | nord =>
    simp only [egressFor, nordEgressFor, htunnel] at h
    exact ⟨fun _ => nordRounds_ips h, by simp [ipv4Only]⟩
  | pia =>
    simp only [egressFor, piaEgress, htunnel, Option.bind_eq_bind, Option.bind_some, Option.bind_eq_some_iff] at h
    obtain ⟨x, -, h⟩ := h
    cases h
    exact ⟨fun _ => rfl, by simp [ipv4Only]⟩
  | unmeasurable =>
    simp only [egressFor, unmeasurableEgress, htunnel, Option.bind_eq_bind, Option.bind_some,
      Option.bind_eq_some_iff] at h
    obtain ⟨_, -, h⟩ := h
    cases h
    simp [egressTier] at htier
  | tunnel =>
    simp only [egressFor, tunnelEgress, htunnel, Option.bind_eq_bind, Option.bind_some, Option.bind_eq_some_iff] at h
    obtain ⟨⟨verified, _⟩, hfamilies, h⟩ := h
    cases h
    cases verified with
    | true =>
      exact ⟨by simp [ipv4Only], fun _ => by simpa using tunnelFamilies_ips hfamilies⟩
    | false =>
      have hconf := tunnelFamilies_exitConfirmed hfamilies
      simp [egressTier, hconf] at htier

theorem groupAddresses_eq {addresses : List Addr} (h : groupAddresses addresses true = some tunnel) :
    tunnel = if .v6 ∈ addresses.map (·.fam) then [.v4, .v6] else [.v4] := by
  unfold groupAddresses at h
  generalize addresses.map (·.fam) = fs at h ⊢
  split_ifs at h with hok
  cases h
  have h4 : fs.contains .v4 = true := List.contains_iff_mem.2 (hok.2 rfl)
  by_cases h6 : .v6 ∈ fs
  · have h6' : fs.contains .v6 = true := List.contains_iff_mem.2 h6
    simp only [families, List.filter_cons, h4, h6', if_true, List.filter_nil, h6]
  · have h6' : fs.contains .v6 = false := by simpa using h6
    simp only [families, List.filter_cons, h4, h6', if_true, if_false, List.filter_nil, h6, Bool.false_eq_true]

theorem checkedEgress_some {m : Memory} {applying : Bool} {r : Reading} (h : (checkedEgress m server age applying r).1 = some e) :
    ∃ reading, (reading = r.egress ∨ reading = r.again) ∧
      egressFor (egressMethod m.settings.spec m.settings.kind) reading
        (server ≠ "" && m.catalog.names.contains server) (m.catalog.entries server) age = some e := by
  unfold checkedEgress at h
  dsimp only at h
  split at h
  · rename_i result hfirst
    cases h
    exact ⟨r.egress, .inl rfl, hfirst⟩
  · split_ifs at h
    exact ⟨r.again, .inr rfl, h⟩

/-! ### The checks of such a finding -/

def GuardPassed (raw : Members) (at_ : String) (name : CheckName) : Prop :=
  ∃ check : Members, raw.get name.text = .obj check ∧ check.get "state" = .str "pass" ∧
    check.get "at" = .str at_ ∧ (name = .trafficProtection → check.get "from" = .str "routing")

theorem guardPassed_overlay {safe ready fallback netbird : Bool} {more : Members}
    (h : (overlayGuards f at_ safe ready fallback netbird more).guard = "")
    (hname : name = .routing ∨ name = .netbird ∨ name = .trafficProtection) :
    GuardPassed (overlayGuards f at_ safe ready fallback netbird more).checks at_ name := by
  have hne : routingFailed ≠ "" ∧ netbirdModeFailed ≠ "" := by decide +kernel
  obtain ⟨rfl, rfl⟩ : ready = true ∧ netbird = true := by
    unfold overlayGuards at h
    cases ready <;> cases netbird <;> simp_all
  rcases hname with rfl | rfl | rfl <;>
    refine ⟨_, by simp [Members.get, CheckName.text]; rfl, ?_⟩ <;>
    simp [passFail]

theorem guardPassed_sidecar {g : GuardReading} (h : (sidecarGuards f at_ g).guard = "") (hname : name = .routing ∨ name = .trafficProtection) :
    GuardPassed (sidecarGuards f at_ g).checks at_ name := by
  have hne : routingFailed ≠ "" ∧ sidecarFirewallFailed ≠ "" := by decide +kernel
  obtain ⟨hprot, hfire⟩ : g.protected_ = true ∧ g.firewall.getD false = true := by
    unfold sidecarGuards at h
    cases hp : g.protected_ <;> cases hf : g.firewall.getD false <;> simp_all
  rcases hname with rfl | rfl <;>
    refine ⟨_, by simp [Members.get, CheckName.text]; rfl, ?_⟩ <;>
    simp [passFail, hprot, hfire]

theorem guardPassed_of_guarded {m : Memory} {time : ℚ} {r : Reading} (h : (guardFinding m time r).guard = "") (hmem : name ∈ m.settings.exit.required)
    (hname : name = .routing ∨ name = .netbird ∨ name = .trafficProtection) :
    GuardPassed (guardFinding m time r).checks (formatTime r.started) name := by
  change name ∈ requiredChecks m.settings.kind m.settings.backend at hmem
  unfold guardFinding at h ⊢
  cases hkind : m.settings.kind with
  | overlay =>
    have hside : m.settings.nativeSidecar = false := by simp [ExitSettings.nativeSidecar, hkind]
    simp only [hkind] at h ⊢
    by_cases hswitch : m.settings.backend = .gluetun ∧ m.switchDeadline.isSome = true
    · simp only [measureGuards, hswitch] at h ⊢
      exact guardPassed_overlay h hname
    · simp only [measureGuards, hswitch, hside] at h ⊢
      exact guardPassed_overlay h hname
  | sidecar =>
    rw [hkind] at hmem
    cases hbackend : m.settings.backend with
    | native =>
      have hside : m.settings.nativeSidecar = true := by simp [ExitSettings.nativeSidecar, hkind, hbackend]
      simp only [hside, or_true, if_true, measureGuards, hbackend, reduceCtorEq, false_and, if_false] at h ⊢
      refine guardPassed_sidecar h ?_
      rw [hbackend] at hmem
      rcases hname with rfl | rfl | rfl
      · exact .inl rfl
      · exact absurd hmem (by decide)
      · exact .inr rfl
    | gluetun =>
      rw [hbackend] at hmem
      rcases hname with rfl | rfl | rfl <;> exact absurd hmem (by decide)

theorem readCheck_of_passed {server : Json} {check : Members}
    (hget : raw.get name.text = .obj check) (hstate : check.get "state" = .str "pass")
    (hfresh : fresh (check.get "at") now = true) (hshape : validShape exit name check .pass = true)
    (hbound : name ∈ serverBound → Json.same (check.get "server") server = true ∧ server.isNull = false)
    (howner : name = .ownerRecord → leaseLapsed check now = false) :
    readCheck exit server raw now name = some (.pass, none) := by
  have hread : readState exit raw name = some (check, .pass) := by
    unfold readState
    rw [hget]
    simp [hstate, hshape, CheckState.ofText, CheckState.text]
  rw [readCheck, hread, Option.map_some]
  have hlease : ¬ (name = .ownerRecord ∧ leaseLapsed check now = true) := fun h => by simp [howner h.1] at h
  simpa [judgeCheck, hfresh, hlease] using hbound

theorem readChecks_clear (hraw : record.get "checks" = .obj raw)
    (hpass : ∀ name ∈ exit.required, readCheck exit (record.get "server") raw now name = some (.pass, none))
    (hfrom : .trafficProtection ∈ exit.required →
      (((raw.get "traffic_protection").object.getD []).get "from").isStr "routing" = true)
    (hips : egressIPsConsistent record = true) :
    ∃ display found, readChecks exit record now = .ok (display, found) ∧ found.Clear := by
  obtain ⟨⟨display, found⟩, hok⟩ := readRequired_ok (fixedChecks exit.kind exit.backend) {}
    fun name hname => by rw [hpass name hname, Option.isSome_some]
  have hloop := readAs_of_readRequired hok
  have hclear : found.Clear := by
    intro p
    refine List.eq_nil_iff_forall_not_mem.2 fun name hname => ?_
    rcases (hloop.issues p name).1 hname with hinit | ⟨hmem, _, hstate⟩
    · cases p <;> cases hinit
    · simp [hpass name hmem] at hstate
  refine ⟨display, found, readChecks_eq_ok_iff.2 ⟨raw, hraw, hok, ?_, fun _ => hips⟩, hclear⟩
  rintro ⟨hmem, -, hbad | hbad⟩
  · simp [hfrom hmem] at hbad
  · by_cases hroute : CheckName.routing ∈ exit.required
    · simp [hloop.shown, hroute, hpass _ hroute] at hbad
    · rw [hloop.shown, if_neg hroute] at hbad
      generalize exit.kind = k at hbad
      generalize exit.backend = b at hbad
      revert hbad
      cases k <;> cases b <;> decide

theorem of_readChecks_clear {display : Checks}
    (h : readChecks exit record now = .ok (display, found)) (hclear : found.Clear) :
    ∃ raw : Members, record.get "checks" = .obj raw ∧ egressIPsConsistent record = true ∧
      ∀ name ∈ exit.required, readCheck exit (record.get "server") raw now name = some (.pass, none) := by
  obtain ⟨raw, hraw, hrequired, -, hips⟩ := readChecks_eq_ok_iff.1 h
  have hloop := readAs_of_readRequired hrequired
  have hpass := hloop.passes hclear
  have hmem := egress_mem_required exit
  exact ⟨raw, hraw, hips (by rw [hloop.shown, if_pos hmem, hpass _ hmem, Option.map_some]), hpass⟩

/-! ### The published record -/

theorem get_foldl_set {l o : Members} (h : key ∉ l.map Prod.fst) :
    (l.foldl (fun (o : Members) x => o.set x.1 x.2) o).get key = o.get key := by
  induction l generalizing o with
  | nil => rfl
  | cons x rest ih =>
    simp only [List.map_cons, List.mem_cons, not_or] at h
    rw [List.foldl_cons, ih h.2, Members.get_set_of_ne _ h.1]

/-- The members of a record that only people read. -/
def extraMembers : List String := ["server_list_update", "repair", "routing_activity"]

theorem addedMembers_eq (m : Memory) (p : Publishing) (status : RecordStatus) (fields : Members) :
    ∃ more : Members, addedMembers m p status fields = fields ++ more ∧ ∀ key ∈ more.map Prod.fst, key ∈ extraMembers := by
  refine ⟨_, by unfold addedMembers; rw [List.append_assoc, List.append_assoc], ?_⟩
  intro key hkey
  simp only [List.map_append, List.mem_append] at hkey
  rcases hkey with hkey | hkey | hkey
  · unfold publishDefaults at hkey
    split_ifs at hkey <;> simp_all [extraMembers]
  · split at hkey <;> simp_all [extraMembers]
  · split at hkey <;> simp_all [extraMembers]

section Record

variable {m : Memory} {p : Publishing} {status : RecordStatus} {message server : String} {checks fields : Members}

theorem statusRecord_get (hfields : key ∉ fields.map Prod.fst) (hextra : key ∉ extraMembers)
    {v : Json} (hcommon : List.lookup key (commonMembers m p status message server checks) = some v) :
    (statusRecord m p status message server checks fields).get key = v := by
  obtain ⟨_, hadded, hmore⟩ := addedMembers_eq m p status fields
  rw [statusRecord, hadded, get_foldl_set, Members.get, List.lookup_append, hcommon]
  · rfl
  · rw [List.map_append, List.mem_append, not_or]
    exact ⟨hfields, fun h => hextra (hmore key h)⟩

theorem statusRecord_egressIPs {ip city country ips : Json}
    (hfields : fields = [("egress_ip", ip), ("egress_city", city), ("egress_country", country), ("egress_ips", ips)]) :
    (statusRecord m p status message server checks fields).get "egress_ips" = ips := by
  obtain ⟨_, hadded, hmore⟩ := addedMembers_eq m p status fields
  rw [statusRecord, hadded, List.foldl_append, get_foldl_set fun h => absurd (hmore _ h) (by decide), hfields]
  simp

end Record

/-- What the applier holds of desired.json is what the file says: the configured server
comes first, and a request that is not the target stands refused. -/
structure Resolved (m : Memory) (desired : Json) : Prop where
  configured : m.settings.server ≠ "" → m.request = configuredRequest m ∧ m.target = some (configuredSelection m)
  requested : m.settings.server = "" → m.request = desiredRequest desired m.settings.provider
  selected : m.settings.server = "" → ∀ request, m.request = some request →
    m.target = some { server := request.server, source := .panel, request := some request } ∨ requestRejected m = true

/-- The outcomes and selections of an attempt that a reader does not take for ok. -/
structure Settled (m : Memory) (server : String) : Prop where
  outcome : m.attempt.outcome ≠ some .rejected ∧ m.attempt.outcome ≠ some .mutationFailed
  selected : m.settings.server = "" → m.request = none →
    (∃ s ∈ [Source.restore, .reconverge, .retry, .operatorRetry, .failover], m.attempt.source = some s) →
    m.attempt.target = server

section Target

variable {u : Unicode} {m : Memory} {p : Publishing} {desired : Json} {record : Members} {server : String}

theorem emitStatus_ok {emitting : Bool} (h : (emitStatus m f emitting).1 = .ok) :
    f.ok = true ∧ requestRejected m = false := by
  unfold emitStatus at h
  dsimp only at h
  split_ifs at h with hrej hheld hfailed happly hok
  simp_all

theorem refusedOutcome_selectionRecord (h : requestRejected m = false) :
    refusedOutcome (selectionRecord m p) = false ↔
      m.attempt.outcome ≠ some .rejected ∧ m.attempt.outcome ≠ some .mutationFailed := by
  unfold refusedOutcome selectionRecord
  rw [if_neg (by simp [h])]
  cases ho : m.attempt.outcome with
  | none => simp [Json.isStr, Json.string]
  | some o => cases o <;> simp [Outcome.text]

theorem Source.text_injective : Function.Injective Source.text := by
  intro a b h
  cases a <;> cases b <;> first | rfl | simp [Source.text] at h

theorem desiredRequest_server {value : Json} {provider : String} {request : Request}
    (h : desiredRequest value provider = some request) :
    ∃ members : Members, value = .obj members ∧ members.get "server" = .str request.server ∧
      PlainName request.server := by
  unfold desiredRequest at h
  simp only [Option.bind_eq_bind, Option.bind_eq_some_iff] at h
  obtain ⟨members, hobj, h⟩ := h
  suffices hserver : (members.get "server").string = some request.server ∧
      validServerName (members.get "server") provider = true by
    have hget := Json.eq_str_of_string hserver.1
    exact ⟨members, Json.eq_obj_of_object hobj, hget, plainName_of_validServerName (hget ▸ hserver.2)⟩
  split_ifs at h with honly hname htime hid
  · simp only [Option.bind_eq_some_iff] at h
    obtain ⟨_, hserver, _, -, h⟩ := h
    cases h
    exact ⟨hserver, by simpa using hname⟩
  · simp only [Option.bind_eq_some_iff] at h
    obtain ⟨_, hserver, _, -, _, -, h⟩ := h
    split_ifs at h
    cases h
    exact ⟨hserver, by simpa using hname⟩

theorem plainName_of_configurationError (hset : m.settings.server ≠ "")
    (h : configurationError m wall = none) : PlainName m.settings.server := by
  unfold configurationError at h
  rw [if_neg hset] at h
  split_ifs at h with hnone
  cases hrequest : configuredRequest m with
  | none => simp [hrequest] at hnone
  | some request =>
    obtain ⟨_, hobj, hserver, _⟩ := desiredRequest_server hrequest
    cases hobj
    obtain hname : m.settings.server = request.server := Json.str.inj hserver
    rwa [hname]

/-- What a record shows a reader of the selection. -/
structure Shows (m : Memory) (p : Publishing) (record : Members) (server : String) : Prop where
  server : record.get "server" = .str server
  requested : record.get "requested_server" = (m.request.map fun r => Json.str r.server).getD .null
  configured : record.get "configured_server" = nullable (truncateChars m.settings.server serverReportChars)
  requestId : record.get "request_id" = (m.request.map fun r => Json.str r.token).getD .null
  selection : record.get "selection" = .obj (selectionRecord m p)

theorem truncateChars_plain {s : String} (h : PlainName s) : truncateChars s serverReportChars = s := by
  rw [truncateChars, serverReportChars, List.take_of_length_le h.length, String.ofList_toList]

theorem configuredServer_shown (hshow : Shows m p record server)
    (hconfig : configurationError m wall = none) :
    configuredServer u (.obj record) = if m.settings.server = "" then none else some m.settings.server := by
  have hget := hshow.configured
  by_cases hset : m.settings.server = ""
  · rw [hset, truncateChars] at hget
    rw [if_pos hset]
    simp [configuredServer, hget, nullable, Json.string]
  · have hplain := plainName_of_configurationError hset hconfig
    rw [truncateChars_plain hplain, nullable, if_neg hset] at hget
    rw [if_neg hset]
    exact configuredServer_plain hplain hget

/-- The reader's request, if it has one, is acknowledged, and its target is the live
server unless the attempt's own selection is of another. -/
theorem target_shown (hshow : Shows m p record server) (hnamed : server ≠ "") {wall now : ℤ}
    (hconfig : configurationError m wall = none) (hwanted : expectedServer m ≠ "" → server = expectedServer m)
    (hresolved : Resolved m desired) (hrejected : requestRejected m = false) :
    unacknowledged record (targetForPanel u (.obj record) desired m.settings.provider) now = none ∧
      (targetDisagreement record (targetForPanel u (.obj record) desired m.settings.provider) (selectionRecord m p)
          ((configuredServer u (.obj record)).getD "") = none ↔
        (m.settings.server = "" → m.request = none →
          (∃ s ∈ [Source.restore, .reconverge, .retry, .operatorRetry, .failover], m.attempt.source = some s) →
          m.attempt.target = server)) := by
  have hconf := configuredServer_shown (u := u) hshow hconfig
  by_cases hset : m.settings.server = ""
  · rw [if_pos hset] at hconf
    have hdesired := hresolved.requested hset
    cases hrequest : m.request with
    | none =>
      have htarget : targetForPanel u (.obj record) desired m.settings.provider = {} := by
        simp [targetForPanel, hconf, ← hdesired, hrequest]
      rw [htarget, hconf]
      refine ⟨rfl, ?_⟩
      have hsource : (selectionRecord m p).get "source" = .str ((m.attempt.source.map Source.text).getD "seed") := by
        simp [selectionRecord, hrejected]
      have hselected : (selectionRecord m p).get "target" = nullable m.attempt.target := by
        simp [selectionRecord, hrejected]
      have hsame : Json.same (.str server) (nullable m.attempt.target) = true ↔ m.attempt.target = server := by
        unfold nullable
        split_ifs with hempty
        · simp [Json.same, hempty, hnamed.symm]
        · rw [Json.same, beq_iff_eq, eq_comm]
      simp only [targetDisagreement, hshow.server, hsource, hselected, Option.getD_none, reduceCtorEq, false_or,
        ne_eq, not_true_eq_false, if_false, hsame, Json.isStr_str]
      have hlisted : ([Source.restore, .reconverge, .retry, .operatorRetry, .failover].any fun s =>
          (m.attempt.source.map Source.text).getD "seed" == s.text) = true ↔
          ∃ s ∈ [Source.restore, .reconverge, .retry, .operatorRetry, .failover], m.attempt.source = some s := by
        cases m.attempt.source with
        | none => decide
        | some source => simp [Source.text_injective.eq_iff]
      rw [← hlisted]
      split_ifs with hany htarget <;> simp [*]
    | some request =>
      have htarget : targetForPanel u (.obj record) desired m.settings.provider =
          { server := request.server, source := some .panel, request := some request } := by
        simp [targetForPanel, hconf, ← hdesired, hrequest]
      obtain ⟨-, -, -, hplain⟩ := desiredRequest_server (hdesired.symm.trans hrequest)
      have hserver : server = request.server := by
        rcases hresolved.selected hset request hrequest with htarget | hrej
        · have hexpected : expectedServer m = request.server := by rw [expectedServer, htarget]
          rw [← hexpected]
          exact hwanted (hexpected ▸ hplain.ne_empty)
        · simp [hrejected] at hrej
      have hid := hshow.requestId
      have hreq := hshow.requested
      rw [hrequest] at hid hreq
      rw [htarget, hconf]
      simp [unacknowledged, targetDisagreement, hid, hreq, hshow.server, hserver]
  · have hplain := plainName_of_configurationError hset hconfig
    have hserver : server = m.settings.server := by
      have hexpected : expectedServer m = m.settings.server := by
        rw [expectedServer, (hresolved.configured hset).2]
        exact truncateChars_plain hplain
      rw [← hexpected]
      exact hwanted (hexpected ▸ hset)
    simp [targetForPanel, hconf, unacknowledged, targetDisagreement, hshow.server, hserver, hset]

end Target

end Applier

end Molebridge
