import Molebridge.Spec.Providers
import Molebridge.Spec.Timestamp

/-! internal/verdict, with what it reads through internal/state: the one judgment
of an exit's status record (`assess`), for every reader. -/

namespace Molebridge

/-! ### The vocabularies -/

inductive CheckName where
  | routing
  | netbird
  | ownerRecord
  | peer
  | handshake
  | egress
  | trafficProtection
  | appAttachment
deriving DecidableEq

def CheckName.text : CheckName → String
  | routing => "routing"
  | netbird => "netbird"
  | ownerRecord => "owner_record"
  | peer => "peer"
  | handshake => "handshake"
  | egress => "egress"
  | trafficProtection => "traffic_protection"
  | appAttachment => "app_attachment"

/-- The states of a check; `legacy` is only displayed. -/
inductive CheckState where
  | pass
  | fail
  | unknown
  | na
  | notChecked
  | legacy
deriving DecidableEq

def CheckState.text : CheckState → String
  | pass => "pass"
  | fail => "fail"
  | unknown => "unknown"
  | na => "n/a"
  | notChecked => "not-checked"
  | legacy => "legacy"

def CheckState.ofText (s : String) : Option CheckState :=
  [CheckState.pass, fail, unknown, na, notChecked].find? (·.text == s)

/-- What a selection comes from. -/
inductive Source where
  | configured
  | panel
  | restore
  | reconverge
  | retry
  | operatorRetry
  | seed
  | failover
deriving DecidableEq

def Source.text : Source → String
  | configured => "configured"
  | panel => "panel"
  | restore => "restore"
  | reconverge => "reconverge"
  | retry => "retry"
  | operatorRetry => "operator-retry"
  | seed => "seed"
  | failover => "failover"

def serverBound : List CheckName := [.peer, .handshake, .egress]

def ipFamilies : List String := ["4", "6"]

def evidenceMaxAge : ℤ := 150

def handshakeFreshSec : ℤ := 180

/-- The checks that must pass for this kind and backend. -/
def requiredChecks : Kind → Backend → List CheckName
  | .sidecar, .native => [.routing, .trafficProtection, .peer, .handshake, .egress]
  | .sidecar, .gluetun => [.peer, .handshake, .egress]
  | .overlay, .native => [.routing, .netbird, .ownerRecord, .peer, .handshake, .egress, .trafficProtection]
  | .overlay, .gluetun => [.routing, .netbird, .peer, .handshake, .egress, .trafficProtection]

abbrev Checks := List (CheckName × CheckState)

def Checks.set (c : Checks) (name : CheckName) (state : CheckState) : Checks :=
  if c.any (·.1 == name) then c.map fun x => if x.1 = name then (name, state) else x else c ++ [(name, state)]

/-- The checks that are n/a or not checked for this kind and backend. -/
def fixedChecks : Kind → Backend → Checks
  | .sidecar, .native => [(.netbird, .na), (.ownerRecord, .na), (.appAttachment, .notChecked)]
  | .sidecar, .gluetun => [(.routing, .na), (.netbird, .na), (.ownerRecord, .na),
      (.trafficProtection, .notChecked), (.appAttachment, .notChecked)]
  | .overlay, .native => [(.appAttachment, .na)]
  | .overlay, .gluetun => [(.appAttachment, .na), (.ownerRecord, .na)]

/-- The reader's own configuration of one exit. -/
structure ExitConfig where
  provider : String
  kind : Kind

namespace ExitConfig

def backend (c : ExitConfig) : Backend := backendOf c.provider

def gluetunSidecar (c : ExitConfig) : Bool := c.kind == .sidecar && c.backend == .gluetun

def required (c : ExitConfig) : List CheckName := requiredChecks c.kind c.backend

end ExitConfig

/-! ### The panel's request and the configured server (internal/state) -/

/-- Which characters can be printed; of the ASCII ones, those from the space to the
tilde. -/
structure Unicode where
  isPrint : Char → Bool
  ascii : ∀ c : Char, c.toNat < 128 → isPrint c = decide (32 ≤ c.toNat ∧ c.toNat < 127)

/-- Request: the id is empty for the old two-field request. -/
structure Request where
  server : String
  requestedAt : String
  requestId : String := ""
deriving DecidableEq

def validRequestId (s : String) : Bool :=
  s.toList.length == 32 && s.toList.all fun c => isDigit c || ('a' ≤ c && c ≤ 'f')

def desiredRequest (value : Json) (provider : String) : Option Request := do
  let m ← value.object
  if !m.all (fun e => ["server", "requested_at", "request_id"].contains e.1) then none
  else if !validServerName (m.get "server") provider then none
  else if (lenientTime (m.get "requested_at")).isNone then none
  else
    let server ← (m.get "server").string
    let requestedAt ← (m.get "requested_at").string
    if (m.get "request_id").isNull then return { server, requestedAt }
    else
      let id ← (m.get "request_id").string
      if validRequestId id then return { server, requestedAt, requestId := id } else none

/-- RequestToken: the id, or server@requested_at. -/
def Request.token (r : Request) : String :=
  if r.requestId ≠ "" then r.requestId else r.server ++ "@" ++ r.requestedAt

/-- A character that cannot be printed, escaped with at least two hexadecimal digits. -/
def escapeChar (u : Unicode) (c : Char) : List Char :=
  if u.isPrint c then [c]
  else ['\\', 'x'] ++ (if c.toNat < 16 then ['0'] else []) ++ Nat.toDigits 16 c.toNat

/-- ConfiguredServer: the SERVER setting the record reports, shown escaped, at most
256 characters of it. -/
def configuredServer (u : Unicode) (result : Json) : Option String := do
  let m ← result.object
  let value ← (m.get "configured_server").string
  if value = "" then none
  else return String.ofList (((value.toList.take 256).flatMap (escapeChar u)).take 256)

/-- The server the reader expects, and why; the server is empty for none. -/
structure Target where
  server : String := ""
  source : Option Source := none
  request : Option Request := none

def targetForPanel (u : Unicode) (result desired : Json) (provider : String) : Target :=
  match configuredServer u result with
  | some configured => { server := configured, source := some .configured }
  | none => match desiredRequest desired provider with
    | some request => { server := request.server, source := some .panel, request := some request }
    | none => {}

/-! ### The verdict -/

inductive VerdictState where
  | ok
  | unknown
  | applying
  | failed
deriving DecidableEq

structure Verdict where
  state : VerdictState
  label : String
  reasons : List String := []
  message : Option String := none
  tier : String := ""
  checks : Checks := []
  schema : ℕ := 0
  kind : Kind
  configuredServer : String := ""
  nextAction : String := ""
  nextActionAt : String := ""

def fresh (value : Json) (now : ℤ) : Bool := freshFor value evidenceMaxAge now

/-- Why the panel's request is not acknowledged by the record: pending while it is
fresh, then unknown. -/
def unacknowledged (record : Members) (target : Target) (now : ℤ) : Option (VerdictState × String × String) :=
  match target.source, target.request with
  | some .panel, some request =>
    if (record.get "request_id").isStr request.token then none
    else if fresh (.str request.requestedAt) now then some (.applying, "switching", "request-pending")
    else some (.unknown, "request not acknowledged", "request-not-acknowledged")
  | _, _ => none

/-- Why the record's server is not the reader's target. -/
def targetDisagreement (record : Members) (target : Target) (selection : Members) (configured : String) :
    Option String :=
  let server := record.get "server"
  if target.source = some .configured ∨ configured ≠ "" then
    let expected := if target.source = some .configured then target.server else configured
    if server.isStr expected then none else some "not-configured-server"
  else if target.source = some .panel then
    if server.isStr target.server && (record.get "requested_server").isStr target.server then none
    else some "not-requested-server"
  else if target.server ≠ "" then
    if server.isStr target.server then none else some "not-target-server"
  else if [Source.restore, .reconverge, .retry, .operatorRetry, .failover].any
      fun s => (selection.get "source").isStr s.text then
    if Json.same server (selection.get "target") then none else some "not-target-server"
  else none

/-- With an expires_at the owner's check is good only until then. -/
def leaseLapsed (check : Members) (now : ℤ) : Bool :=
  check.has "expires_at" && (parseTime (check.get "expires_at")).elim true fun t => t * second ≤ now

/-- An age in seconds, or none given; a pass needs a fresh one. -/
def handshakeShape (check : Members) (state : CheckState) : Bool :=
  let age := check.get "age_s"
  (age.isNull || age.isInt.elim false (0 ≤ ·)) &&
    (state != .pass || age.isInt.elim false (· < handshakeFreshSec))

/-- The texts of a list of distinct families. -/
def expectedFamilies (check : Members) : Option (List String) :=
  match check.get "expected_families" with
  | .arr items => (items.mapM Json.string).filter fun fs =>
      !fs.isEmpty && fs.all (ipFamilies.contains ·) && fs.Nodup
  | _ => none

/-- The tunnel tier counts only where the provider has no stronger check, and never
for a gluetun sidecar. -/
def tierShape (exit : ExitConfig) (check : Members) : Bool :=
  match (check.get "tier").string.bind Tier.ofText with
  | none => false
  | some .provider => true
  | some .tunnel => !exit.gluetunSidecar &&
      (lookupProvider exit.provider).elim false fun p => p.egressTier == .tunnel

def egressShape (exit : ExitConfig) (check : Members) (state : CheckState) : Bool :=
  match (check.get "families").object, expectedFamilies check with
  | some families, some expected =>
    families.keys.all (ipFamilies.contains ·) &&
      families.keys.all (fun f => ((families.get f).string.bind CheckState.ofText).isSome) &&
      (state != .pass || (expected.all (fun f => (families.get f).isStr "pass") && tierShape exit check))
  | _, _ => false

def validShape (exit : ExitConfig) (name : CheckName) (check : Members) (state : CheckState) : Bool :=
  match name with
  | .handshake => handshakeShape check state
  | .egress => egressShape exit check state
  | _ => true

inductive CheckProblem where
  | failed
  | expired
  | unmeasured
deriving DecidableEq

/-- A required check and its state, unless the record is malformed: a required check
cannot be waived. -/
def readState (exit : ExitConfig) (raw : Members) (name : CheckName) : Option (Members × CheckState) := do
  let check ← (raw.get name.text).object
  let text ← (check.get "state").string
  let state ← CheckState.ofText text
  if state = .na ∨ state = .notChecked ∨ (state ≠ .unknown ∧ validShape exit name check state = false) then none
  else return (check, state)

/-- What a check's state and evidence come to: its display state and what is wrong. -/
def judgeCheck (server : Json) (now : ℤ) (name : CheckName) (check : Members) (state : CheckState) :
    CheckState × Option CheckProblem :=
  if state = .unknown then (.unknown, some .unmeasured)
  else if !fresh (check.get "at") now then (.unknown, some .expired)
  else if serverBound.contains name && (!Json.same (check.get "server") server || server.isNull) && state == .pass then
    -- a pass for another selection never counts
    (.unknown, some .expired)
  else if state = .fail ∨ (name = .ownerRecord ∧ leaseLapsed check now) then (.fail, some .failed)
  else (.pass, none)

def readCheck (exit : ExitConfig) (server : Json) (raw : Members) (now : ℤ) (name : CheckName) :
    Option (CheckState × Option CheckProblem) :=
  (readState exit raw name).map fun x => judgeCheck server now name x.1 x.2

structure Issues where
  failed : List CheckName := []
  expired : List CheckName := []
  unmeasured : List CheckName := []

def Issues.add (i : Issues) (name : CheckName) : Option CheckProblem → Issues
  | none => i
  | some .failed => { i with failed := i.failed ++ [name] }
  | some .expired => { i with expired := i.expired ++ [name] }
  | some .unmeasured => { i with unmeasured := i.unmeasured ++ [name] }

/-- The loop over the required checks; an error carries what was read before it. -/
def readRequired (exit : ExitConfig) (server : Json) (raw : Members) (now : ℤ) :
    List CheckName → Checks → Issues → Except Checks (Checks × Issues)
  | [], display, found => .ok (display, found)
  | name :: rest, display, found =>
    match readCheck exit server raw now name with
    | none => .error display
    | some (state, problem) => readRequired exit server raw now rest (display.set name state) (found.add name problem)

/-- The record's egress_ips covers exactly the passing families of its egress check. -/
def egressIPsConsistent (record : Members) : Bool :=
  match ((record.get "checks").object.getD []).get "egress" |>.object, (record.get "egress_ips").object with
  | some check, some ips =>
    let families := (check.get "families").object.getD []
    let passing := families.keys.filter fun f => (families.get f).isStr "pass"
    passing.all (ips.has ·) && ips.keys.length == passing.length
  | _, _ => false

def readChecks (exit : ExitConfig) (record : Members) (now : ℤ) : Except Checks (Checks × Issues) := do
  let display := fixedChecks exit.kind exit.backend
  match (record.get "checks").object with
  | none => .error display
  | some raw =>
    let (display, found) ← readRequired exit (record.get "server") raw now exit.required display {}
    let protection := ((raw.get "traffic_protection").object.getD []).get "from"
    if exit.required.contains .trafficProtection && display.lookup .trafficProtection == some .pass &&
        (!protection.isStr "routing" || display.lookup .routing == some .fail) then .error display
    else if display.lookup .egress == some .pass && !egressIPsConsistent record then .error display
    else return (display, found)

/-- Rules 8 to 10: what the problems, the status and the target make of a record whose
checks could be read. -/
def judgeChecks (exit : ExitConfig) (record : Members) (target : Target) (selection : Members) (base : Verdict)
    (checks : Checks) (found : Issues) : Verdict :=
  let status := record.get "status"
  let message := (record.get "message").string
  let rejected := (selection.get "outcome").isStr "rejected" || (selection.get "outcome").isStr "mutation-failed"
  let egress := (((record.get "checks").object.getD []).get "egress").object.getD []
  if exit.gluetunSidecar && !rejected && found.failed == [.egress] &&
      (egress.get "reason").isStr "host-address-not-measurable" then
    { base with
      state := .unknown, label := "switched, egress unverified", reasons := ["host-address-not-measurable"]
      message := some "Switched; the egress couldn't be compared with this host's address.", checks }
  else if !found.failed.isEmpty || rejected then
    let reasons := found.failed.map (·.text ++ "-failed") ++ if rejected then ["rejected"] else []
    { base with state := .failed, label := "failed", reasons, message, checks }
  else if !found.expired.isEmpty then
    { base with
      state := .unknown, label := "evidence expired", reasons := found.expired.map (·.text ++ "-expired"), checks }
  else if status.isStr "failed" then
    { base with state := .failed, label := "failed", reasons := ["status-failed"], message, checks }
  else if !found.unmeasured.isEmpty then
    { base with
      state := .unknown, label := "not yet measured", reasons := found.unmeasured.map (·.text ++ "-unmeasured"), checks }
  else if status.isStr "ok" then
    match targetDisagreement record target selection base.configuredServer with
    | some reason =>
      { base with state := .failed, label := "verification failed", reasons := [reason], message, checks }
    | none =>
      let source := selection.get "source"
      let note := if target.server = "" ∧ (source.isNull || source.isStr "seed") then ["no-selection"] else []
      { base with state := .ok, label := "connected", reasons := note, tier := (egress.get "tier").string.getD "", checks }
  else { base with state := .unknown, label := "unknown", reasons := ["status-unknown"], message, checks }

/-- Rules 4 to 7: a record of schema 2. -/
def assessRecord (exit : ExitConfig) (record : Members) (target : Target) (now : ℤ) (selection : Members)
    (base : Verdict) : Verdict :=
  if !(record.get "kind").isStr exit.kind.text then
    { base with state := .unknown, label := "kind mismatch", reasons := ["kind-mismatch"] }
  else if !(record.get "provider").isStr exit.provider || !(record.get "backend").isStr exit.backend.text then
    { base with state := .unknown, label := "provider mismatch", reasons := ["provider-mismatch"] }
  else if !fresh (record.get "checked_at") now then
    { base with state := .unknown, label := "status stale", reasons := ["status-stale"] }
  else match unacknowledged record target now with
    | some (state, label, reason) => { base with state, label, reasons := [reason] }
    | none =>
      if (record.get "status").isStr "applying" then
        { base with state := .applying, label := "switching", reasons := ["applying"] }
      else match readChecks exit record now with
        | .error checks =>
          { base with state := .unknown, label := "invalid status record", reasons := ["invalid-record"], checks }
        | .ok (checks, found) => judgeChecks exit record target selection base checks found

/-! ### Records without a schema -/

def isTrue : Json → Bool
  | .bool b => b
  | _ => false

/-- The provider-side egress confirmation of an old record. -/
def exitConfirmed (record : Members) : Bool :=
  if record.has "exit_confirmed" then isTrue (record.get "exit_confirmed") else isTrue (record.get "mullvad_exit_ip")

/-- state.EgressTier -/
def legacyTier (record : Members) (provider : String) : Option Tier :=
  if exitConfirmed record then some .provider
  else if (lookupProvider provider).any (·.egressTier == .tunnel) && (record.get "egress_tier").isStr "tunnel" then
    some .tunnel
  else none

def legacyChecks : Checks :=
  [CheckName.routing, .netbird, .ownerRecord, .peer, .handshake, .egress, .trafficProtection].map (·, .legacy) ++
    [(.appAttachment, .na)]

/-- A 0.6 overlay record. -/
def legacy (exit : ExitConfig) (record : Members) (target : Target) (now : ℤ) (base : Verdict) : Verdict :=
  let base := { base with schema := 1 }
  let status := record.get "status"
  let message := (record.get "message").string
  if exit.kind ≠ .overlay then
    { base with state := .unknown, label := "kind mismatch", reasons := ["kind-mismatch"] }
  else if !fresh (record.get "checked_at") now then
    { base with state := .unknown, label := "status stale", reasons := ["status-stale"] }
  else match unacknowledged record target now with
    | some (state, label, reason) => { base with state, label, reasons := [reason] }
    | none =>
      if status.isStr "applying" then
        { base with state := .applying, label := "switching", reasons := ["applying"] }
      else if status.isStr "failed" then
        { base with state := .failed, label := "failed", reasons := ["status-failed"], message, checks := legacyChecks }
      else if !status.isStr "ok" then
        { base with state := .unknown, label := "unknown", reasons := ["status-unknown"], checks := legacyChecks }
      else if !(record.get "provider").isNull && !(record.get "provider").isStr exit.provider then
        { base with state := .unknown, label := "provider mismatch", reasons := ["provider-mismatch"] }
      else
        let tier := legacyTier record exit.provider
        let reasons :=
          (if isTrue (record.get "routing_ok") then [] else ["routing-failed"]) ++
          (if record.has "netbird_native" && !isTrue (record.get "netbird_native") then ["netbird-failed"] else []) ++
          (if tier.isNone then ["egress-failed"] else []) ++
          (targetDisagreement record target [] base.configuredServer).toList
        if reasons.isEmpty then
          { base with state := .ok, label := "connected", tier := (tier.map Tier.text).getD "", checks := legacyChecks }
        else
          { base with state := .failed, label := "verification failed", reasons, message, checks := legacyChecks }

/-! ### Assess -/

/-- The next action the record announces, with its time if that is well formed. -/
def Verdict.announce (v : Verdict) (selection : Members) : Verdict :=
  match (selection.get "next_action").string with
  | some action =>
    if action = "recheck" ∨ action = "reapply" then
      { v with
        nextAction := action
        nextActionAt := if (parseTime (selection.get "next_action_at")).isSome then
          (selection.get "next_action_at").string.getD "" else "" }
    else v
  | none => v

/-- The judgment of a result.json for an exit, against a target, at a time. -/
def assessAt (u : Unicode) (exit : ExitConfig) (result : Json) (target : Target) (now : ℤ) : Verdict :=
  let base : Verdict := { state := .unknown, label := "", kind := exit.kind
                          configuredServer := (configuredServer u result).getD "" }
  match result.object with
  | none => { base with state := .unknown, label := "awaiting status", reasons := ["no-status"] }
  | some record =>
    if !record.has "schema" then legacy exit record target now base
    else if (record.get "schema").isInt ≠ some 2 then
      { base with state := .unknown, label := "unsupported status version", reasons := ["unsupported-schema"] }
    else
      let selection := (record.get "selection").object.getD []
      assessRecord exit record target now selection ({ base with schema := 2 }.announce selection)

/-- Assess: the judgment at a time given, or at the present for a zero one. -/
def assess (u : Unicode) (exit : ExitConfig) (result : Json) (target : Target) (clock now : ℤ) : Verdict :=
  assessAt u exit result target (orPresent clock now)

end Molebridge
