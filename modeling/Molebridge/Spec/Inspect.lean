import Molebridge.Spec.Egress

/-! internal/applier, one inspection and the record it is published as: what `measure`
finds from the answers it reads, and what `emit` and `publishRecord` make of it. -/

namespace Molebridge

def ExitSettings.spec (s : ExitSettings) : Provider := (lookupProvider s.provider).get s.known

def ExitSettings.nativeSidecar (s : ExitSettings) : Bool := s.kind == .sidecar && s.backend == .native

namespace Applier

/-! ### What the applier holds -/

def label (provider : String) : String :=
  (([("mullvad", "Mullvad"), ("pia", "PIA"), ("nordvpn", "NordVPN"), ("gluetun-fastestvpn", "FastestVPN"),
    ("gluetun-ivpn", "IVPN"), ("gluetun-mullvad", "Mullvad"), ("gluetun-nordvpn", "NordVPN"),
    ("gluetun-surfshark", "Surfshark"), ("gluetun-windscribe", "Windscribe")] : List (String × String)).lookup
      provider).getD ""

/-- validate.AgeSeconds, in nanoseconds; a zero `now` is the present. -/
def age (value : Json) (clock now : ℤ) : Option ℤ :=
  (lenientTime value).map fun t => orPresent clock now - t * second

def recent (value : Json) (maxAge clock now : ℤ) : Bool :=
  (age value clock now).elim false fun age => 0 ≤ age && age ≤ maxAge * second

def catalogMaxAge : ℤ := 86400

/-- The relay catalogue: its servers, their entry addresses, and when it was fetched. -/
structure Catalog where
  names : List String := []
  entries : String → List String := fun _ => []
  fetchedAt : Json := .null

/-- Usable. The catalogue's clock is the one that tells the present. -/
def Catalog.usable (c : Catalog) (wall : ℤ) : Bool := !c.names.isEmpty && recent c.fetchedAt catalogMaxAge wall wall

structure Selection where
  server : String
  source : Source
  request : Option Request := none

def Selection.key (s : Selection) : String :=
  match s.source, s.request with
  | .panel, some request => request.token
  | source, _ => source.text ++ ":" ++ s.server

structure Finding where
  ok : Bool := false
  message : String := ""
  server : String := ""
  checks : Members
  fields : Members := []
  safe : Bool := true
  guard : String := ""
  /-- The number of peers seen, -1 for none measured. -/
  peers : ℤ := -1
  age : Option ℤ := none
  /-- The boot clock when the inspection started. -/
  time : ℚ
  silent : Bool := false

structure StallWatch where
  key : String := ""
  received : ℤ := 0
  sent : ℤ := 0
  since : ℚ := 0
  checked : Bool := false

/-- A repair in progress: why and since when. -/
structure RepairState where
  reason : String
  since : String

structure Memory where
  settings : ExitSettings
  configuredAt : String
  bootId : String
  catalog : Catalog := {}
  attempt : Attempt
  request : Option Request := none
  invalidDesired : Bool := false
  target : Option Selection := none
  nextHealth : ℚ := 0
  measurement : Option Finding := none
  unidentifiedSince : Option ℚ := none
  switchDeadline : Option ℚ := none
  repair : Option RepairState := none
  stall : StallWatch := {}
  started : Bool := false
  ioFailure : String := ""

/-! ### The SERVER setting -/

def hexDigits (n : ℕ) (c : ℕ) : List Char :=
  let ds := Nat.toDigits 16 c
  List.replicate (n - ds.length) '0' ++ ds

/-- One character of a JSON string, with everything outside printable ASCII escaped. -/
def quoteChar (c : Char) : List Char :=
  let u4 := fun n => ['\\', 'u'] ++ hexDigits 4 n
  if c = '"' then ['\\', '"'] else if c = '\\' then ['\\', '\\'] else if c = '\n' then ['\\', 'n']
  else if c = '\r' then ['\\', 'r'] else if c = '\t' then ['\\', 't'] else if c.toNat = 8 then ['\\', 'b']
  else if c.toNat = 12 then ['\\', 'f']
  else if 32 ≤ c.toNat ∧ c.toNat < 127 then [c]
  else if 65536 ≤ c.toNat then
    u4 (55296 + (c.toNat - 65536) / 1024) ++ u4 (56320 + (c.toNat - 65536) % 1024)
  else u4 c.toNat

def quoted (s : String) : String := String.ofList (['"'] ++ s.toList.flatMap quoteChar ++ ['"'])

def truncateChars (s : String) (n : ℕ) : String := String.ofList (s.toList.take n)

def configuredRequest (m : Memory) : Option Request :=
  desiredRequest (.obj [("server", .str m.settings.server), ("requested_at", .str m.configuredAt)]) m.settings.provider

/-- configurationError, with why the SERVER cannot be used. -/
def configurationError (m : Memory) (wall : ℤ) : Option (Why × String) :=
  let text := quoted (truncateChars m.settings.server serverReportChars)
  if m.settings.server = "" then none
  else if (configuredRequest m).isNone then some (.invalid, "Invalid SERVER " ++ text ++ "; no change applied.")
  else if m.catalog.usable wall && !m.catalog.names.contains m.settings.server then
    some (.catalogue, "Unknown SERVER " ++ text ++ "; not in a fresh trusted relay catalogue; no change applied.")
  else none

/-- configuredSelection: bounded, as it is reported. -/
def configuredSelection (m : Memory) : Selection :=
  { server := truncateChars m.settings.server serverReportChars, source := .configured }

/-! ### Refused requests -/

def invalidDesiredMessage : String := "Invalid desired-state file; no change applied."

def unlistedMessage : String := "Requested server is not in a fresh trusted relay catalogue; no change applied."

/-- requestRejected: the panel's current request stands refused. -/
def requestRejected (m : Memory) : Bool :=
  if m.settings.server ≠ "" then false
  else m.invalidDesired || match m.request, m.attempt.rejected with
    | some request, some rejected => rejected.key == request.token
    | _, _ => false

def rejectionMessage (m : Memory) : String :=
  if m.invalidDesired then invalidDesiredMessage
  else match m.attempt.rejected with
    | some r => if r.reason ≠ "" then r.reason else unlistedMessage
    | none => unlistedMessage

/-! ### The guards -/

def netbirdModeFailed : String :=
  "NetBird is not running kernel WireGuard with its kernel firewall on the overlay " ++
    "interface; see the troubleshooting guide."

def sidecarFirewallFailed : String := "Sidecar firewall protection is incomplete; see docs/operations.md#recovery."

def routingFailed : String := "Routing protection is incomplete; see docs/operations.md#recovery."

def egressFailedMessage : String := "Tunnel inspection or egress check failed."

def passFail (b : Bool) : Json := .str (if b then "pass" else "fail")

/-- What the guards of an inspection are answered; no answer of the firewall or of the
transition is an error. -/
structure GuardReading where
  protected_ : Bool
  fallback : Bool
  netbird : Bool
  firewall : Option Bool
  transition : Option (Bool × Bool)

/-- DefaultMeasureGuards on an overlay, and gluetun's MeasureGuards while a switch is
verified: `safe` is what aborts a switch. -/
def overlayGuards (f : Finding) (at_ : String) (safe ready fallback : Bool) (netbird : Bool) (more : Members) : Finding :=
  { f with
    checks := ((f.checks.set "routing" (.obj ([("state", passFail ready), ("at", .str at_),
        ("fallback", .bool fallback)] ++ more))).set "traffic_protection"
      (.obj [("state", passFail ready), ("at", .str at_), ("from", .str "routing")])).set "netbird"
      (.obj [("state", passFail netbird), ("at", .str at_)])
    safe := safe && netbird
    guard := if !ready then routingFailed else if !netbird then netbirdModeFailed else f.guard }

/-- DefaultMeasureGuards in a native sidecar. -/
def sidecarGuards (f : Finding) (at_ : String) (g : GuardReading) : Finding :=
  let firewall := g.firewall.getD false
  { f with
    checks := (f.checks.set "routing" (.obj [("state", passFail g.protected_), ("at", .str at_),
        ("fallback", .bool g.fallback)])).set "traffic_protection"
      (.obj [("state", passFail (g.protected_ && firewall)), ("at", .str at_),
        ("from", .str (if g.protected_ && !firewall then "firewall" else "routing"))])
    safe := g.protected_ && firewall
    guard := if !g.protected_ then routingFailed else if !firewall then sidecarFirewallFailed else f.guard }

def measureGuards (m : Memory) (at_ : String) (g : GuardReading) (f : Finding) : Finding :=
  if m.settings.backend = .gluetun ∧ m.switchDeadline.isSome then
    let (safe, ready) := g.transition.getD (false, false)
    overlayGuards f at_ safe ready safe g.netbird (if safe && !ready then [("reason", .str "reconnecting")] else [])
  else if m.settings.nativeSidecar then sidecarGuards f at_ g
  else overlayGuards f at_ g.protected_ g.protected_ g.fallback g.netbird []

/-! ### measure -/

structure Transfer where
  received : ℤ
  sent : ℤ

/-- What one inspection reads, each answer once per question; none is an error. -/
structure Reading where
  started : ℤ
  wallConfig : ℤ
  guards : GuardReading
  peers : Option (List String)
  server : Option String
  wallPeer : ℤ
  handshakes : Option (List (String × ℤ))
  wallHandshake : ℤ
  addresses : Option (List Addr)
  egress : EgressReading
  /-- The peer's counters before and after the check. -/
  before : Option Transfer
  after : Option Transfer
  answers : Bool
  canceled : Bool
  wallDoomed : ℤ
  slow : Bool
  again : EgressReading
  wallEgress : ℤ
  wallEnd : ℤ

/-- handshakeAge: none where there is none or the clock disagrees. -/
def handshakeAge (handshakes : List (String × ℤ)) (key : String) (wall : ℤ) : Option ℤ := do
  let timestamp ← handshakes.lookup key
  let age := wall / second - timestamp
  if 0 < timestamp ∧ 0 ≤ age then some age else none

def freshAge (age : Option ℤ) : Bool := age.elim false fun a => 0 ≤ a && a < handshakeFreshSec

/-- checkedEgress: the answer, and whether the tunnel was silent. -/
def checkedEgress (m : Memory) (server : String) (age : Option ℤ) (applying : Bool) (r : Reading) :
    Option EgressResult × Bool :=
  let spec := m.settings.spec
  let ask := fun reading => egressFor (egressMethod spec m.settings.kind) reading
    (server ≠ "" && m.catalog.names.contains server) (m.catalog.entries server) age
  let switching := applying || m.switchDeadline.isSome
  let silent := spec.registrationLapses && !switching && r.answers && match r.before, r.after with
    | some before, some after => decide (before.sent < after.sent) && after.received == before.received
    | _, _ => false
  let doomed := !freshAge age || m.attempt.state == .pending || m.attempt.state == .rejected || requestRejected m ||
    server == "" || !m.catalog.usable r.wallDoomed
  match ask r.egress with
  | some result => (some result, false)
  | none =>
    if r.canceled then (none, false)
    else if silent then (none, true)
    else if switching || doomed || r.slow then (none, false)
    else (ask r.again, false)

def egressTier (spec : Provider) (e : EgressResult) : Option Tier :=
  if e.exitConfirmed then some .provider
  else if spec.egressTier = .tunnel ∧ e.tier = some .tunnel then some .tunnel
  else none

def noPeerMessage (m : Memory) (keys : List String) : String :=
  if keys = [] ∧ m.target.isNone ∧ m.settings.provider = "nordvpn" then
    "No NordVPN server is selected yet; choose one in the panel."
  else if keys = [] ∧ m.target.isNone ∧ m.settings.provider = "pia" then
    "No PIA region is registered yet; choose one in the panel."
  else "Expected exactly one tunnel peer."

/-- The server an inspection holds the live one against, "" for none. -/
def expectedServer (m : Memory) : String :=
  match m.target with
  | some selected => selected.server
  | none => if m.settings.server ≠ "" then (configuredSelection m).server else ""

/-- Why a peer is not the one wanted, if it is not. -/
def peerReason (keys : List String) (usable : Bool) (server target : String) : Option String :=
  if keys.length = 0 then some "no-peer"
  else if 1 < keys.length then some "multiple-peers"
  else if !usable then some "catalogue-stale"
  else if server = "" then some "unidentified"
  else if target ≠ "" ∧ server ≠ target then some "not-target"
  else none

def peerCheck (at_ server : String) (reason : Option String) : Json :=
  .obj ([("state", passFail reason.isNone), ("at", .str at_), ("server", nullable server)] ++
    match reason with
    | some why => [("reason", .str why)]
    | none => [])

/-- The families an egress check shows: every one of a confirmed egress passes. -/
def shownFamilies (tier : Option Tier) (e : EgressResult) (expected : List String) : List (String × String) :=
  expected.map fun name => (name, if tier.isSome then "pass" else
    match e.families.lookup name with
    | some true => "pass"
    | some false => "fail"
    | none => "unknown")

/-- What the result of an inspection that got an egress answer is a failure for. -/
def inspectionFailure (m : Memory) (age : Option ℤ) (tier : Option Tier) (e : EgressResult) (server : String)
    (wall : ℤ) : Option String :=
  let spec := m.settings.spec
  let target := expectedServer m
  if !freshAge age then some "Tunnel handshake is missing or stale; check the account and connectivity."
  else if tier.isNone then
    some (if e.message ≠ "" then e.message
      else if spec.egressTier = .tunnel then "Tunnel egress did not pass the tunnel checks."
      else "Tunnel egress is not confirmed as " ++ label m.settings.provider ++ ".")
  else if !m.catalog.usable wall || server == "" then
    some "Current peer cannot be verified against a fresh relay catalogue."
  else if target ≠ "" ∧ server ≠ target then
    some (if m.settings.server ≠ "" then "The configured SERVER is not the current server; waiting for convergence."
      else "The live server is not the selected one; waiting for convergence.")
  else none

def egressCheck (spec : Provider) (e : EgressResult) (tier : Option Tier) (at_ server : String)
    (expected : List String) : Json :=
  .obj ([("state", passFail tier.isSome), ("at", .str at_), ("server", nullable server),
    ("tier", (tier.map fun t => Json.str t.text).getD .null),
    ("expected_families", .arr (expected.map Json.str)),
    ("families", .obj ((shownFamilies tier e expected).map fun x => (x.1, .str x.2)))] ++
    if tier.isNone then
      [("reason", .str (if e.reason ≠ "" then e.reason
        else if spec.egressTier = .tunnel then "tunnel-checks-failed" else "not-confirmed"))]
    else [])

def unansweredCheck (at_ server : String) (silent : Bool) (expected : List String) : Json :=
  .obj [("state", .str "fail"), ("at", .str at_), ("server", nullable server),
    ("reason", .str (if silent then "tunnel-silent" else "unanswered")), ("tier", .null),
    ("expected_families", .arr (expected.map Json.str)), ("families", .obj [])]

/-- The addresses shown: those of passing families. -/
def shownIPs (e : EgressResult) (shown : List (String × String)) : Members :=
  (e.ips.filter fun x => shown.lookup x.1 == some "pass").map fun x => (x.1, .str x.2)

/-- The end of an inspection, once the tunnel's families are known. -/
def measureEgress (m : Memory) (applying : Bool) (r : Reading) (f : Finding) (age : Option ℤ)
    (expected : List String) : Finding :=
  let spec := m.settings.spec
  let at_ := formatTime r.wallEgress
  match checkedEgress m f.server age applying r with
  | (none, silent) =>
    { f with
      silent, checks := f.checks.set "egress" (unansweredCheck at_ f.server silent expected)
      message := egressFailedMessage }
  | (some e, _) =>
    let tier := egressTier spec e
    let failure := inspectionFailure m age tier e f.server r.wallEnd
    { f with
      checks := f.checks.set "egress" (egressCheck spec e tier at_ f.server expected)
      fields := [("egress_ip", nullable e.ip), ("egress_city", (e.city.map Json.str).getD .null),
        ("egress_country", (e.country.map Json.str).getD .null),
        ("egress_ips", .obj (shownIPs e (shownFamilies tier e expected)))]
      ok := failure.isNone
      message := failure.getD "Healthy." }

/-- An inspection from the handshake on, with one peer. -/
def measurePeer (m : Memory) (applying : Bool) (r : Reading) (at_ key : String) (f : Finding) : Finding :=
  match r.handshakes with
  | none => { f with message := egressFailedMessage }
  | some handshakes =>
    let age := handshakeAge handshakes key r.wallHandshake
    let f := { f with
      age
      checks := f.checks.set "handshake" (.obj [("state", passFail (freshAge age)), ("at", .str at_),
        ("server", nullable f.server), ("age_s", (age.map Json.int).getD .null)]) }
    if f.guard ≠ "" then { f with message := f.guard }
    else match r.addresses.bind (groupAddresses · true) with
      | none => { f with message := egressFailedMessage }
      | some tunnel => measureEgress m applying r f age (tunnel.map familyName)

def measureServer (m : Memory) (applying : Bool) (r : Reading) (keys : List String) (server : String) (f : Finding) :
    Finding :=
  let at_ := formatTime r.started
  let reason := peerReason keys (m.catalog.usable r.wallPeer) server (expectedServer m)
  let f := { f with server, checks := f.checks.set "peer" (peerCheck at_ server reason) }
  match keys with
  | [key] => measurePeer m applying r at_ key f
  | _ => { f with message := noPeerMessage m keys }

/-- newFinding, with the guards where the exit has them. -/
def guardFinding (m : Memory) (time : ℚ) (r : Reading) : Finding :=
  let f : Finding := { checks := blankChecks m.settings.kind m.settings.backend, time }
  if m.settings.kind = .overlay ∨ m.settings.nativeSidecar then measureGuards m (formatTime r.started) r.guards f else f

/-- measure: one inspection that started at `time`, stopping where later checks cannot
pass. -/
def measure (m : Memory) (applying : Bool) (time : ℚ) (r : Reading) : Finding :=
  match configurationError m r.wallConfig with
  | some (_, message) => { checks := blankChecks m.settings.kind m.settings.backend, time, message }
  | none =>
    let f := guardFinding m time r
    match r.peers with
    | none => { f with message := egressFailedMessage }
    | some keys =>
      let f := { f with peers := keys.length }
      match r.server with
      | none => { f with message := egressFailedMessage }
      | some server => measureServer m applying r keys server f

/-! ### The status record -/

inductive RecordStatus where
  | ok
  | failed
  | applying
deriving DecidableEq

def RecordStatus.text : RecordStatus → String
  | ok => "ok"
  | failed => "failed"
  | applying => "applying"

/-- What building a record reads: the clocks, and what the provider and the routing
owner add for people. -/
structure Publishing where
  wall : ℤ
  wallNext : ℤ
  clockNext : ℚ
  forwardedPort : Option ℕ := none
  forwardError : String := ""
  serverListUpdate : Option String := none
  activity : Option Members := none

/-- wallOf: a boot-clock deadline as wall-clock time. -/
def wallOf (p : Publishing) (deadline : Option ℚ) : Json :=
  (deadline.map fun d => Json.str (formatTime (p.wallNext + ⌊max 0 (d - p.clockNext) * 10 ^ 9⌋))).getD .null

def selectionRecord (m : Memory) (p : Publishing) : Members :=
  if requestRejected m then
    [("source", .str "panel"), ("outcome", .str "rejected"), ("attempt", .int 0),
     ("target", (m.request.map fun r => Json.str r.server).getD .null), ("next_action", .null),
     ("next_action_at", .null)]
  else
    [("source", .str ((m.attempt.source.map Source.text).getD "seed")),
     ("outcome", (m.attempt.outcome.map fun o => Json.str o.text).getD .null), ("attempt", .int m.attempt.attempts),
     ("target", nullable m.attempt.target),
     ("next_action", (m.attempt.nextAction.map fun a => Json.str a.text).getD .null),
     ("next_action_at", if m.attempt.nextAction.isSome then wallOf p m.attempt.nextActionAt else .null)]

/-- ResultDefaults: PIA's forwarded port. -/
def resultDefaults (m : Memory) (p : Publishing) : Members :=
  if m.settings.provider = "pia" then
    [("port_forward", .bool m.settings.portForward), ("forwarded_port", (p.forwardedPort.map fun n => Json.int n).getD .null)] ++
      if m.settings.portForward then [("port_forward_error", nullable p.forwardError)] else []
  else []

/-- PublishDefaults: whether gluetun refreshes its server list. -/
def publishDefaults (m : Memory) (p : Publishing) : Members :=
  if m.settings.backend = .gluetun then [("server_list_update", (p.serverListUpdate.map Json.str).getD .null)] else []

def commonMembers (m : Memory) (p : Publishing) (status : RecordStatus) (message server : String) (checks : Members) :
    Members :=
  [("schema", .int 2), ("kind", .str m.settings.kind.text), ("backend", .str m.settings.backend.text),
   ("provider", .str m.settings.provider), ("status", .str status.text), ("message", nullable message),
   ("checked_at", .str (formatTime p.wall)), ("server", nullable server),
   ("requested_server", (m.request.map fun r => Json.str r.server).getD .null),
   ("configured_server", nullable (truncateChars m.settings.server serverReportChars)),
   ("request_id", (m.request.map fun r => Json.str r.token).getD .null),
   ("selection", .obj (selectionRecord m p)), ("checks", .obj checks), ("egress_ip", .null), ("egress_ips", .obj []),
   ("egress_city", .null), ("egress_country", .null)]

/-- What is set on top: the given fields, then what the provider, a repair and the
routing owner add. -/
def addedMembers (m : Memory) (p : Publishing) (status : RecordStatus) (fields : Members) : Members :=
  fields ++ publishDefaults m p ++
    (match status, m.repair with
      | .applying, some repair => [("repair", .obj [("reason", .str repair.reason), ("since", .str repair.since)])]
      | _, _ => []) ++
    match p.activity with
    | some counters => [("routing_activity", .obj counters)]
    | none => []

/-- publishRecord: the record it builds. -/
def statusRecord (m : Memory) (p : Publishing) (status : RecordStatus) (message server : String)
    (checks fields : Members) : Members :=
  (addedMembers m p status fields).foldl (fun o x => o.set x.1 x.2)
    (commonMembers m p status message server checks ++ resultDefaults m p)

def waitingMessage (m : Memory) : String :=
  if m.settings.backend = .gluetun then "Waiting for gluetun to connect to the requested server."
  else "Waiting for tunnel verification."

/-- emit: the status a finding is published with, the pipeline's own state first. -/
def emitStatus (m : Memory) (f : Finding) (applying : Bool) : RecordStatus × String :=
  let at_ := m.attempt
  if requestRejected m then (.failed, rejectionMessage m)
  else if (at_.state = .pending ∨ at_.state = .rejected) ∧ (at_.target ≠ "" ∨ m.settings.server ≠ "") then
    (.failed, at_.message)
  else if at_.state = .failed ∧ f.ok = false then (.failed, at_.message)
  else if applying = true ∧ f.ok = false ∧ f.safe = true then (.applying, waitingMessage m)
  else (if f.ok then .ok else .failed, f.message)

def emitRecord (m : Memory) (p : Publishing) (f : Finding) (applying : Bool) : Members :=
  let (status, message) := emitStatus m f applying
  statusRecord m p status message f.server f.checks f.fields

/-! ### Two readings -/

/-- Every answer of a confirmed egress, at 22:13:20. -/
def confirmedReading (server : String) : Reading :=
  let addresses : List Addr := [⟨.v4, 167903234, by decide⟩, ⟨.v6, 2, by decide⟩]
  let egress : EgressReading :=
    { addresses := some addresses
      mullvad := fun _ => some { ip := "192.0.2.1", city := "Malmo", country := "Sweden", exit := true }
      insights := [(some { ip := "192.0.2.1", city := none, country := none, confirmed := true }, false)]
      pia := some ("192.0.2.1", true), echo := fun _ => (.failed, .failed), host := fun _ => none }
  let wall := 1700000000 * second
  { started := wall, wallConfig := wall, peers := some ["key"], server := some server, wallPeer := wall
    guards := { protected_ := true, fallback := true, netbird := true, firewall := some true, transition := none }
    handshakes := some [("key", 1699999990)], wallHandshake := wall, addresses := some addresses, egress, again := egress
    before := none, after := none, answers := true, canceled := false, wallDoomed := wall, slow := false
    wallEgress := wall, wallEnd := wall }

def published1700 : Publishing := { wall := 1700000000 * second, wallNext := 1700000000 * second, clockNext := 0 }

/-- The egress check of a PIA tunnel goes unanswered while the tunnel only sends. -/
def silentReading (server : String) : Reading :=
  let r := confirmedReading server
  { r with egress := { r.egress with pia := none }, before := some ⟨0, 0⟩, after := some ⟨0, 4096⟩ }

end Applier

end Molebridge
