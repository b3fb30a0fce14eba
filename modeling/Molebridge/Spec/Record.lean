import Molebridge.Spec.Verdict

/-! internal/exit/record.go: the records the supervisor builds itself. An object is
a map here, so the order its members are written in is left out. -/

namespace Molebridge

def startingMessage : String := "Applier starting; waiting for verification."

def ownerStoppedMessage : String := "exit owner stopped responding"

def serverReportChars : ℕ := 256

/-- The settings a record depends on. The loader refuses a provider it does not know
and one of the other backend. -/
structure ExitSettings where
  kind : Kind
  provider : String
  server : String
  portForward : Bool
  known : (lookupProvider provider).isSome = true

namespace ExitSettings

def backend (s : ExitSettings) : Backend := backendOf s.provider

def native (s : ExitSettings) : Bool := s.kind == .overlay && s.backend == .native

def exit (s : ExitSettings) : ExitConfig := { provider := s.provider, kind := s.kind }

end ExitSettings

def notCheckedBy : CheckName → Json
  | .trafficProtection => .str "gluetun's firewall"
  | .appAttachment => .str "the host doctor"
  | _ => .str ""

/-- The checks of a record nothing has measured. -/
def blankChecks (kind : Kind) (backend : Backend) : Members :=
  let required : Members := (requiredChecks kind backend).map fun name => (name.text, .obj [("state", .str "unknown")])
  (fixedChecks kind backend).foldl (fun checks c =>
    checks.set c.1.text (.obj (("state", .str c.2.text) ::
      if c.2 = .notChecked then [("by", notCheckedBy c.1)] else []))) required

def nullable (s : String) : Json := if s = "" then .null else .str s

def startingRecord (s : ExitSettings) (now : ℤ) : Members :=
  [("schema", .int 2), ("kind", .str s.kind.text), ("backend", .str s.backend.text), ("provider", .str s.provider),
   ("status", .str "unknown"), ("message", .str startingMessage), ("checked_at", .str (formatTime now)),
   ("server", .null), ("requested_server", .null),
   ("configured_server", nullable (String.ofList (s.server.toList.take serverReportChars))), ("request_id", .null),
   ("selection", .obj [("source", .str "seed"), ("outcome", .null), ("attempt", .int 0), ("target", .null),
     ("next_action", .null), ("next_action_at", .null)]),
   ("checks", .obj (blankChecks s.kind s.backend)),
   ("egress_ip", .null), ("egress_ips", .obj []), ("egress_city", .null), ("egress_country", .null)] ++
  if s.provider = "pia" then
    [("port_forward", .bool s.portForward), ("forwarded_port", .null)] ++
      if s.portForward then [("port_forward_error", .null)] else []
  else []

/-- OwnerCheck: a pass until the expiry, or a failure. -/
def ownerCheck (held : Bool) (now expiry : ℤ) : Members :=
  if held then
    [("state", .str "pass"), ("at", .str (formatTime now)), ("expires_at", .str (formatTime expiry))]
  else [("state", .str "fail"), ("at", .str (formatTime now))]

/-- WithOwnerCheck: the record with its owner's check replaced. -/
def withOwnerCheck (last check : Members) : Members :=
  last.set "checks" (.obj (((last.get "checks").object.getD []).set CheckName.ownerRecord.text (.obj check)))

/-- render, up to the order of the members: only a native overlay's record carries the
owner's check. -/
def renderRecord (s : ExitSettings) (held : Bool) (now expiry : ℤ) (last : Members) : Members :=
  if s.native then withOwnerCheck last (ownerCheck held now expiry) else last

def failedAt (at_ : ℤ) (more : Members) : Json :=
  .obj ([("state", .str "fail"), ("at", .str (formatTime at_))] ++ more)

/-- The checks of a failure record: an overlay fails what the owner keeps up, a
sidecar's required checks are unknown. -/
def failureChecks (s : ExitSettings) (lapse : ℤ) (checks : Members) : Members :=
  match s.kind with
  | .sidecar => (requiredChecks s.kind s.backend).foldl (fun checks name =>
      checks.set name.text (.obj [("state", .str "unknown")])) checks
  | .overlay =>
    let checks := if s.backend = .native then checks.set CheckName.ownerRecord.text (failedAt lapse []) else checks
    let checks := checks.set CheckName.routing.text (failedAt lapse [])
    let checks := checks.set CheckName.netbird.text (failedAt lapse [])
    checks.set CheckName.trafficProtection.text (failedAt lapse [("from", .str "routing")])

/-- The members of the second object that the first has not. -/
def Members.fill (o blank : Members) : Members := o ++ blank.filter fun e => !o.has e.1

/-- FailureRecord: what the supervisor publishes when the lease lapses or the worker
dies, built from the last record it held. -/
def failureRecord (prev : Option Members) (s : ExitSettings) (lapse : ℤ) : Members :=
  let last := prev.getD (startingRecord s lapse)
  let checks := ((last.get "checks").object.getD []).fill (blankChecks s.kind s.backend)
  (((last.set "checks" (.obj (failureChecks s lapse checks))).set "status" (.str "failed")).set "message"
    (.str ownerStoppedMessage)).set "checked_at" (.str (formatTime lapse))

end Molebridge
