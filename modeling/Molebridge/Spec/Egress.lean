import Molebridge.Spec.Attempt
import Molebridge.Spec.Record

/-! internal/applier/egress.go and the providers' egress checks: what each makes of
the answers it gets. A request that could not be sent in time counts as one without an
answer; no catalogue lists exit addresses, so none is compared. -/

namespace Molebridge.Applier

def familyName : Family → String
  | .v4 => "4"
  | .v6 => "6"

/-- groupAddresses: the families of the tunnel's addresses, one address each. -/
def groupAddresses (addresses : List Addr) (requireIPv4 : Bool) : Option (List Family) :=
  if (addresses.map (·.fam)).Nodup ∧ (requireIPv4 = true → .v4 ∈ addresses.map (·.fam)) then
    some (families.filter (addresses.map (·.fam)).contains)
  else none

structure EgressResult where
  ip : String := ""
  city : Option String := none
  country : Option String := none
  exitConfirmed : Bool := false
  tier : Option Tier := none
  ips : List (String × String) := []
  families : List (String × Bool) := []
  reason : String := ""
  message : String := ""

structure MullvadProbe where
  ip : String
  city : String
  country : String
  exit : Bool

structure Insights where
  ip : String
  city : Option String
  country : Option String
  confirmed : Bool

inductive Echo where
  | address (ip : String)
  | failed
  | canceled

/-- What one egress check is answered: only what its provider asks for is read. -/
structure EgressReading where
  addresses : Option (List Addr)
  mullvad : Family → Option MullvadProbe
  /-- The rounds of NordVPN's check, each with whether its deadline allows another. -/
  insights : List (Option Insights × Bool)
  pia : Option (String × Bool)
  echo : Family → Echo × Echo
  /-- The host's own address, or that it has none in this family. -/
  host : Family → Option String

def EgressReading.tunnel (r : EgressReading) : Option (List Family) :=
  r.addresses.bind (groupAddresses · true)

/-- The families up to the first that Mullvad says is not its exit. -/
def mullvadFamilies (r : EgressReading) : List Family → EgressResult → Option EgressResult
  | [], result => some { result with exitConfirmed := true }
  | family :: rest, result => do
    let probe ← r.mullvad family
    let result := { result with
      ips := result.ips ++ [(familyName family, probe.ip)]
      families := result.families ++ [(familyName family, probe.exit)] }
    let result := if family = .v4 then
        { result with ip := probe.ip, city := some probe.city, country := some probe.country } else result
    if probe.exit then mullvadFamilies r rest result else some { result with exitConfirmed := false }

def mullvadEgress (r : EgressReading) : Option EgressResult := do mullvadFamilies r (← r.tunnel) {}

def nordInsights (i : Insights) : EgressResult :=
  { ip := i.ip, city := i.city, country := i.country, exitConfirmed := i.confirmed
    ips := [("4", i.ip)], families := [("4", i.confirmed)] }

/-- NordEgressFor: an answer for one of the server's own addresses may be cached, and
is asked again while there is time. -/
def nordRounds (entries : List String) : List (Option Insights × Bool) → Option EgressResult
  | [] => none
  | (none, _) :: _ => none
  | (some i, another) :: rest =>
    if !(!i.confirmed && entries.contains i.ip) || !another then some (nordInsights i) else nordRounds entries rest

def nordEgressFor (r : EgressReading) (entries : List String) : Option EgressResult := do
  let _ ← r.tunnel
  nordRounds entries r.insights

def piaEgress (r : EgressReading) : Option EgressResult := do
  let _ ← r.tunnel
  let (ip, connected) ← r.pia
  return { ip, exitConfirmed := connected, ips := [("4", ip)], families := [("4", connected)] }

def tunnelVerdict (first second host : String) (age : Option ℤ) : Bool :=
  age.elim false (fun a => 0 ≤ a && a < handshakeFreshSec) &&
    first != "" && second != "" && second == first && host != "" && first != host

/-- The families up to the first that fails the tunnel checks. -/
def tunnelFamilies (r : EgressReading) (age : Option ℤ) :
    List Family → Bool → EgressResult → Option (Bool × EgressResult)
  | [], verified, result => some (verified, result)
  | family :: rest, verified, result =>
    match r.echo family with
    | (.address first, .address second) =>
      let result := { result with ips := result.ips ++ [(familyName family, first)] }
      let judged := fun verified => { result with families := result.families ++ [(familyName family, verified)] }
      if second ≠ first then some (false, judged false)
      else match r.host family with
        | none => none
        | some host =>
          let verified := tunnelVerdict first second host age && verified
          if verified then tunnelFamilies r age rest verified (judged verified) else some (false, judged false)
    | _ => none

/-- TunnelEgress: `known` is whether the catalogue has the server. -/
def tunnelEgress (r : EgressReading) (known : Bool) (age : Option ℤ) : Option EgressResult := do
  let (verified, result) ← tunnelFamilies r age (← r.tunnel) known {}
  return { result with
    ip := (result.ips.lookup "4").getD ""
    tier := if verified then some .tunnel else none }

/-- unmeasurableEgress: the tunnel's addresses, for display. -/
def unmeasurableEgress (r : EgressReading) : Option EgressResult := do
  let found ← (← r.tunnel).mapM fun family => match (r.echo family).1 with
    | .address ip => some [(familyName family, ip)]
    | .failed => some []
    | .canceled => none
  return { ip := (found.flatten.lookup "4").getD "", ips := found.flatten, reason := "host-address-not-measurable"
           message := "Switched; the egress couldn't be compared with this host's address." }

/-- The check a provider's egress gets. -/
inductive EgressMethod where
  | mullvad
  | nord
  | pia
  | unmeasurable
  | tunnel
deriving DecidableEq

/-- Which check EgressFor is, by the registry entry and the exit's kind. -/
def egressMethod (p : Provider) (kind : Kind) : EgressMethod :=
  match p.backend with
  | .native => if p.egressTier = .tunnel then .tunnel
      else if p.id = "nordvpn" then .nord else if p.id = "pia" then .pia else .mullvad
  | .gluetun => if p.egressCheck = some "nordvpn" then .nord
      else if p.egressCheck = some "mullvad" then .mullvad
      else if kind = .sidecar then .unmeasurable else .tunnel

def egressFor (method : EgressMethod) (r : EgressReading) (known : Bool) (entries : List String) (age : Option ℤ) :
    Option EgressResult :=
  match method with
  | .mullvad => mullvadEgress r
  | .nord => nordEgressFor r entries
  | .pia => piaEgress r
  | .unmeasurable => unmeasurableEgress r
  | .tunnel => tunnelEgress r known age

end Molebridge.Applier
