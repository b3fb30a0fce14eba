import Molebridge.Spec.Contract
import Molebridge.Spec.Json

/-! internal/providers: the registry, as far as the status record, its readers and
the applier use it. Regular expressions are written as what they accept. -/

namespace Molebridge

/-- How an egress was confirmed: by the provider's own endpoint, or by the tunnel
checks alone. -/
inductive Tier where
  | provider
  | tunnel
deriving DecidableEq

def Tier.text : Tier → String
  | provider => "provider"
  | tunnel => "tunnel"

def Tier.ofText (s : String) : Option Tier := [Tier.provider, .tunnel].find? (·.text == s)

def Backend.text : Backend → String
  | native => "native"
  | gluetun => "gluetun"

def Kind.text : Kind → String
  | overlay => "overlay"
  | sidecar => "sidecar"

/-! ### Server names -/

def isLower (c : Char) : Bool := 'a' ≤ c && c ≤ 'z'

def isDigit (c : Char) : Bool := '0' ≤ c && c ≤ '9'

def isLowerDigit (c : Char) : Bool := isLower c || isDigit c

/-- One to forty of a-z, 0-9 and dash, then -wg- and three digits. -/
def mullvadHostname (s : String) : Bool :=
  let cs := s.toList
  let head := cs.take (cs.length - 7)
  let tail := cs.drop (cs.length - 7)
  1 ≤ head.length && head.length ≤ 40 && head.all (fun c => isLowerDigit c || c == '-') &&
    tail.take 4 == ['-', 'w', 'g', '-'] && (tail.drop 4).length == 3 && (tail.drop 4).all isDigit

/-- At most 48 of a-z, 0-9, underscore and dash, the first a letter or digit. -/
def piaRegion (s : String) : Bool :=
  match s.toList with
  | [] => false
  | c :: rest => isLowerDigit c && rest.length ≤ 47 && rest.all fun c => isLowerDigit c || c == '_' || c == '-'

/-- Two letters, perhaps a dash and two more, one to five digits, .nordvpn.com. -/
def nordHostname (s : String) : Bool :=
  let number := fun cs : List Char =>
    let ds := cs.takeWhile isDigit
    1 ≤ ds.length && ds.length ≤ 5 && cs.dropWhile isDigit == ".nordvpn.com".toList
  match s.toList with
  | a :: b :: '-' :: c :: d :: rest => isLower a && isLower b && isLower c && isLower d && number rest
  | a :: b :: rest => isLower a && isLower b && number rest
  | _ => false

/-- A label of a DNS name: letters and digits, dashes inside, at most 63. -/
def dnsLabel (cs : List Char) : Bool :=
  cs.length ≤ 63 && cs.all (fun c => isLowerDigit c || c == '-') &&
    (cs.head?.any isLowerDigit) && (cs.getLast?.any isLowerDigit)

def gluetunHostname (s : String) : Bool :=
  s.toList.length ≤ 253 && (s.toList.splitOn '.').all dnsLabel

/-! ### The registry -/

structure Provider where
  id : String
  backend : Backend
  egressTier : Tier
  ipv6 : Bool
  serverName : String → Bool
  /-- One tunnel address valid on every server. -/
  addressBeforeSwitch : Bool
  /-- The native provider whose typed egress check the entry reuses. -/
  egressCheck : Option String := none
  /-- The provider can forget a registration while the peer stays the same. -/
  registrationLapses : Bool := false

def nativeProviders : List Provider :=
  [{ id := "mullvad", backend := .native, egressTier := .provider, ipv6 := true, serverName := mullvadHostname,
     addressBeforeSwitch := true },
   { id := "pia", backend := .native, egressTier := .provider, ipv6 := false, serverName := piaRegion,
     addressBeforeSwitch := false, registrationLapses := true },
   { id := "nordvpn", backend := .native, egressTier := .provider, ipv6 := false, serverName := nordHostname,
     addressBeforeSwitch := true }]

def gluetunSupportedProviders : List String :=
  ["fastestvpn", "ivpn", "mullvad", "nordvpn", "surfshark", "windscribe"]

def gluetunProvider (name : String) : Provider :=
  let typed := name == "mullvad" || name == "nordvpn"
  { id := "gluetun-" ++ name, backend := .gluetun
    egressTier := if typed then .provider else .tunnel
    ipv6 := ((nativeProviders.find? (·.id == name)).map (·.ipv6)).getD false
    serverName := gluetunHostname, addressBeforeSwitch := false
    egressCheck := if typed then some name else none }

def registry : List Provider := nativeProviders ++ gluetunSupportedProviders.map gluetunProvider

def lookupProvider (id : String) : Option Provider := registry.find? (·.id == id)

theorem mullvad_known : (lookupProvider "mullvad").isSome = true := by decide +kernel

theorem pia_known : (lookupProvider "pia").isSome = true := by decide +kernel

/-- BackendOf: gluetun or native, from the registry. -/
def backendOf (provider : String) : Backend := ((lookupProvider provider).map (·.backend)).getD .native

/-- A selectable name for the provider; an unknown provider has none. -/
def validServerName (value : Json) (provider : String) : Bool :=
  (lookupProvider provider).elim false fun p => value.string.elim false p.serverName

example : (lookupProvider "gluetun-ivpn").map (fun p => (p.backend, p.egressTier)) = some (.gluetun, .tunnel) := by
  decide +kernel

example : validServerName (.str "se-sto-wg-001") "mullvad" = true := by decide +kernel

end Molebridge
