import Molebridge.Spec.TunnelConf

/-! internal/tools/prepareconfig (prepareconfig.go): the tunnel configs that the tool writes, from
a downloaded config or a key. A text is the list of the characters its decoder yields, so a byte
that is no part of a valid encoding reads as U+FFFD. -/

namespace Molebridge.PrepareConfig

open Text TunnelConf

/-! Parsing -/

/-- The characters that end a line, besides the carriage return. -/
def isBreak (c : Char) : Bool :=
  c.toNat ∈ [0x0A, 0x0B, 0x0C, 0x1C, 0x1D, 0x1E, 0x85, 0x2028, 0x2029]

/-- The lines of a text, with what was read of the first one. -/
def linesFrom (line : List Char) : List Char → List (List Char)
  | [] => if line = [] then [] else [line]
  | '\r' :: '\n' :: rest => line :: linesFrom [] rest
  | c :: rest =>
    if c = '\r' ∨ isBreak c then line :: linesFrom [] rest else linesFrom (line ++ [c]) rest

def splitLines (s : List Char) : List (List Char) := linesFrom [] s

def isSpace (c : Char) : Bool :=
  let r := c.toNat
  (0x09 ≤ r && r ≤ 0x0D) || (0x1C ≤ r && r ≤ 0x20) || r == 0x85 || r == 0xA0 || r == 0x1680 ||
    (0x2000 ≤ r && r ≤ 0x200A) || r == 0x2028 || r == 0x2029 || r == 0x202F || r == 0x205F || r == 0x3000

def strip (s : List Char) : List Char := trim isSpace s

abbrev Values := List (List Char × List Char)

def Values.get (v : Values) (k : String) : List Char := (v.lookup k.toList).getD []

def Values.setDefault (v : Values) (k value : List Char) : Values :=
  if (v.lookup k).isSome then v else v ++ [(k, value)]

structure Parsed where
  iface : Values := []
  peer : Values := []
  /-- The section the next line belongs to. -/
  current : Option Section := none

def Parsed.header (p : Parsed) (name : List Char) : Parsed :=
  { p with
    current :=
      if name = "Peer".toList ∧ p.peer ≠ [] then none
      else if name = "Interface".toList then some .interface
      else if name = "Peer".toList then some .peer
      else none }

def Parsed.line (p : Parsed) (raw : List Char) : Parsed :=
  let line := strip (((cut '#' raw).map Prod.fst).getD raw)
  if line = [] then p
  else if line.head? = some '[' ∧ line.getLast? = some ']' then p.header (strip (line.drop 1).dropLast)
  else match p.current, cut '=' line with
    | some .interface, some (k, v) => { p with iface := p.iface.setDefault (strip k) (strip v) }
    | some .peer, some (k, v) => { p with peer := p.peer.setDefault (strip k) (strip v) }
    | _, _ => p

def parseWireguardConf (text : List Char) : Parsed := (splitLines text).foldl Parsed.line {}

/-! Checks -/

def requireKey (value : List Char) (field : String) : Except String (List Char) :=
  if value.length = 44 ∧ '\r' ∉ value ∧ '\n' ∉ value ∧ ((Base64.decode value).map List.length) = some 32 then
    .ok value
  else .error (field ++ " is missing or is not a WireGuard key")

def decimal (text : List Char) : ℕ := Nat.ofDigitChars 10 text 0

def isTable (table : List Char) : Bool :=
  table ≠ [] && table.headD ' ' ≠ '0' && table.all Char.isDigit && table.length ≤ 10

def checkTable (table : List Char) : Except String Unit :=
  if isTable table ∧ 256 ≤ decimal table ∧ decimal table ≤ 2147483647 then .ok ()
  else .error "EXIT_TABLE must be an unreserved table number (256..2147483647)"

/-- The leading ones of a mask of 32 bits, when only zeros follow. -/
def contiguous (x : ℕ) : Option ℕ :=
  let n := ((List.range 32).takeWhile fun i => x.testBit (31 - i)).length
  if n = 32 ∨ x <<< n % 2 ^ 32 = 0 then some n else none

/-- A netmask's or a hostmask's prefix length. -/
def maskLen (v : ℕ) : Option ℕ :=
  match contiguous v with
  | some n => some n
  | none => (contiguous (2 ^ 32 - 1 - v)).map fun n => 32 - n

def prefixLen (a : Addr) (text : List Char) : Option ℕ :=
  if text ≠ [] ∧ text.all Char.isDigit then
    if 3 < text.length then none
    else if decimal text ≤ a.bitLen then some (decimal text)
    else none
  else if !a.is4 then none
  else match Addr.parseAddr text with
    | none => none
    | some m => if m.is4 then maskLen m.val else none

structure IfaceAddr where
  addr : Addr
  bits : ℕ

def IfaceAddr.text (a : IfaceAddr) : List Char := a.addr.text.toList ++ '/' :: Nat.toDigits 10 a.bits

def parseInterface (text : List Char) : Option IfaceAddr :=
  let (host, rest) := match cut '/' text with
    | none => (text, none)
    | some (host, rest) => (host, some rest)
  if '%' ∈ host then none
  else match Addr.parseAddr host with
    | none => none
    | some a =>
      match rest with
      | none => some ⟨a, a.bitLen⟩
      | some rest => (prefixLen a rest).map fun n => ⟨a, n⟩

def addressParts (value : List Char) : List (List Char) :=
  ((value.splitOn ',').map strip).filter fun part => part ≠ []

def parseInterfaces : List (List Char) → Option (List IfaceAddr)
  | [] => some []
  | part :: rest =>
    match parseInterface part, parseInterfaces rest with
    | some a, some as => some (a :: as)
    | _, _ => none

/-- The endpoint's text before and after its last colon. -/
def splitEndpoint (endpoint : List Char) : List Char × List Char :=
  (cutLast ':' endpoint).getD ([], endpoint)

def isPort (port : List Char) : Bool :=
  1 ≤ port.length && port.length ≤ 5 && port.all Char.isDigit

/-- providers.NordAddress is this address with /32. -/
def nordHost : Addr := Addr.from4 10 5 0 2

/-! The configs -/

def joinLines (lines : List (List Char)) : List Char := ['\n'].intercalate lines

def mullvadText (privateKey publicKey host port table : List Char) (addrs : List IfaceAddr) : List Char :=
  let has6 := addrs.any fun a => !a.addr.is4
  joinLines [
    "# Generated by molebridge prepare-config. Keep mode 0600; never commit.".toList,
    "[Interface]".toList,
    "PrivateKey = ".toList ++ privateKey,
    "Address = ".toList ++ [',', ' '].intercalate (addrs.map IfaceAddr.text),
    "MTU = 1420".toList,
    "Table = off".toList,
    "PostUp = ".toList ++ (routeUp table ++ if has6 then routeUp6 table else []),
    "PreDown = ".toList ++ (routeDown table ++ if has6 then routeDown6 table else []),
    [],
    "[Peer]".toList,
    "PublicKey = ".toList ++ publicKey,
    "Endpoint = ".toList ++ (host ++ ':' :: port),
    "AllowedIPs = ".toList ++ (if has6 then "0.0.0.0/0, ::/0".toList else "0.0.0.0/0".toList),
    "PersistentKeepalive = 25".toList,
    []]

def buildTunnelConf (text table : List Char) : Except String (List Char) := do
  let conf := parseWireguardConf text
  let privateKey ← requireKey (conf.iface.get "PrivateKey") "Interface PrivateKey"
  let publicKey ← requireKey (conf.peer.get "PublicKey") "Peer PublicKey"
  let some parsed := parseInterfaces (addressParts (conf.iface.get "Address"))
    | .error "Interface Address is not valid"
  let n4 := parsed.countP fun a => a.addr.is4
  let n6 := parsed.countP fun a => !a.addr.is4
  if n4 = 0 then .error "Interface Address has no IPv4 tunnel address"
  if parsed.any fun a => a.addr = nordHost then
    .error "this is a NordVPN config; use prepare-config --nordvpn"
  if 1 < n4 ∨ 1 < n6 then .error "Interface Address has more than one address in a family"
  if parsed.any fun a => a.bits ≠ a.addr.bitLen then
    .error "Interface Address must be host addresses (/32 and /128)"
  let (host, port) := splitEndpoint (conf.peer.get "Endpoint")
  if (Addr.parseAddr host).elim true fun h => !h.is4 then
    .error "Peer Endpoint must be an IPv4 address and port"
  if !isPort port ∨ decimal port < 1 ∨ 65535 < decimal port then
    .error "Peer Endpoint port must be 1..65535"
  checkTable table
  return mullvadText privateKey publicKey host port table parsed

/-- The config without a peer that NordVPN's and PIA's tools write. -/
def peerless (comments : List String) (privateKey : List Char) (address : List (List Char)) (table : List Char) :
    List Char :=
  joinLines (comments.map String.toList ++
    ["[Interface]".toList, "PrivateKey = ".toList ++ privateKey] ++ address ++
    ["MTU = 1420".toList, "Table = off".toList, "PostUp = ".toList ++ routeUp table,
      "PreDown = ".toList ++ routeDown table, []])

def buildNordConf (privateKey table : List Char) (tool : String) : Except String (List Char) := do
  let _ ← requireKey privateKey "PrivateKey"
  checkTable table
  return peerless ["# Generated by molebridge " ++ tool ++ ". Keep mode 0600; never commit.",
    "# No peer: the applier sets it when a server is chosen."] privateKey ["Address = 10.5.0.2/32".toList] table

def buildNordVPNTunnelConf (text table : List Char) : Except String (List Char) := do
  let conf := parseWireguardConf text
  let privateKey ← requireKey (conf.iface.get "PrivateKey") "Interface PrivateKey"
  let [part] := addressParts (conf.iface.get "Address")
    | .error "Interface Address must be NordLynx's 10.5.0.2 and nothing else"
  if (parseInterface part).elim true fun a => a.addr ≠ nordHost then
    .error "Interface Address must be NordLynx's 10.5.0.2 and nothing else"
  buildNordConf privateKey table "prepare-config --nordvpn"

def buildPIAConf (privateKey table : List Char) : Except String (List Char) := do
  let _ ← requireKey privateKey "PrivateKey"
  checkTable table
  return peerless ["# Generated by molebridge prepare-config --pia. Keep mode 0600; never commit.",
    "# No tunnel address or peer: the applier sets both when it registers this key with PIA."]
    privateKey [] table

/-! What the tool was given -/

inductive Source where
  | mullvad (text : List Char)
  | nordvpn (text : List Char)
  | pia (privateKey : List Char)

def Source.provider : Source → TunnelConf.Provider
  | mullvad _ => .mullvad
  | nordvpn _ => .nordvpn
  | pia _ => .pia

def Source.build (table : List Char) : Source → Except String (List Char)
  | mullvad text => buildTunnelConf text table
  | nordvpn text => buildNordVPNTunnelConf text table
  | pia privateKey => buildPIAConf privateKey table

/-- The key, the addresses, and the peer's key and endpoint that an input gives. -/
structure Given where
  privateKey : Option (List ℕ)
  addrs : List Addr
  peer : Option (Option (List ℕ) × Option Addr × ℕ)

def givenAddrs (value : List Char) : List Addr :=
  ((parseInterfaces (addressParts value)).getD []).map IfaceAddr.addr

def Source.given : Source → Given
  | mullvad text =>
    let conf := parseWireguardConf text
    let (host, port) := splitEndpoint (conf.peer.get "Endpoint")
    { privateKey := Base64.decode (conf.iface.get "PrivateKey")
      addrs := givenAddrs (conf.iface.get "Address")
      peer := some (Base64.decode (conf.peer.get "PublicKey"), Addr.parseAddr host, decimal port) }
  | nordvpn text =>
    let conf := parseWireguardConf text
    { privateKey := Base64.decode (conf.iface.get "PrivateKey")
      addrs := givenAddrs (conf.iface.get "Address"), peer := none }
  | pia privateKey => { privateKey := Base64.decode privateKey, addrs := [], peer := none }

/-- A config has the key, the addresses, and the peer's key and endpoint that an input gives. -/
def Given.isIn (g : Given) (conf : Conf) : Prop :=
  g.privateKey = some conf.privateKey ∧ g.addrs.Perm (conf.addr4.toList ++ conf.addr6.toList) ∧
    g.peer = conf.peer.map fun p => (some p.publicKey, some p.endpoint.1, p.endpoint.2)

/-- An input without the forms that the exit does not take: a port with a leading zero, and an IPv6
address that maps an IPv4 one. -/
def Source.plain : Source → Bool
  | mullvad text =>
    let conf := parseWireguardConf text
    (splitEndpoint (conf.peer.get "Endpoint")).2.head? ≠ some '0' &&
      (givenAddrs (conf.iface.get "Address")).all fun a => !a.is4In6
  | _ => true

end Molebridge.PrepareConfig
