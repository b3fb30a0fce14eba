import Molebridge.Lib.Base64
import Molebridge.Spec.AddrText

/-! internal/tunnelconf (tunnelconf.go): the native exit's tunnel config, read line by line and
then validated. A text is the list of its characters. -/

namespace Molebridge.TunnelConf

open Text

inductive Provider where
  | mullvad
  | pia
  | nordvpn
deriving DecidableEq

structure Peer where
  publicKey : List ℕ
  endpoint : Addr × ℕ
  allowedIPs : List Prefix
  /-- 0 when the line is absent. -/
  keepalive : ℕ
deriving DecidableEq

structure Conf where
  provider : Provider
  privateKey : List ℕ
  addr4 : Option Addr
  addr6 : Option Addr
  mtu : ℕ
  table : ℕ
  peer : Option Peer
deriving DecidableEq

/-! Values -/

def isBlank (c : Char) : Bool := c == ' ' || c == '\t'

def blankTrim (s : List Char) : List Char := trim isBlank s

def v4Part (p : List Char) : Option ℕ :=
  if !(p = ['0'] || (p ≠ [] && (p.headD ' ' ≥ '1' && p.headD ' ' ≤ '9') && p.length ≤ 3)) then none
  else if !p.all (fun c => '0' ≤ c && c ≤ '9') then none
  else if 255 < Nat.ofDigitChars 10 p 0 then none
  else some (Nat.ofDigitChars 10 p 0)

def v4 (a : List Char) : Option Addr :=
  match a.splitOn '.' with
  | [p, q, r, s] =>
    match v4Part p, v4Part q, v4Part r, v4Part s with
    | some x, some y, some z, some w => some (Addr.from4 x y z w)
    | _, _, _, _ => none
  | _ => none

def isHex (c : Char) : Bool :=
  ('0' ≤ c && c ≤ '9') || ('a' ≤ c && c ≤ 'f') || ('A' ≤ c && c ≤ 'F')

def hexGroup (g : List Char) : Bool := g ≠ [] && g.length ≤ 4 && g.all isHex

/-- strings.ToLower, of hexadecimal digits and colons. -/
def lowered (s : List Char) : List Char := s.map Char.toLower

/-- One "::" at most, eight groups in all. -/
def v6Shape (a : List Char) : Bool :=
  match cutDouble ':' a with
  | some (head, tail) =>
    if (cutDouble ':' tail).isSome then false
    else
      let groups := Addr.colonFields head ++ Addr.colonFields tail
      groups.length ≤ 7 && groups.all hexGroup
  | none => (a.splitOn ':').length == 8 && (a.splitOn ':').all hexGroup

def v6 (a : List Char) : Option Addr :=
  if a = [] ∨ 39 < a.length then none
  else if !a.all (fun c => c == ':' || isHex c) then none
  else if !v6Shape a then none
  else match Addr.parseAddr (lowered a) with
    | none => none
    | some addr => if addr.is4 then none else some addr

/-- The characters of the alphabet whose low two bits are zero. -/
def finalChars : List Char := "AEIMQUYcgkosw048".toList

def isKeyChar (c : Char) : Bool :=
  ('A' ≤ c && c ≤ 'Z') || ('a' ≤ c && c ≤ 'z') || ('0' ≤ c && c ≤ '9') || c == '+' || c == '/'

def key (v : List Char) : Option (List ℕ) :=
  if v.length ≠ 44 ∨ v.drop 43 ≠ ['='] ∨ (v.drop 42).headD ' ' ∉ finalChars then none
  else if !(v.take 42).all isKeyChar then none
  else match Base64.decode v with
    | none => none
    | some raw => if raw.length = 32 then some raw else none

def number (v : List Char) (lo hi : ℕ) : Option ℕ :=
  if v = [] ∨ v.headD ' ' < '1' ∨ '9' < v.headD ' ' ∨ 5 < v.length then none
  else if !v.all (fun c => '0' ≤ c && c ≤ '9') then none
  else if lo ≤ Nat.ofDigitChars 10 v 0 ∧ Nat.ofDigitChars 10 v 0 ≤ hi then
    some (Nat.ofDigitChars 10 v 0)
  else none

/-! Lines -/

inductive Field where
  | privateKey | address | mtu | table | postUp | preDown
  | publicKey | endpoint | allowedIPs | persistentKeepalive
deriving DecidableEq

def Field.all : List Field :=
  [.privateKey, .address, .mtu, .table, .postUp, .preDown,
    .publicKey, .endpoint, .allowedIPs, .persistentKeepalive]

def Field.name : Field → String
  | privateKey => "PrivateKey"
  | address => "Address"
  | mtu => "MTU"
  | table => "Table"
  | postUp => "PostUp"
  | preDown => "PreDown"
  | publicKey => "PublicKey"
  | endpoint => "Endpoint"
  | allowedIPs => "AllowedIPs"
  | persistentKeepalive => "PersistentKeepalive"

inductive Section where
  | interface
  | peer
deriving DecidableEq

/-- sectionOf -/
def Field.sect : Field → Section
  | publicKey | endpoint | allowedIPs | persistentKeepalive => .peer
  | _ => .interface

def Field.ofName (k : List Char) : Option Field := Field.all.find? fun f => f.name.toList == k

/-- A field that was read: the number of its line, and its value. -/
structure Entry where
  line : ℕ
  value : List Char

structure Reading where
  interfaces : ℕ := 0
  peers : ℕ := 0
  sect : Option Section := none
  /-- The first problem. -/
  msg : Option String := none
  seen : Field → Option Entry := fun _ => none

def Reading.say (r : Reading) (m : String) : Reading := { r with msg := r.msg.or (some m) }

def Reading.field (r : Reading) (nr : ℕ) (line : List Char) : Reading :=
  match cut '=' line with
  | none => r.say ("unsupported field on line " ++ toString nr)
  | some (k, v) =>
    match Field.ofName (blankTrim k) with
    | none => r.say ("unsupported field on line " ++ toString nr)
    | some f =>
      if some f.sect ≠ r.sect then r.say ("unsupported field on line " ++ toString nr)
      else if (r.seen f).isSome then r.say (f.name ++ " appears more than once")
      else { r with seen := fun g => if g = f then some ⟨nr, blankTrim v⟩ else r.seen g }

def Reading.line (r : Reading) (nr : ℕ) (raw : List Char) : Reading :=
  let line := blankTrim raw
  if line = [] ∨ line.head? = some '#' then r
  else if line = "[Interface]".toList then
    let next := { r with interfaces := r.interfaces + 1, sect := some .interface }
    if r.interfaces ≠ 0 ∨ r.peers ≠ 0 then
      next.say ("[Interface] on line " ++ toString nr ++ " is not supported; it must come once, first")
    else next
  else if line = "[Peer]".toList then
    if r.interfaces = 0 then
      { r with sect := some .peer }.say ("[Peer] on line " ++ toString nr ++ " is not supported")
    else
      let next := { r with peers := r.peers + 1, sect := some .peer }
      if r.peers ≠ 0 then next.say ("[Peer] on line " ++ toString nr ++ " is not supported") else next
  else r.field nr line

def Reading.lines (r : Reading) (nr : ℕ) : List (List Char) → Reading
  | [] => r
  | raw :: rest => (r.line nr raw).lines (nr + 1) rest

/-- The text's lines, without the empty one after a final line break. -/
def linesOf (text : List Char) : List (List Char) :=
  if text = [] then []
  else if text.getLast? = some '\n' then (text.splitOn '\n').dropLast
  else text.splitOn '\n'

def read (text : List Char) : Reading := ({} : Reading).lines 1 (linesOf text)

/-! Validation -/

/-- A field that is there, or the refusal that it is missing. -/
def Reading.require (r : Reading) (f : Field) : Except String Entry :=
  match r.seen f with
  | none => .error (f.name ++ " is missing")
  | some e => .ok e

def Entry.invalid (e : Entry) (f : Field) : String :=
  f.name ++ " on line " ++ toString e.line ++ " is not valid"

/-- The fields of a list that are missing refuse the config, the first one first. -/
def Reading.requireAll (r : Reading) : List Field → Except String Unit
  | [] => .ok ()
  | f :: rest =>
    match r.require f with
    | .error m => .error m
    | .ok _ => r.requireAll rest

/-- The parts of Address, with the addresses found before them. -/
def addresses (addr4 addr6 : Option Addr) : List (List Char) → Option (Option Addr × Option Addr)
  | [] => some (addr4, addr6)
  | part :: rest =>
    let (a, p) := (cut '/' (blankTrim part)).getD (blankTrim part, [])
    match v4 a, p = [] || p = "32".toList, addr4 with
    | some addr, true, none => addresses (some addr) addr6 rest
    | _, _, _ =>
      match v6 a, p = [] || p = "128".toList, addr6 with
      | some addr, true, none => addresses addr4 (some addr) rest
      | _, _, _ => none

def interfaceAddrs (provider : Provider) (e : Entry) : Except String (Option Addr × Option Addr) :=
  match addresses none none (e.value.splitOn ',') with
  | none => .error (e.invalid .address)
  | some (addr4, addr6) =>
    if addr4.isNone ∨ addr6.isSome ∧ provider ≠ .mullvad then .error (e.invalid .address)
    else .ok (addr4, addr6)

def routeUp (table : List Char) : List Char := "ip route replace default dev %i table ".toList ++ table
def routeDown (table : List Char) : List Char := "ip route del default dev %i table ".toList ++ table
def routeUp6 (table : List Char) : List Char :=
  "; ip -6 route replace default dev %i table ".toList ++ table
def routeDown6 (table : List Char) : List Char :=
  "; ip -6 route del default dev %i table ".toList ++ table

def endpointOf (v : List Char) : Option (Addr × ℕ) :=
  match cut ':' v with
  | none => none
  | some (host, port) =>
    match v4 host, number port 1 65535 with
    | some a, some n => some (a, n)
    | _, _ => none

def peerOf (r : Reading) (hasAddr6 : Bool) : Except String Peer := do
  let publicKey ← r.require .publicKey
  let endpoint ← r.require .endpoint
  let allowedIPs ← r.require .allowedIPs
  let some pub := key publicKey.value | .error (publicKey.invalid .publicKey)
  let some ep := endpointOf endpoint.value | .error (endpoint.invalid .endpoint)
  let got := (allowedIPs.value.splitOn ',').map blankTrim
  let want := if hasAddr6 then "0.0.0.0/0,::/0".toList else "0.0.0.0/0".toList
  if [','].intercalate got ≠ want then .error (allowedIPs.invalid .allowedIPs)
  let prefixes := Prefix.default .v4 :: if hasAddr6 then [Prefix.default .v6] else []
  match r.seen .persistentKeepalive with
  | none => return ⟨pub, ep, prefixes, 0⟩
  | some e =>
    match number e.value 1 65535 with
    | none => .error (e.invalid .persistentKeepalive)
    | some n => return ⟨pub, ep, prefixes, n⟩

def validate (provider : Provider) (table : ℕ) (r : Reading) : Except String Conf := do
  if let some m := r.msg then .error m
  if r.interfaces = 0 then .error "[Interface] is missing"
  if 0 < r.peers ∧ provider ≠ .mullvad then .error "[Peer] is not supported for this provider"
  if r.peers = 0 ∧ provider = .mullvad then .error "[Peer] is missing"
  r.requireAll [.privateKey, .mtu, .table, .postUp, .preDown]
  if provider ≠ .pia ∧ (r.seen .address).isNone then .error "Address is missing"
  if provider = .pia then
    if let some e := r.seen .address then
      .error ("Address on line " ++ toString e.line ++ " is not supported for PIA")
  if provider = .mullvad then r.requireAll [.publicKey, .endpoint, .allowedIPs]
  let privateKey ← r.require .privateKey
  let some secret := key privateKey.value | .error (privateKey.invalid .privateKey)
  let (addr4, addr6) ← match r.seen .address with
    | none => .ok (none, none)
    | some e => interfaceAddrs provider e
  let mtu ← r.require .mtu
  let some size := number mtu.value 1280 1500 | .error (mtu.invalid .mtu)
  let off ← r.require .table
  if off.value ≠ "off".toList then .error (off.invalid .table)
  let t := Nat.toDigits 10 table
  let postUp ← r.require .postUp
  if postUp.value ≠ routeUp t ++ (if addr6.isSome then routeUp6 t else []) then
    .error (postUp.invalid .postUp)
  let preDown ← r.require .preDown
  if preDown.value ≠ routeDown t ++ (if addr6.isSome then routeDown6 t else []) then
    .error (preDown.invalid .preDown)
  if provider ≠ .mullvad then return ⟨provider, secret, addr4, addr6, size, table, none⟩
  let peer ← peerOf r addr6.isSome
  return ⟨provider, secret, addr4, addr6, size, table, some peer⟩

def parse (text : List Char) (provider : Provider) (table : ℕ) : Except String Conf :=
  validate provider table (read text)

end Molebridge.TunnelConf
