import Molebridge.Spec.Netip

/-! Rules, routes, links and addresses as internal/rtnl decodes them, and the
two ways it compares rules: the canonical items of a rule (`Rule.items`) and
the kernel's own test for a delete request (`deleteMatches`).

An optional attribute (`Opt`) is an `Option`. Numbers that are only compared
(priorities, tables, metrics, interface indexes) are `ℕ`; marks, flag words and
header bytes, whose bits the code works on, are bit vectors. -/

namespace Molebridge

def frActToTbl : ℕ := 1
def frActGoto : ℕ := 2
def frActNop : ℕ := 3
def frActBlackhole : ℕ := 6
def frActUnreachable : ℕ := 7
def frActProhibit : ℕ := 8

def fibRulePermanent : BitVec 32 := 0x1
def fibRuleInvert : BitVec 32 := 0x2
def fibRuleIifDetached : BitVec 32 := 0x8
def fibRuleOifDetached : BitVec 32 := 0x10

def rtnUnicast : ℕ := 1
def rtnBlackhole : ℕ := 6
def rtnUnreachable : ℕ := 7
def rtnProhibit : ℕ := 8
def rtnThrow : ℕ := 9

def rtProtoBoot : ℕ := 3
def rtScopeUniverse : ℕ := 0
def rtScopeLink : ℕ := 253

def rtnhFDead : BitVec 32 := 0x1
def rtnhFOnlink : BitVec 32 := 0x4
def rtnhFLinkdown : BitVec 32 := 0x10
def rtnhFUnresolved : BitVec 32 := 0x20

def tableMain : ℕ := 254
def tableLocal : ℕ := 255

def iffUp : BitVec 32 := 0x1

structure RawAttr where
  typ : ℕ
  data : List (BitVec 8)
deriving DecidableEq

structure Rule where
  family : Family := .v4
  priority : ℕ := 0
  action : ℕ := 0
  table : ℕ := 0
  flags : BitVec 32 := 0
  tos : BitVec 8 := 0
  src : Option Prefix := none
  dst : Option Prefix := none
  iifName : String := ""
  oifName : String := ""
  fwMark : Option (BitVec 32) := none
  fwMask : Option (BitVec 32) := none
  ipProto : Option (BitVec 8) := none
  suppressPrefixLen : Option ℕ := none
  suppressIfGroup : Option ℕ := none
  goto : Option ℕ := none
  l3Mdev : Option (BitVec 8) := none
  protocol : Option (BitVec 8) := none
  unknown : List RawAttr := []
  bad : Bool := false
deriving DecidableEq

/-- The selectors of a rule that `unknown` holds in raw form and the policy
model can evaluate; `other` is set when there is anything else. -/
structure Ext where
  uid : Option (ℕ × ℕ) := none
  sport : Option (ℕ × ℕ) := none
  dport : Option (ℕ × ℕ) := none
  dscp : Option (BitVec 8) := none
  other : Bool := false
deriving DecidableEq

/-- A host-order integer of the bytes of an attribute (little-endian). -/
def native (bytes : List (BitVec 8)) : ℕ :=
  bytes.foldr (fun b acc => b.toNat + 256 * acc) 0

def fraUIDRange : ℕ := 20
def fraSportRange : ℕ := 23
def fraDportRange : ℕ := 24
def fraDSCP : ℕ := 25

/-- One attribute read into the selectors found so far. -/
def Ext.read (e : Ext) (a : RawAttr) : Ext :=
  match a.data with
  | [b0, b1, b2, b3, b4, b5, b6, b7] =>
    if a.typ = fraUIDRange then
      { e with uid := some (native [b0, b1, b2, b3], native [b4, b5, b6, b7]) }
    else { e with other := true }
  | [b0, b1, b2, b3] =>
    if a.typ = fraSportRange then { e with sport := some (native [b0, b1], native [b2, b3]) }
    else if a.typ = fraDportRange then { e with dport := some (native [b0, b1], native [b2, b3]) }
    else { e with other := true }
  | [v] => if a.typ = fraDSCP then { e with dscp := some v } else { e with other := true }
  | _ => { e with other := true }

namespace Rule

def ext (r : Rule) : Ext := r.unknown.foldl Ext.read {}

/-- The firewall mark and mask a rule matches with. -/
def effectiveMark (r : Rule) : BitVec 32 × BitVec 32 :=
  let mark := r.fwMark.getD 0
  match r.fwMask with
  | some mask => (mark, mask)
  | none => (mark, if mark ≠ 0 then 0xffffffff else 0)

def invert (r : Rule) : Bool := r.flags &&& fibRuleInvert ≠ 0

def bookkeepingFlags : BitVec 32 := fibRulePermanent ||| fibRuleIifDetached ||| fibRuleOifDetached

/-- The semantic flag bits other than the inversion. -/
def extraFlags (r : Rule) : BitVec 32 := r.flags &&& ~~~(bookkeepingFlags ||| fibRuleInvert)

end Rule

/-- One canonical "key value" string of `Rule.items`, before it is printed. The
text of an item determines it, so two sorted lists of distinct texts are equal
exactly when the two sets of items are. -/
inductive Item where
  | inverted
  | srcAll
  | src (p : Prefix)
  | dst (p : Prefix)
  | tos (t : BitVec 8)
  | fwmark (mark mask : BitVec 32)
  | iif (name : String)
  | oif (name : String)
  | ipproto (p : BitVec 8)
  | l3mdev (v : BitVec 8)
  | suppressPrefixLen (n : ℕ)
  | suppressIfGroup (n : ℕ)
  | lookup (table : ℕ)
  | gotoTo (priority : ℕ)
  | gotoNone
  | nop
  | blackhole
  | unreachable
  | prohibit
  | action (n : ℕ)
  | table (n : ℕ)
  | flags (x : BitVec 32)
  | attr (a : RawAttr)
  | bad
deriving DecidableEq

namespace Item

open Addr (hexText)

def hexByte (b : BitVec 8) : String := hexText (b.toNat / 16) ++ hexText (b.toNat % 16)

def protoName (p : BitVec 8) : String :=
  if p = 1 then "icmp" else if p = 58 then "ipv6-icmp" else toString p.toNat

def text : Item → String
  | inverted => "not"
  | srcAll => "from all"
  | src p => "from " ++ p.text
  | dst p => "to " ++ p.text
  | tos t => "tos " ++ toString t.toNat
  | fwmark mark mask =>
    if mask = 0xffffffff then "fwmark 0x" ++ hexText mark.toNat
    else "fwmark 0x" ++ hexText mark.toNat ++ "/0x" ++ hexText mask.toNat
  | iif name => "iif " ++ name
  | oif name => "oif " ++ name
  | ipproto p => "ipproto " ++ protoName p
  | l3mdev v => "l3mdev " ++ toString v.toNat
  | suppressPrefixLen n => "suppress_prefixlength " ++ toString n
  | suppressIfGroup n => "suppress_ifgroup " ++ toString n
  | lookup t => "lookup " ++ toString t
  | gotoTo p => "goto " ++ toString p
  | gotoNone => "goto"
  | nop => "nop"
  | blackhole => "blackhole"
  | unreachable => "unreachable"
  | prohibit => "prohibit"
  | action n => "action " ++ toString n
  | table n => "table " ++ toString n
  | flags x => "flags 0x" ++ hexText x.toNat
  | attr a => "attr " ++ toString a.typ ++ ":" ++ String.join (a.data.map hexByte)
  | bad => "bad"

end Item

namespace Rule

def actionItem (r : Rule) : Item :=
  if r.action = frActToTbl then .lookup r.table
  else if r.action = frActGoto then r.goto.elim .gotoNone .gotoTo
  else if r.action = frActNop then .nop
  else if r.action = frActBlackhole then .blackhole
  else if r.action = frActUnreachable then .unreachable
  else if r.action = frActProhibit then .prohibit
  else .action r.action

/-- Rule.Items, in the order the code appends them; only membership counts. -/
def items (r : Rule) : List Item :=
  List.flatten [
    if r.invert then [.inverted] else [],
    [r.src.elim .srcAll fun p => .src p.masked],
    r.dst.elim [] fun p => [.dst p.masked],
    if r.tos ≠ 0 then [.tos r.tos] else [],
    if r.effectiveMark.2 ≠ 0 then [.fwmark r.effectiveMark.1 r.effectiveMark.2] else [],
    if r.iifName ≠ "" then [.iif r.iifName] else [],
    if r.oifName ≠ "" then [.oif r.oifName] else [],
    r.ipProto.elim [] fun p => [.ipproto p],
    r.l3Mdev.elim [] fun v => [.l3mdev v],
    r.suppressPrefixLen.elim [] fun n => [.suppressPrefixLen n],
    r.suppressIfGroup.elim [] fun n => [.suppressIfGroup n],
    [r.actionItem],
    if r.action ≠ frActToTbl ∧ r.table ≠ 0 then [.table r.table] else [],
    if r.action ≠ frActGoto then r.goto.elim [] (fun p => [.gotoTo p]) else [],
    if r.extraFlags ≠ 0 then [.flags r.extraFlags] else [],
    r.unknown.map .attr,
    if r.bad then [.bad] else []]

/-- The sorted, duplicate-free texts `Items` returns. -/
def itemTexts (r : Rule) : List String :=
  ((r.items.map Item.text).dedup).insertionSort fun a b => ¬ b < a

end Rule

/-- equalItems of two sorted, duplicate-free item lists. -/
def equalItems (a b : List Item) : Bool := a.all (b.contains ·) && b.all (a.contains ·)

def subsetOf (items want : List Item) : Bool := items.all (want.contains ·)

/-- A request sets a field to something other than zero and the rule differs. -/
def setDiffers {w : ℕ} (req x : Option (BitVec w)) : Bool :=
  req.elim false fun v => v ≠ 0 && req ≠ x

/-- A request carries an attribute and the rule differs. -/
def givenDiffers (req x : Option ℕ) : Bool := req.isSome && req ≠ x

/-- A request gives a prefix of nonzero length and the rule differs. -/
def prefixDiffers (req x : Option Prefix) : Bool :=
  req.elim false fun p => 0 < p.bits && req ≠ x

/-- Whether the kernel's rule delete would take `x` for the request `req`. -/
def deleteMatches (req x : Rule) : Bool :=
  [req.priority == x.priority,
    req.action == 0 || req.action == x.action,
    req.table == 0 || req.table == x.table,
    req.iifName == "" || req.iifName == x.iifName,
    req.oifName == "" || req.oifName == x.oifName,
    !setDiffers req.fwMark x.fwMark,
    !setDiffers req.fwMask x.fwMask,
    !givenDiffers req.suppressIfGroup x.suppressIfGroup,
    !givenDiffers req.suppressPrefixLen x.suppressPrefixLen,
    !setDiffers req.l3Mdev x.l3Mdev,
    !setDiffers req.ipProto x.ipProto,
    !setDiffers req.protocol x.protocol,
    !prefixDiffers req.src x.src,
    !prefixDiffers req.dst x.dst,
    req.tos == 0 || req.tos == x.tos,
    req.unknown.all (x.unknown.contains ·)].all id

structure Route where
  family : Family := .v4
  dst : Option Prefix := none
  table : ℕ := 0
  typ : ℕ := 0
  scope : ℕ := 0
  protocol : ℕ := 0
  flags : BitVec 32 := 0
  oif : Option ℕ := none
  gateway : Option Addr := none
  prefSrc : Option Addr := none
  metric : ℕ := 0
  tos : BitVec 8 := 0
  src : Option Prefix := none
  iif : Option ℕ := none
  via : Bool := false
  multiPath : Bool := false
  nhid : Option ℕ := none
  encap : Bool := false
deriving DecidableEq

namespace Route

/-- No TOS, source or input-interface selector narrows the route. -/
def unconditional (r : Route) : Bool := r.tos == 0 && r.src.isNone && r.iif.isNone

def isDefault (r : Route) : Bool := r.dst.elim false fun p => p.bits == 0

def onLink (r : Route) : Bool := r.flags &&& rtnhFOnlink ≠ 0

end Route

structure Link where
  index : ℕ := 0
  name : String := ""
  flags : BitVec 32 := 0
deriving DecidableEq

def Link.up (l : Link) : Bool := l.flags &&& iffUp ≠ 0

/-- rtnl.Addr: one interface address. -/
structure IfAddr where
  family : Family
  index : ℕ
  loc : Prefix
  scope : ℕ
deriving DecidableEq

def IfAddr.global (a : IfAddr) : Bool := a.scope == rtScopeUniverse

structure Snapshot where
  unstable : Bool := false
  rules : Family → List Rule := fun _ => []
  routes : Family → List Route := fun _ => []
  links : List Link := []
  addrs : Family → List IfAddr := fun _ => []

namespace Snapshot

def link (s : Snapshot) (name : String) : Option Link := s.links.find? (·.name == name)

def routesInTable (s : Snapshot) (f : Family) (table : ℕ) : List Route :=
  (s.routes f).filter (·.table == table)

/-- The first global-scope address of the family on the named interface. -/
def globalAddr (s : Snapshot) (name : String) (f : Family) : Option Addr :=
  (s.link name).bind fun l =>
    ((s.addrs f).find? fun a => a.index == l.index && a.global).map (·.loc.addr)

end Snapshot

end Molebridge
