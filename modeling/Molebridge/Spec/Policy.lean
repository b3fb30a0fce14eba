import Molebridge.Lib.FirstMin
import Molebridge.Spec.Contract

/-! internal/policy, the model of a lookup: the state that is judged, what a
deletion and an addition do to it, and the walk of a packet through the rules
(`State.walk`), which returns every place the packet can end. -/

namespace Molebridge

/-- What the model judges. `routes` holds, per family, the tables that were read
with their routes (the Go map's entries); `known` is the key set of `Known`. -/
structure State where
  spec : Spec
  rules : Family → List Rule := fun _ => []
  routes : Family → List (ℕ × List Route) := fun _ => []
  known : List ℕ := []
  live : Family → List Addr := fun _ => []
  locals : Family → List Addr := fun _ => []
  exitIdx : ℕ := 0
  hostIdx : ℕ := 0
  overlayIdx : ℕ := 0

def sortedRules (rules : List Rule) : List Rule :=
  rules.insertionSort fun a b => a.priority ≤ b.priority

namespace State

/-- The routes of one table; none for a table that was not read. -/
def tableRoutes (s : State) (f : Family) (table : ℕ) : List Route :=
  ((s.routes f).lookup table).getD []

def linkIndex (snap : Snapshot) (name : String) : ℕ := ((snap.link name).map (·.index)).getD 0

/-- FromSnapshot: the state of a snapshot taken for `spec.interest`. -/
def fromSnapshot (spec : Spec) (snap : Snapshot) : State :=
  let c := spec.config
  let known := spec.interest.dedup
  { spec := spec, known := known,
    exitIdx := linkIndex snap c.exitIf,
    hostIdx := if c.hostIf = "" then 0 else linkIndex snap c.hostIf,
    overlayIdx := linkIndex snap c.overlayIf,
    rules := fun f => sortedRules (snap.rules f),
    routes := fun f => known.map fun t => (t, snap.routesInTable f t),
    locals := fun f => (snap.addrs f).map (·.loc.addr),
    live := fun f => match snap.link c.exitIf with
      | none => []
      | some link => ((snap.addrs f).filter fun a => a.index == link.index && a.global).map
          (·.loc.addr) }

def setRules (s : State) (f : Family) (rules : List Rule) : State :=
  { s with rules := Function.update s.rules f rules }

/-- Replaces the routes of a table that is present. -/
def setTable (s : State) (f : Family) (table : ℕ) (routes : List Route) : State :=
  let entries := (s.routes f).map fun e => if e.1 = table then (e.1, routes) else e
  { s with routes := Function.update s.routes f entries }

/-- The state after the kernel deletes the first rule the request names, and
whether there was one. -/
def withoutRule (s : State) (req : Rule) : State × Bool :=
  if (s.rules req.family).any (deleteMatches req) then
    (s.setRules req.family ((s.rules req.family).eraseP (deleteMatches req)), true)
  else (s, false)

/-- The state after the kernel deletes the first rule at a priority. -/
def withoutPriority (s : State) (f : Family) (priority : ℕ) : State × Bool :=
  if (s.rules f).any (·.priority == priority) then
    (s.setRules f ((s.rules f).eraseP (·.priority == priority)), true)
  else (s, false)

/-- A rule goes in after the rules of its priority already there. -/
def insertRule (r : Rule) (rules : List Rule) : List Rule :=
  rules.takeWhile (fun x => x.priority ≤ r.priority) ++
    r :: rules.dropWhile (fun x => x.priority ≤ r.priority)

def withRule (s : State) (r : Rule) : State :=
  s.setRules r.family (insertRule r (s.rules r.family))

/-- A route of the same destination, TOS and metric, which NLM_F_REPLACE replaces. -/
def sameSlot (r x : Route) : Bool :=
  x.dst == r.dst && x.tos == r.tos && x.metric == r.metric &&
    (r.family == .v4 || x.src == r.src)

/-- Replaces the first route of the slot, or appends the route. -/
def replaceRoute (r : Route) : List Route → List Route
  | [] => [r]
  | x :: rest => if sameSlot r x then r :: rest else x :: replaceRoute r rest

def withRoute (s : State) (r : Route) : State :=
  match (s.routes r.family).lookup r.table with
  | none => s
  | some routes => s.setTable r.family r.table (replaceRoute r routes)

/-- The route a delete request names: fib_table_delete for IPv4, ip6_route_del
for IPv6. -/
def routeDeleteMatches (r x : Route) : Bool :=
  x.dst == r.dst && (r.metric == 0 || x.metric == r.metric) &&
  (r.oif.isNone || x.oif == r.oif) && (r.gateway.isNone || x.gateway == r.gateway) &&
  match r.family with
  | .v4 => (r.tos == 0 || x.tos == r.tos) && (r.typ == 0 || x.typ == r.typ) &&
      x.scope == r.scope && (r.protocol == 0 || x.protocol == r.protocol)
  | .v6 => r.src.elim true fun p => p.bits == 0 || x.src == r.src

def withoutRoute (s : State) (r : Route) : State × Bool :=
  match (s.routes r.family).lookup r.table with
  | none => (s, false)
  | some routes =>
    if routes.any (routeDeleteMatches r) then
      (s.setTable r.family r.table (routes.eraseP (routeDeleteMatches r)), true)
    else (s, false)

end State

/-! ### Outcomes -/

inductive OutKind where
  | stopped
  | loc
  | viaDev
  | viaTable
deriving DecidableEq

def unknownDev : ℕ := 2 ^ 32 - 1

/-- Where a lookup can end. `byRule` names the rule whose action ended the walk,
`cond` the decisions the model could not make on the way. -/
structure Outcome where
  kind : OutKind
  table : ℕ := 0
  dev : ℕ := 0
  byRule : BitVec 64 := 0
  cond : BitVec 64 := 0
deriving DecidableEq

/-- Where the packet ends, not how it got there. -/
def Outcome.place (o : Outcome) : Outcome := { o with byRule := 0, cond := 0 }

def Outcome.same (o x : Outcome) : Bool := o.place == x.place

def Outcome.text (o : Outcome) : String :=
  match o.kind with
  | .stopped => "stopped"
  | .loc => "local delivery"
  | .viaTable => "table " ++ toString o.table ++ " (not read)"
  | .viaDev =>
    if o.dev = unknownDev then
      "a route of table " ++ toString o.table ++ " out of an unknown device"
    else "a route of table " ++ toString o.table ++ " out of interface " ++ toString o.dev

/-! ### Packets -/

structure Packet where
  f : Family
  iif : String
  mark : BitVec 32
  proto : BitVec 8
  src : Option Addr
  dst : Addr
  tos : BitVec 8
  sport : BitVec 16
  dport : BitVec 16
  uid : BitVec 32
  l3 : Bool
deriving DecidableEq

def Packet.text (p : Packet) : String :=
  let hex (n : ℕ) := "0x" ++ Addr.hexText n
  let bound := p.src.filter fun a => !a.isUnspecified
  String.join [p.f.text, " packet in on ", p.iif, " mark ", hex p.mark.toNat, " ipproto ",
    toString p.proto.toNat, " from ", bound.elim "unbound" Addr.text, " to ", p.dst.text,
    if p.tos ≠ 0 then " tos " ++ hex p.tos.toNat else "",
    if p.sport ≠ 0 ∨ p.dport ≠ 0 then
      " ports " ++ toString p.sport.toNat ++ ">" ++ toString p.dport.toNat else "",
    if p.uid ≠ 0 then " uid " ++ toString p.uid.toNat else "",
    if p.l3 then " in a VRF" else ""]

inductive Tri where
  | no
  | yes
  | maybe
deriving DecidableEq

/-- A prefix selector of nonzero length that the address is not in. -/
def outside (p : Option Prefix) (a : Option Addr) : Bool :=
  p.elim false fun p => 0 < p.bits && !(a.elim false p.contains)

def outsideRange (r : Option (ℕ × ℕ)) (v : ℕ) : Bool :=
  r.elim false fun r => v < r.1 || r.2 < v

/-- The part of `matches` the model decides: every selector it can evaluate
accepts the packet. -/
def selectorsAccept (r : Rule) (p : Packet) : Bool :=
  [r.iifName == "" || r.iifName == p.iif,
    -- a forwarded packet has no output interface at the lookup
    r.oifName == "" || p.iif == "lo",
    !outside r.src p.src,
    !outside r.dst (some p.dst),
    (r.effectiveMark.1 ^^^ p.mark) &&& r.effectiveMark.2 == 0,
    !(r.ipProto.elim false fun v => v != 0 && v != p.proto),
    r.tos == 0 || r.tos == p.tos,
    !(r.l3Mdev.elim false fun v => v != 0 && !p.l3),
    !outsideRange r.ext.uid p.uid.toNat,
    !outsideRange r.ext.sport p.sport.toNat,
    !outsideRange r.ext.dport p.dport.toNat,
    !(r.ext.dscp.elim false fun d => p.tos >>> 2 != d)].all id

/-- A selector the model cannot evaluate decides the match. -/
def undecided (r : Rule) (p : Packet) : Bool :=
  r.ext.other || r.bad || r.extraFlags ≠ 0 || (r.oifName ≠ "" && p.iif == "lo")

def ruleMatches (r : Rule) (p : Packet) : Tri :=
  if selectorsAccept r p then
    if undecided r p then .maybe else if r.invert then .no else .yes
  else if r.invert then .yes else .no

/-! ### Lookups -/

/-- What one route does with a packet; `none` goes on to the next rule. -/
def disposition (rt : Route) : Option Outcome :=
  if rt.typ = rtnUnreachable ∨ rt.typ = rtnBlackhole ∨ rt.typ = rtnProhibit then
    some { kind := .stopped }
  else if rt.typ = rtnThrow then none
  else match rt.oif with
    | some dev =>
      if rt.typ = rtnUnicast ∧ !rt.multiPath ∧ rt.nhid.isNone ∧ !rt.via ∧ !rt.encap then
        some { kind := .viaDev, table := rt.table, dev := dev }
      else some { kind := .viaDev, table := rt.table, dev := unknownDev }
    | none => some { kind := .viaDev, table := rt.table, dev := unknownDev }

/-- The route is dead, down or unresolved: it may or may not be used. -/
def Route.faulty (rt : Route) : Bool :=
  rt.flags &&& (rtnhFDead ||| rtnhFLinkdown ||| rtnhFUnresolved) ≠ 0

def Route.len (rt : Route) : ℕ := rt.dst.elim 0 (·.bits)

/-- The order of the routes that cover a destination: the longest prefix first,
then (IPv4) a route with a TOS before one without, then by metric. -/
def routeLess (v4 : Bool) (a b : Route) : Bool :=
  if a.len ≠ b.len then b.len < a.len
  else if v4 && (a.tos ≠ 0) != (b.tos ≠ 0) then a.tos ≠ 0
  else a.metric < b.metric

namespace State

/-- Whether a route can answer the packet; its TOS, source and input-interface
selectors are evaluated. -/
def routeApplies (s : State) (rt : Route) (p : Packet) : Tri :=
  let live : Tri := if rt.faulty then .maybe else .yes
  if rt.family = .v4 ∧ rt.tos ≠ 0 ∧ rt.tos ≠ p.tos then .no
  else if outside rt.src p.src then .no
  else match rt.iif with
    | none => live
    | some iif =>
      if p.iif = s.spec.config.overlayIf ∧ s.overlayIdx ≠ 0 then
        if iif ≠ s.overlayIdx then .no else live
      else if p.iif = "lo" then if iif ≠ 1 then .no else live
      else .maybe

/-- The routes of a table that cover the packet's destination, in the kernel's order. -/
def candidates (s : State) (p : Packet) (table : ℕ) : List Route :=
  insertSort (routeLess (p.f == .v4))
    ((s.tableRoutes p.f table).filter fun rt => rt.dst.elim false (·.contains p.dst))

/-- The closure `add` of `lookup`: one route's disposition under the rule's
suppressors. -/
def addRoute (r : Rule) (rt : Route) (acc : List Outcome × Bool) : List Outcome × Bool :=
  match disposition rt with
  | none => (acc.1, true)
  | some o =>
    if o.kind = .stopped then (acc.1 ++ [o], acc.2)
    else if r.suppressPrefixLen.elim false (rt.len ≤ ·) then (acc.1, true)
    else (acc.1 ++ [o], acc.2 || r.suppressIfGroup.isSome)

/-- The candidates one after another: up to the first that surely applies. -/
def scanRoutes (s : State) (r : Rule) (p : Packet) :
    List Route → List Outcome × Bool → List Outcome × Bool
  | [], acc => (acc.1, true)
  | rt :: rest, acc =>
    match s.routeApplies rt p with
    | .no => scanRoutes s r p rest acc
    | .maybe => scanRoutes s r p rest (addRoute r rt acc)
    | .yes => addRoute r rt acc

def isLocal (s : State) (f : Family) (a : Addr) : Bool := (s.locals f).contains a || a.isLoopback

/-- The outcomes a rule's lookup can end the search in, and whether the search
can go on to the next rule. -/
def lookup (s : State) (r : Rule) (p : Packet) : List Outcome × Bool :=
  if r.table = tableLocal then
    if s.isLocal p.f p.dst then ([{ kind := .loc, table := r.table }], false) else ([], true)
  else if !s.known.contains r.table then ([{ kind := .viaTable, table := r.table }], true)
  else s.scanRoutes r p (s.candidates p r.table) ([], false)

end State

/-! ### The rule walk -/

/-- ruleKey names a rule by its priority and selectors. -/
def ruleKey (r : Rule) : String :=
  toString r.priority ++ " [" ++ String.intercalate " " r.itemTexts ++ "]"

def endHash : BitVec 64 := 0x9e3779b97f4a7c15

/-- hash/fnv's New64a. -/
def fnv64a (bytes : List UInt8) : BitVec 64 :=
  bytes.foldl (fun h b => (h ^^^ BitVec.ofNat 64 b.toNat) * 0x100000001b3) 0xcbf29ce484222325

@[irreducible] def ruleHash (r : Rule) : BitVec 64 :=
  fnv64a (ruleKey r).toUTF8.toList ||| 1

/-- mix combines a decision into a sequence of decisions, order sensitive. -/
@[irreducible] def mix (decision seq : BitVec 64) : BitVec 64 :=
  let x := seq * 0x9e3779b97f4a7c15 + decision + 0x7f4a7c15
  let x := (x ^^^ (x >>> 29)) * 0xbf58476d1ce4e5b9
  x ^^^ (x >>> 32)

def union (a b : List Outcome) : List Outcome :=
  b.foldl (fun out o => if out.contains o then out else out ++ [o]) a

/-- Records a decision the model could not make on the outcomes it led to. -/
def tag (set : List Outcome) (decision : BitVec 64) : List Outcome :=
  set.map fun o => { o with cond := mix decision o.cond }

namespace State

/-- What a rule that is taken leads to: `next` are the outcomes of the rest of
the walk, `sets` those of the walk that arrives at each later rule. -/
def taken (s : State) (p : Packet) (r : Rule) (later : List Rule) (sets : List (List Outcome)) :
    List Outcome :=
  let next := sets.headD []
  if r.action = frActToTbl then
    let (outs, fall) := s.lookup r p
    let outs := outs.map fun o => { o with byRule := ruleHash r }
    if !fall then outs
    else if outs.isEmpty then next
    else union (tag outs (mix (ruleHash r) 1)) (tag next (mix (ruleHash r) 2))
  else if r.action = frActUnreachable ∨ r.action = frActProhibit ∨ r.action = frActBlackhole then
    [{ kind := .stopped, byRule := ruleHash r }]
  else if r.action = frActGoto then
    match r.goto with
    | none => next
    | some target =>
      match later.findIdx? (·.priority == target) with
      | none => next
      | some j => sets.getD j []
  else next

/-- The outcomes of the walk that arrives at a rule. A rule the model cannot
decide is followed both ways. -/
def arrive (s : State) (p : Packet) (r : Rule) (later : List Rule) (sets : List (List Outcome)) :
    List Outcome :=
  match ruleMatches r p with
  | .no => sets.headD []
  | .yes => s.taken p r later sets
  | .maybe => union (tag (s.taken p r later sets) (mix (ruleHash r) 3))
      (tag (sets.headD []) (mix (ruleHash r) 4))

/-- `sets` of the code, from the end: the outcomes of the walk that arrives at
each rule, and last those of a walk no rule answered. -/
def walkSets (s : State) (p : Packet) : List Rule → List (List Outcome)
  | [] => [[{ kind := .stopped, byRule := endHash }]]
  | r :: later =>
    let sets := walkSets s p later
    s.arrive p r later sets :: sets

def walk (s : State) (p : Packet) : List Outcome := (s.walkSets p (s.rules p.f)).headD []

end State

end Molebridge
