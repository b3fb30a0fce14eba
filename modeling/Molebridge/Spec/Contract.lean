import Molebridge.Spec.Rtnl

/-! internal/contract: the rules and routes an exit namespace must hold
(`Spec.rules`), the comparison with what the kernel holds (`diff`,
`exitTableActions`) and the plan of one family (`Spec.planFamily`). -/

namespace Molebridge

inductive Backend where
  | native
  | gluetun
deriving DecidableEq

inductive Kind where
  | overlay
  | sidecar
deriving DecidableEq

def gluetunMark : BitVec 32 := 51820

structure Config where
  kind : Kind
  backend : Backend
  overlay : Option Prefix := none
  overlay6 : Option Prefix := none
  overlayIf : String := ""
  exitIf : String := ""
  table : ℕ := 0
  hostIf : String := ""
  hostTable : ℕ := 0
  controlMark : BitVec 32 := 0
  lan : List Prefix := []
  lan6 : List Prefix := []
deriving DecidableEq

namespace Config

def isGluetun (c : Config) : Bool := c.backend == .gluetun

def isNativeSidecar (c : Config) : Bool := c.kind == .sidecar && c.backend == .native

def isGluetunSidecar (c : Config) : Bool := c.kind == .sidecar && c.backend == .gluetun

/-- The native sidecar tunnel device's fwmark. -/
def tunnelMark (c : Config) : BitVec 32 := BitVec.ofNat 32 c.table

def lanFor (c : Config) : Family → List Prefix
  | .v6 => c.lan6
  | .v4 => c.lan

def overlayFor (c : Config) : Family → Option Prefix
  | .v6 => c.overlay6
  | .v4 => c.overlay

end Config

/-- ValidInterfaceName: one letter, digit or underscore, then up to fourteen of
those or a dot or a dash. -/
def validInterfaceName (name : String) : Bool :=
  let alnum (c : Char) := (c.isAlphanum || c == '_') && c.val < 128
  match name.toList with
  | [] => false
  | c :: rest => alnum c && rest.length ≤ 14 && rest.all fun c => alnum c || c == '.' || c == '-'

/-- What `ConfigFromEnv` checks of the interfaces and the table of a native overlay. -/
structure Config.NativeOverlay (c : Config) : Prop where
  kind : c.kind = .overlay
  backend : c.backend = .native
  overlayIf_valid : validInterfaceName c.overlayIf = true
  exitIf_valid : validInterfaceName c.exitIf = true
  differ : c.overlayIf ≠ c.exitIf
  table_ge : 256 ≤ c.table
  table_le : c.table ≤ 2147483647

def prioLocalGuard : ℕ := 1
def prioTempGuard : ℕ := 80
def prioMarkHost : ℕ := 88
def prioMarkReject : ℕ := 89
def prioFromTunnel : ℕ := 90
def prioOverlayMain : ℕ := 91
def prioOverlayReject : ℕ := 92
def prioTunnelMark : ℕ := 93
def prioReturnPath : ℕ := 94
def prioIngress : ℕ := 95
def prioEgress : ℕ := 96
def prioIngressReject : ℕ := 97
def prioBackstop : ℕ := 98
def prioGluetunMark : ℕ := 102
def prioHostSubnets : ℕ := 103
def prioKillSwitch : ℕ := 104

/-- The contract at one moment: what the kernel must hold, for both families. -/
structure Spec where
  config : Config
  returnPath : Family → List Addr := fun _ => []
  leaveReturnPath : Family → Bool := fun _ => false
  tempGuard : Family → Bool := fun _ => false

def icmp : Family → BitVec 8
  | .v6 => 58
  | .v4 => 1

def lookupRule (priority : ℕ) (f : Family) (table : ℕ) : Rule :=
  { family := f, priority := priority, action := frActToTbl, table := table }

def rejectRule (priority : ℕ) (f : Family) : Rule :=
  { family := f, priority := priority, action := frActUnreachable }

/-- Rule 94 for one tunnel address and, natively, the backstop at 98 behind it. -/
def returnPathPair (c : Config) (f : Family) (a : Addr) : List Rule :=
  { lookupRule prioReturnPath f c.table with
    src := some (Prefix.host a), ipProto := some (icmp f) } ::
  if c.isGluetun then []
  else [{ rejectRule prioBackstop f with
    src := some (Prefix.host a), ipProto := some (icmp f) }]

namespace Spec

/-- Whether a priority belongs to Molebridge for the backend. -/
def owned (s : Spec) (priority : ℕ) : Bool :=
  if s.config.isNativeSidecar then 1 ≤ priority && priority ≤ prioBackstop
  else if s.config.isGluetun then
    priority ≤ 97 || (prioGluetunMark ≤ priority && priority ≤ prioKillSwitch)
  else priority ≤ prioBackstop

/-- The priorities whose return-path rules are left out of the comparison. -/
def skipped (s : Spec) (f : Family) (priority : ℕ) : Bool :=
  !s.config.isGluetun && s.leaveReturnPath f &&
    (priority == prioReturnPath || priority == prioBackstop)

/-- Exactly rule 94 or 98 as the contract writes it for some address of the family. -/
def returnPathShaped (s : Spec) (f : Family) (r : Rule) : Bool :=
  match r.src with
  | none => false
  | some p =>
    r.family == f && p.bits == p.addr.bitLen && p.addr.fam == f &&
      (returnPathPair s.config f p.addr).any fun e =>
        e.priority == r.priority && equalItems r.items e.items

def localGuard (c : Config) (f : Family) : Rule :=
  { lookupRule prioLocalGuard f tableLocal with
    flags := fibRuleInvert, iifName := c.overlayIf }

def tempGuardRule (c : Config) (f : Family) : Rule :=
  { rejectRule prioTempGuard f with iifName := c.overlayIf }

/-- A rule with the exact firewall mark, for what the namespace sends. -/
def markedLo (r : Rule) (mark : BitVec 32) : Rule :=
  { r with iifName := "lo", fwMark := some mark, fwMask := some 0xffffffff }

def guardRules (s : Spec) (f : Family) : List Rule :=
  if s.config.isNativeSidecar then []
  else localGuard s.config f :: if s.tempGuard f then [tempGuardRule s.config f] else []

def controlRules (c : Config) (f : Family) : List Rule :=
  if c.isGluetun || c.isNativeSidecar then
    let table := if c.isNativeSidecar then tableMain else c.hostTable
    [markedLo (lookupRule prioMarkHost f table) c.controlMark,
     markedLo (rejectRule prioMarkReject f) c.controlMark]
  else []

def sidecarRules (c : Config) (f : Family) : List Rule :=
  if c.isNativeSidecar then
    ((c.lanFor f).map fun p =>
      { lookupRule prioFromTunnel f tableMain with iifName := "lo", dst := some p }) ++
    [markedLo (lookupRule prioTunnelMark f tableMain) c.tunnelMark]
  else []

def overlayRules (c : Config) (f : Family) : List Rule :=
  match c.overlayFor f with
  | none => []
  | some ov =>
    { lookupRule prioFromTunnel f tableMain with iifName := c.exitIf, dst := some ov } ::
    if c.isGluetun then
      [{ lookupRule prioOverlayMain f tableMain with
          iifName := "lo", dst := some ov, suppressPrefixLen := some 0 },
       { rejectRule prioOverlayReject f with iifName := "lo", dst := some ov }]
    else []

def ingressRules (c : Config) (f : Family) : List Rule :=
  if c.isNativeSidecar then
    [{ lookupRule prioEgress f c.table with iifName := "lo" },
     { rejectRule prioIngressReject f with iifName := "lo" }]
  else
    [{ lookupRule prioIngress f c.table with iifName := c.overlayIf },
     { lookupRule prioEgress f c.table with oifName := c.exitIf },
     { rejectRule prioIngressReject f with iifName := c.overlayIf }]

def killSwitchRules (c : Config) (f : Family) : List Rule :=
  if c.isGluetun then
    [markedLo (lookupRule prioGluetunMark f tableMain) gluetunMark,
     { lookupRule prioHostSubnets f c.hostTable with
        iifName := "lo", suppressPrefixLen := some 0 },
     { rejectRule prioKillSwitch f with iifName := "lo" }]
  else []

/-- The rules `Rules` adds, in the order it adds them. -/
def addedRules (s : Spec) (f : Family) : List Rule :=
  List.flatten [s.guardRules f, controlRules s.config f, sidecarRules s.config f,
    overlayRules s.config f, (s.returnPath f).flatMap (returnPathPair s.config f),
    ingressRules s.config f, killSwitchRules s.config f]

/-- The rules expected for a family, in priority order. -/
def rules (s : Spec) (f : Family) : List Rule :=
  if s.config.isGluetunSidecar then []
  else ((s.addedRules f).filter fun r => !s.skipped f r.priority).insertionSort
    fun a b => a.priority ≤ b.priority

def rulesAt (s : Spec) (f : Family) (priority : ℕ) : List Rule :=
  (s.rules f).filter (·.priority == priority)

/-- The tables a snapshot must contain to judge the contract. -/
def interest (s : Spec) : List ℕ :=
  s.config.table ::
    if s.config.isGluetun then [s.config.hostTable, tableMain]
    else if s.config.isNativeSidecar then [tableMain] else []

end Spec

/-! ### The comparison of rules -/

inductive ActionKind where
  | add
  | del
  | sub
deriving DecidableEq

structure Action where
  kind : ActionKind
  priority : ℕ
  rule : Rule
deriving DecidableEq

/-- The order missing rules go in: terminal rules first. -/
def addOrder : List ℕ := [97, 98, 89, 92, 102, 103, 104, 1, 80, 88, 90, 91, 94, 95, 96]

def sidecarAddOrder : List ℕ := [97, 96, 98, 89, 88, 90, 93, 94]

/-- The rule a protective copy one priority earlier stands in for. -/
def shifted (s : Spec) (f : Family) (a : Rule) : Rule :=
  if s.skipped f (a.priority + 1) then { a with priority := a.priority + 1 } else a

/-- The return-path shaped rules found at the priorities the Spec skips, once
each, in the order they were found. -/
def leftReturnPath (s : Spec) (f : Family) (actual : List Rule) : List Rule :=
  actual.foldl (fun out x =>
    let a := shifted s f x
    if !s.skipped f a.priority || !s.returnPathShaped f a then out
    else if out.any fun y => y.priority == a.priority && equalItems y.items a.items then out
    else out ++ [a]) []

/-- A kernel delete with `a`'s attributes could remove one of `rules` instead. -/
def deleteMayTake (a : Rule) (rules : List Rule) : Bool :=
  rules.any fun r => deleteMatches a r || subsetOf a.items r.items

def hasItems (rules : List Rule) (priority : ℕ) (want : Rule) : Bool :=
  rules.any fun r => r.priority == priority && equalItems r.items want.items

/-- A rule just below a priority Molebridge owns, at one it does not, that is
exactly an expected rule of the priority above. Priorities are 32-bit. -/
def leftoverCopy (s : Spec) (f : Family) (a : Rule) : Bool :=
  let above := (a.priority + 1) % 2 ^ 32
  above != 0 && s.owned above &&
    (s.rulesAt f above).any fun e => equalItems a.items e.items

/-- An expected rule and whether a rule of the kernel was matched with it. -/
abbrev Want := List (Rule × Bool)

/-- One actual rule against the expected rules of its priority: whether it is
kept, whether an expected rule covers it, and the marks after it. -/
def matchWant (a : Rule) : Want → Bool → Bool × Bool × Want
  | [], covered => (false, covered, [])
  | (e, m) :: rest, covered =>
    if e.priority ≠ a.priority then
      let (kept, c, w) := matchWant a rest covered
      (kept, c, (e, m) :: w)
    else if !m && equalItems a.items e.items then (true, covered, (e, true) :: rest)
    else
      let (kept, c, w) :=
        matchWant a rest (covered || subsetOf a.items e.items || deleteMatches a e)
      (kept, c, (e, m) :: w)

structure DiffState where
  want : Want
  removals : List Action := []
  subbed : List ℕ := []

def DiffState.del (st : DiffState) (a : Rule) : DiffState :=
  { st with removals := st.removals ++ [⟨.del, a.priority, a⟩] }

def DiffState.sub (st : DiffState) (a : Rule) : DiffState :=
  if st.subbed.contains a.priority then st
  else { st with
    removals := st.removals ++ [⟨.sub, a.priority, a⟩], subbed := a.priority :: st.subbed }

def diffStep (s : Spec) (f : Family) (left : List Rule) (st : DiffState) (a : Rule) :
    DiffState :=
  if !s.owned a.priority then
    if leftoverCopy s f a then st.del a else st
  else if s.skipped f a.priority then
    if s.returnPathShaped f a then st
    else if deleteMayTake a (left.filter (·.priority == a.priority)) then st.sub a
    else st.del a
  else if !(st.want.any fun w => w.1.priority == a.priority) then st.del a
  else
    let (kept, covered, want) := matchWant a st.want false
    if kept then { st with want := want }
    else if covered then st.sub a
    else st.del a

/-- Compares the rules of one family with the Spec and returns the actions that
restore the contract, in the order to apply them. -/
def diff (s : Spec) (f : Family) (actual : List Rule) (holdKillSwitch : Bool) : List Action :=
  let left := leftReturnPath s f actual
  let st := actual.foldl (diffStep s f left) { want := (s.rules f).map (·, false) }
  let order := if s.config.isNativeSidecar then sidecarAddOrder else addOrder
  let adds := order.flatMap fun p =>
    (st.want.filter fun w =>
      w.1.priority == p && !w.2 && !(p == prioKillSwitch && holdKillSwitch)).map
        fun w => Action.mk .add p w.1
  let back := [prioBackstop, prioReturnPath].flatMap fun p =>
    (left.filter fun l => l.priority == p && !hasItems actual p l).map fun l => Action.mk .add p l
  adds ++ back ++ st.removals

/-! ### The exit table -/

def fallbackMetric : ℕ := 4096

inductive TunnelMode where
  | none
  | required
  | maybe
deriving DecidableEq

inductive RouteActionKind where
  | addFallback
  | addTunnel
  | delRoute
deriving DecidableEq

structure RouteAction where
  kind : RouteActionKind
  route : Route
deriving DecidableEq

def fallbackRoute (f : Family) (table : ℕ) : Route :=
  { family := f, dst := some (Prefix.default f), table := table, typ := rtnUnreachable,
    metric := fallbackMetric, protocol := rtProtoBoot, scope := rtScopeUniverse }

def tunnelRoute (f : Family) (table ifIndex : ℕ) : Route :=
  { family := f, dst := some (Prefix.default f), table := table, typ := rtnUnicast,
    oif := some ifIndex, protocol := rtProtoBoot, scope := rtScopeLink }

def plainDeviceRoute (r : Route) : Bool :=
  r.gateway.isNone && !r.via && !r.multiPath && r.nhid.isNone

def isFallback (r : Route) : Bool :=
  r.typ == rtnUnreachable && r.isDefault && r.metric == fallbackMetric && r.unconditional &&
    (r.family != .v4 || r.scope == rtScopeUniverse)

def isTunnelRoute (r : Route) (exitIf : ℕ) : Bool :=
  r.typ == rtnUnicast && r.isDefault && exitIf != 0 && r.oif == some exitIf &&
    plainDeviceRoute r && decide (r.metric < fallbackMetric) && r.unconditional &&
    r.flags &&& rtnhFDead == 0 && (r.family != .v4 || r.scope == rtScopeLink)

/-- What the exit table scan has seen: the fallback, the tunnel route, the rest. -/
structure ExitScan where
  fallback : Bool := false
  found : Bool := false
  del : List RouteAction := []

def exitScan (exitIf : ℕ) (mode : TunnelMode) (st : ExitScan) (r : Route) : ExitScan :=
  if isFallback r && !st.fallback then { st with fallback := true }
  else if isTunnelRoute r exitIf && mode != .none && !st.found then { st with found := true }
  else { st with del := st.del ++ [⟨.delRoute, r⟩] }

/-- Compares the routes of the exit table in one family with the contract. -/
def exitTableActions (routes : List Route) (f : Family) (table exitIf : ℕ)
    (mode : TunnelMode) : List RouteAction :=
  let st := routes.foldl (exitScan exitIf mode) {}
  (if st.fallback then [] else [⟨.addFallback, fallbackRoute f table⟩]) ++
  (if mode = .required ∧ !st.found ∧ exitIf ≠ 0 then
    [⟨.addTunnel, tunnelRoute f table exitIf⟩] else []) ++ st.del

/-! ### The host table (gluetun) -/

structure HostRoute where
  dst : Option Prefix
  via : Option Addr
  src : Option Addr
  metric : ℕ
  onLink : Bool
deriving DecidableEq

namespace HostRoute

def kind (h : HostRoute) : ℕ := if h.via.isSome then 1 else 0

/-- The zero address comes before every other. -/
def addrLess : Option Addr → Option Addr → Bool
  | none, b => b.isSome
  | some _, none => false
  | some a, some b => a.less b

def dstText (h : HostRoute) : String := h.dst.elim "invalid Prefix" Prefix.text

def less (a b : HostRoute) : Bool :=
  if a.kind ≠ b.kind then a.kind < b.kind
  else if a.dst ≠ b.dst then a.dstText < b.dstText
  else if a.via ≠ b.via then addrLess a.via b.via
  else if a.src ≠ b.src then addrLess a.src b.src
  else if a.metric ≠ b.metric then a.metric < b.metric
  else !a.onLink && b.onLink

end HostRoute

/-- A route `HostRoutes` keeps: default or on-link, through the host interface. -/
def isHostRoute (hostIf : ℕ) (r : Route) : Bool :=
  r.typ == rtnUnicast && r.oif == some hostIf && hostIf != 0 &&
    !(r.via || r.nhid.isSome || r.encap || r.multiPath || !r.unconditional) &&
    !(r.gateway.isSome && !r.isDefault)

/-- HostRoutes: the host routes in order, and whether (with `check`) there is
any other route. -/
def hostRoutes (routes : List Route) (hostIf : ℕ) (check : Bool) : List HostRoute × Bool :=
  (((routes.filter (isHostRoute hostIf)).map fun r =>
      { dst := r.dst, via := r.gateway, src := r.prefSrc, metric := r.metric,
        onLink := r.onLink : HostRoute }).insertionSort fun a b => !b.less a,
   check && routes.any fun r => !isHostRoute hostIf r)

def hostTableMatches (main host : List HostRoute) (hostOdd : Bool) : Bool :=
  !hostOdd && main == host

def hasIPv4Default (l : List HostRoute) : Bool := l.any fun h => h.dst.elim false (·.bits == 0)

/-! ### The plan of one family -/

inductive Problem where
  | rules
  | exit
  | host
  | noDefault
  | unprotected
deriving DecidableEq

structure Plan where
  family : Family
  exitIf : Link
  hostIf : Link
  tunnel : TunnelMode
  address : Option Addr
  hostRefresh : Bool
  hostFlush : List Route
  hostWant : List HostRoute
  holdKillSwitch : Bool
  rules : List Action
  left : List Rule
  routes : List RouteAction
  unprotected : Bool
  effective : Spec
  problems : List Problem

namespace Plan

def clean (p : Plan) : Bool := p.rules.isEmpty && p.routes.isEmpty && !p.hostRefresh

def healthy (p : Plan) : Bool := p.clean && !p.unprotected && !p.problems.contains .noDefault

end Plan

def liveGlobals (snap : Snapshot) (ifName : String) (f : Family) : List Addr :=
  match snap.link ifName with
  | none => []
  | some link => (snap.addrs f).foldl (fun out a =>
      if a.index == link.index && a.global && !out.contains a.loc.addr then out ++ [a.loc.addr]
      else out) []

/-- A rule of the priority has the address as its source. -/
def hasSourceAt (rules : List Rule) (a : Addr) (priority : ℕ) : Bool :=
  rules.any fun r => (r.src.map (·.addr)) == some a && r.priority == priority

/-- Some live global address on the tunnel interface lacks its rule 94 (and,
natively, its rule 98). -/
def unprotected (snap : Snapshot) (c : Config) (f : Family) : Bool :=
  (liveGlobals snap c.exitIf f).any fun a =>
    !hasSourceAt (snap.rules f) a prioReturnPath ||
      (!c.isGluetun && !hasSourceAt (snap.rules f) a prioBackstop)

namespace Spec

def setReturnPath (s : Spec) (f : Family) (addrs : List Addr) : Spec :=
  { s with returnPath := Function.update s.returnPath f addrs }

/-- The expected state a plan is judged against: natively the Spec with the
pairs of the live addresses added, with gluetun the observed address. -/
def effective (s : Spec) (snap : Snapshot) (f : Family) : Spec :=
  if s.config.isGluetun then
    s.setReturnPath f (snap.globalAddr s.config.exitIf f).toList
  else if s.leaveReturnPath f then s
  else s.setReturnPath f ((liveGlobals snap s.config.exitIf f).foldl
    (fun out a => if out.contains a then out else out ++ [a]) (s.returnPath f))

/-- PlanFamily: judges one family of a snapshot. -/
def planFamily (s : Spec) (snap : Snapshot) (f : Family) (tunnelStarting : Bool) : Plan :=
  let c := s.config
  let exitIf := (snap.link c.exitIf).getD {}
  let up := exitIf.index != 0 && exitIf.up
  let spec := s.effective snap f
  let address := if c.isGluetun then snap.globalAddr c.exitIf f else none
  let tunnel : TunnelMode :=
    if c.isGluetun then if address.isSome && up then .required else .none
    else if tunnelStarting then .maybe
    else if up && (f == .v4 || !(spec.returnPath .v6).isEmpty) then .required
    else .none
  let hostIf := if c.isGluetun || c.isNativeSidecar then (snap.link c.hostIf).getD {} else {}
  let mainList := (hostRoutes (snap.routesInTable f tableMain) hostIf.index false).1
  let host := hostRoutes (snap.routesInTable f c.hostTable) hostIf.index true
  let refresh := c.isGluetun && !hostTableMatches mainList host.1 host.2
  let noDefault := c.isGluetun && !refresh && f == .v4 && !hasIPv4Default host.1
  let rules := diff spec f (snap.rules f) refresh
  let routes := exitTableActions (snap.routesInTable f c.table) f c.table exitIf.index tunnel
  let bare := Molebridge.unprotected snap c f
  { family := f, exitIf := exitIf, hostIf := hostIf, tunnel := tunnel, address := address,
    hostRefresh := refresh,
    hostFlush := if refresh then snap.routesInTable f c.hostTable else [],
    hostWant := if refresh then mainList else [],
    holdKillSwitch := refresh, rules := rules,
    left := leftReturnPath spec f (snap.rules f), routes := routes, unprotected := bare,
    effective := spec,
    problems := List.flatten [if refresh then [.host] else [], if noDefault then [.noDefault] else [],
      if rules.isEmpty then [] else [.rules], if bare then [.unprotected] else [],
      if routes.isEmpty then [] else [.exit]] }

end Spec

end Molebridge
