import Molebridge.Spec.Policy

/-! internal/contract/status.go: the checks that call the routing of a family
ready (`familyStatus`), safe while gluetun reconnects (`gluetunTransitionStatus`)
and protected (`routingStatus`). They compare rules and routes on their own,
without the repair's plan. -/

namespace Molebridge

namespace Rule

def iifDetached (r : Rule) : Bool := r.flags &&& fibRuleIifDetached ≠ 0

def oifDetached (r : Rule) : Bool := r.flags &&& fibRuleOifDetached ≠ 0

/-- The rule with its interfaces attached. -/
def attached (r : Rule) : Rule := { r with flags := r.flags &&& ~~~(fibRuleIifDetached ||| fibRuleOifDetached) }

end Rule

def Route.linkDown (r : Route) : Bool := r.flags &&& rtnhFLinkdown ≠ 0

/-- `tunnelAddress` is the family's address on the exit interface, `none` when the
tunnel does not carry the family; `exitIfIndex` is 0 when there is no interface. -/
structure StatusOptions where
  tunnelAddress : Option Addr := none
  noTunnelRoute : Bool := false
  exitIfIndex : ℕ := 0

/-- Inverted, the overlay interface the only selector. -/
def guardShape (r : Rule) (overlayIf : String) : Bool :=
  !(r.iifName != overlayIf || r.src.isSome || r.dst.isSome || r.oifName != "" || r.tos != 0 ||
    r.fwMark.isSome || r.fwMask.isSome || r.ipProto.isSome || r.suppressPrefixLen.isSome ||
    r.suppressIfGroup.isSome || r.goto.isSome || r.l3Mdev.isSome || !r.unknown.isEmpty ||
    r.extraFlags != 0 || r.bad)

/-- The rule looks up the local table and could match what arrives on the overlay. -/
def localRuleAdmitsOverlay (r : Rule) (overlayIf : String) : Bool :=
  if r.action ≠ frActToTbl ∨ r.table ≠ tableLocal then false
  else if r.invert then !guardShape r overlayIf
  else r.iifName == "" || r.iifName == overlayIf

def exactRule (r want : Rule) : Bool :=
  !r.iifDetached && !r.oifDetached && equalItems r.items want.items

/-- The expected rules with the mark of those found so far, and whether every rule
seen so far may stand. -/
structure RuleScan where
  found : List (Rule × Bool)
  rulesOK : Bool := true

/-- Marks the first expected rule that is not found yet and that `r` is. -/
def claimFound (r : Rule) : List (Rule × Bool) → Option (List (Rule × Bool))
  | [] => none
  | (want, seen) :: rest =>
    if !seen && r.priority == want.priority && exactRule r want then some ((want, true) :: rest)
    else (claimFound r rest).map ((want, seen) :: ·)

def RuleScan.see (spec : Spec) (st : RuleScan) (r : Rule) : RuleScan :=
  let st := if !spec.config.isNativeSidecar && localRuleAdmitsOverlay r spec.config.overlayIf then
    { st with rulesOK := false } else st
  if !spec.owned r.priority then st
  else match claimFound r st.found with
    | some found => { st with found := found }
    | none => { st with rulesOK := false }

/-- What the status check has seen of the exit table. -/
structure RouteScan where
  routesOK : Bool := true
  fallback : Bool := false
  tunnelDefault : Bool := false

def RouteScan.see (exitIfIndex : ℕ) (st : RouteScan) (r : Route) : RouteScan :=
  if isFallback r then { st with fallback := true }
  else if r.typ == rtnUnicast && exitIfIndex != 0 && r.oif == some exitIfIndex && plainDeviceRoute r then
    if isTunnelRoute r exitIfIndex && !r.linkDown then { st with tunnelDefault := true } else st
  else { st with routesOK := false }

/-- The Spec a status check compares with: no return path but the given address. -/
def Spec.statusSpec (spec : Spec) (f : Family) (address : Option Addr) : Spec :=
  { config := spec.config
    returnPath := fun g => if g = f then address.toList else [] }

/-- FamilyStatus: whether the family holds the whole contract exactly, and whether
the exit table's fallback is in place. -/
def familyStatus (spec : Spec) (f : Family) (rules : List Rule) (routes : List Route) (opt : StatusOptions) :
    Bool × Bool :=
  if opt.tunnelAddress.any (·.fam != f) then (false, false)
  else
    let st := spec.statusSpec f opt.tunnelAddress
    let scan := rules.foldl (RuleScan.see st) { found := (st.rules f).map (·, false) }
    let rulesOK := scan.rulesOK && scan.found.all (·.2)
    let table := routes.foldl (RouteScan.see opt.exitIfIndex) {}
    let tunnelOK := table.tunnelDefault || opt.tunnelAddress.isNone || opt.noTunnelRoute
    (rulesOK && table.routesOK && table.fallback && tunnelOK, table.fallback)

structure TransitionOptions where
  tunnelAddress : Option Addr := none
  previousAddress : Option Addr := none
  interfacePresent : Bool := false
  interfaceUp : Bool := false
  exitIfIndex : ℕ := 0

/-- The rules apart from those at 94, with rules 90 and 96 attached while the exit
interface is absent. -/
def adjustedRules (interfacePresent : Bool) (rules : List Rule) : List Rule :=
  (rules.filter (·.priority != prioReturnPath)).map fun r =>
    if (r.priority == prioFromTunnel || r.priority == prioEgress) && !interfacePresent then r.attached else r

/-- The address of those allowed whose rule 94 the rule is. -/
def returnPathHit (spec : Spec) (f : Family) (allowed : List Addr) (r : Rule) : Option Addr :=
  allowed.foldl (fun hit a =>
    let s := { spec with returnPath := fun g => if g = f then [a] else [] }
    if (s.rules f).any fun e => e.priority == prioReturnPath && exactRule r e then some a else hit) none

/-- Every rule is rule 94 of an allowed address, each at most once. -/
def returnPathsMatch (spec : Spec) (f : Family) (allowed : List Addr) : List Rule → List Addr → Bool
  | [], _ => true
  | r :: rest, matched =>
    match returnPathHit spec f allowed r with
    | none => false
    | some a => !matched.contains a && returnPathsMatch spec f allowed rest (a :: matched)

/-- GluetunTransitionStatus: safe while a switch is verified, and ready. -/
def gluetunTransitionStatus (spec : Spec) (f : Family) (rules : List Rule) (routes : List Route)
    (opt : TransitionOptions) : Bool × Bool :=
  let ready := (familyStatus spec f rules routes
    { tunnelAddress := opt.tunnelAddress, noTunnelRoute := !opt.interfaceUp, exitIfIndex := opt.exitIfIndex }).1
  if ready then (true, true)
  else
    let allowed := (opt.previousAddress.toList ++ opt.tunnelAddress.toList).eraseDups
    if allowed.any (·.fam != f) then (false, false)
    else if !returnPathsMatch spec f allowed (rules.filter (·.priority == prioReturnPath)) [] then (false, false)
    else ((familyStatus spec f (adjustedRules opt.interfacePresent rules) routes
      { exitIfIndex := opt.exitIfIndex }).1, false)

structure RoutingOptions where
  requireAddress : Bool := false
  returnPath : Bool := false

/-- RoutingStatus: whether both families are protected, and whether both fallbacks
are in place. -/
def routingStatus (spec : Spec) (snap : Snapshot) (opt : RoutingOptions) : Bool × Bool :=
  let c := spec.config
  if !c.isNativeSidecar && (snap.link c.overlayIf).isNone then (false, false)
  else match snap.link c.exitIf with
    | none => (false, false)
    | some link =>
      let addresses := fun f => ((snap.addrs f).filter fun a => a.index == link.index && a.global).map (·.loc.addr)
      if 1 < (addresses .v4).length ∨ 1 < (addresses .v6).length then (false, false)
      else if (addresses .v4).isEmpty && opt.requireAddress then (false, false)
      else
        let status := fun f => familyStatus spec f (snap.rules f) (snap.routesInTable f c.table)
          { tunnelAddress := (addresses f).head?, exitIfIndex := link.index }
        ((opt.returnPath || c.isNativeSidecar) && (status .v4).1 && (status .v6).1,
          (status .v4).2 && (status .v6).2)

/-! ### The host table (gluetun) -/

/-- A route `hostDestinations` takes: default or on-link through the host interface. -/
def isHostDestination (hostIf : ℕ) (r : Route) : Bool :=
  !(r.typ != rtnUnicast || r.oif != some hostIf || hostIf == 0 || r.multiPath || r.encap ||
    r.nhid.isSome || !r.unconditional) && !(r.gateway.isSome && !r.isDefault)

/-- The destinations of the host table, `none` if any route is something else. -/
def hostDestinations (routes : List Route) (hostIf : ℕ) : Option (List (Option Prefix)) :=
  if routes.all (isHostDestination hostIf) then some (routes.map (·.dst)).dedup else none

/-- A route of the main table whose destination the host table must have. -/
def isWantedHost (hostIf : ℕ) (r : Route) : Bool :=
  r.typ == rtnUnicast && hostIf != 0 && r.oif == some hostIf && !r.encap && !r.multiPath &&
    r.nhid.isNone && (r.gateway.isNone || r.isDefault)

def hostTableStatus (routes : List Route) (hostIf : ℕ) (f : Family) (main : List Route)
    (haveMain : Bool) : Bool :=
  match hostDestinations routes hostIf with
  | none => false
  | some found =>
    let wanted := ((main.filter (isWantedHost hostIf)).map (·.dst)).dedup
    if haveMain && !(wanted.length == found.length && wanted.all (found.contains ·)) then false
    else found.any (fun d => d.elim false (·.bits == 0)) || f == .v6

end Molebridge
