import Molebridge.Spec.Requests

/-! internal/mutator, the repair pass: the ordered actions of one family's plan
(`apply`, `rebuild`) and the rounds of looking, planning and applying that one
pass is made of (`reconcile`). -/

namespace Molebridge

def Rule.text (r : Rule) : String :=
  toString r.priority ++ ":" ++ String.join (r.itemTexts.map (" " ++ ·)) ++
    if r.flags &&& (fibRuleIifDetached ||| fibRuleOifDetached) ≠ 0 then " [detached]" else ""

def HostRoute.route (h : HostRoute) (f : Family) (table hostIf : ℕ) : Route :=
  { family := f, dst := h.dst, table := table, typ := rtnUnicast, oif := some hostIf,
    gateway := h.via, prefSrc := h.src, metric := h.metric, protocol := rtProtoBoot,
    scope := if h.via.isSome then rtScopeUniverse else rtScopeLink,
    flags := if h.onLink then rtnhFOnlink else 0 }

def touchesGuards (actions : List Action) : Bool :=
  actions.any fun a => prioFromTunnel ≤ a.priority && a.priority ≤ prioIngressReject

/-- An error of an operation: what failed, and the kernel's or the owner's error. -/
structure OpError where
  what : String
  cause : Option RtErr := none
deriving DecidableEq

def guardRule (spec : Spec) (f : Family) : Rule :=
  ((Spec.rules { spec with tempGuard := fun g => g == f } f).find? (·.priority == prioTempGuard)).getD {}

/-- hasGuard: an exact priority-80 guard is among the rules. -/
def hasGuard (spec : Spec) (f : Family) (rules : List Rule) : Bool :=
  rules.any fun r => r.priority == prioTempGuard && equalItems r.items (guardRule spec f).items

def guardsHeld (spec : Spec) : Bool := families.any spec.tempGuard

def inGuardRange (priority : ℕ) : Bool := prioFromTunnel ≤ priority && priority ≤ prioIngressReject

def clearSource (r : Route) : Route := { r with prefSrc := none }

/-- The rules left to a transaction at a priority (`Plan.Left`). -/
def Plan.leftAt (p : Plan) (priority : ℕ) : List Rule := p.left.filter (·.priority == priority)

/-- What a priority is rebuilt to: its expected rules, or what a transaction left. -/
def Plan.wantAt (p : Plan) (priority : ℕ) : List Rule :=
  if p.effective.skipped p.family priority then p.leftAt priority
  else p.effective.rulesAt p.family priority

/-- dependents: the expected rules that a removal makes up for. -/
def dependents (p : Plan) (a : Action) : List Rule :=
  if a.priority = 0 then p.effective.rulesAt p.family prioLocalGuard
  else (p.wantAt (a.priority + 1)).filter fun e => equalItems e.items a.rule.items

/-- An addition of the plan has the priority and the items of the rule (`copyKey`). -/
def Plan.adds (p : Plan) (d : Rule) : Bool :=
  p.rules.any fun a => a.kind == .add && a.priority == d.priority && equalItems a.rule.items d.items

def Snapshot.withRule (snap : Snapshot) (f : Family) (r : Rule) : Snapshot :=
  { snap with rules := Function.update snap.rules f (State.insertRule r (snap.rules f)) }

/-- What `apply` has done and what went wrong. -/
structure Applied where
  mutations : ℕ := 0
  errs : List OpError := []

namespace Applied

def fail (st : Applied) (what : String) (cause : Option RtErr) : Applied :=
  { st with errs := st.errs ++ [⟨what, cause⟩] }

def note (st : Applied) (changed : Bool) (err : Option RtErr) (what : String) : Applied :=
  let st := if changed then { st with mutations := st.mutations + 1 } else st
  err.elim st fun e => st.fail what (some e)

end Applied

/-- The loop over the rules of a plan: the priorities rebuilt and whether the
temporary guard was read back. -/
structure Ruling extends Applied where
  rebuilt : List ℕ := []
  guardRead : Bool := false

/-- The loop over the routes of a plan. -/
structure Routing extends Applied where
  routeAddFailed : Bool := false

namespace Tx

variable {σ : Type} (k : Kernel σ)

/-! ### rebuild -/

/-- The protective copies, up to the first that fails: those that went in. -/
def installCopies : List Rule → TxM σ (List Rule × Option RtErr)
  | [] => return ([], none)
  | cp :: rest => do
    match ← addRule k cp with
    | (_, some e) => return ([], some e)
    | (changed, none) =>
      let (installed, err) ← installCopies rest
      return (if changed then cp :: installed else installed, err)

/-- The rules of a priority one after another, and how many went. -/
def clearPriority (f : Family) (priority : ℕ) : ℕ → TxM σ (ℕ × Option RtErr)
  | 0 => return (0, none)
  | n + 1 => do
    match ← delRulePriority k f priority with
    | (_, some e) => return (0, some e)
    | (false, none) => return (0, none)
    | (true, none) =>
      let (gone, err) ← clearPriority f priority n
      return (gone + 1, err)

/-- Every rule is added; the first error is kept. -/
def refill : List Rule → TxM σ (ℕ × Option RtErr)
  | [] => return (0, none)
  | w :: rest => do
    let (changed, err) ← addRule k w
    let (added, later) ← refill rest
    return (changed.toNat + added, err <|> later)

/-- The copies this call put in come out; an error is not reported. -/
def removeCopies : List Rule → TxM σ ℕ
  | [] => return 0
  | cp :: rest => do
    let (changed, _) ← delRule k cp
    let gone ← removeCopies rest
    return changed.toNat + gone

/-- What is expected goes back behind the copies, which go once it is confirmed. -/
def refillBehind (f : Family) (priority : ℕ) (want installed : List Rule) : TxM σ (ℕ × Option OpError) := do
  match ← refill k want with
  | (added, some e) =>
    return (added, some ⟨"could not restore " ++ f.text ++ " rule " ++ toString priority, some e⟩)
  | (added, none) =>
    match ← confirmed k f want with
    | some e =>
      return (added, some ⟨f.text ++ " rule " ++ toString priority ++
        " is not confirmed after the rebuild; its protective copy stays", some e⟩)
    | none =>
      let gone ← removeCopies k installed
      return (added + gone, none)

/-- rebuild: everything at a priority is replaced with `want`. -/
def rebuild (f : Family) (priority : ℕ) (want : List Rule) : TxM σ (ℕ × Option OpError) := do
  if want.isEmpty then
    return (0, some ⟨"rebuild " ++ f.text ++ " rule " ++ toString priority ++
      ": nothing is expected there", none⟩)
  else
    let copies := want.map fun w => { w with priority := (priority + (2 ^ 32 - 1)) % 2 ^ 32 }
    match ← installCopies k copies with
    | (installed, some e) =>
      return (installed.length, some ⟨"could not install the protective copy of " ++ f.text ++
        " rule " ++ toString priority ++ "; the rules there are left as they are", some e⟩)
    | (installed, none) =>
      match ← confirmed k f copies with
      | some e =>
        return (installed.length, some ⟨"the protective copies of " ++ f.text ++ " rule " ++
          toString priority ++ " are not confirmed; the rules there are left as they are", some e⟩)
      | none =>
        match ← clearPriority k f priority 32 with
        | (gone, some e) =>
          return (installed.length + gone,
            some ⟨"clear " ++ f.text ++ " priority " ++ toString priority, some e⟩)
        | (gone, none) =>
          let (n, err) ← refillBehind k f priority want installed
          return (installed.length + gone + n, err)

/-! ### apply -/

/-- behindGuard: the new value of `guardRead`, or why the guard is not in place. -/
def behindGuard (p : Plan) (priority : ℕ) (guardRead : Bool) : TxM σ (Except RtErr Bool) := do
  if !p.effective.tempGuard p.family || !inGuardRange priority || guardRead then return .ok guardRead
  else
    match ← confirmed k p.family [guardRule p.effective p.family] with
    | some e => return .error e
    | none => return .ok true

def applyAdd (p : Plan) (a : Action) (st : Ruling) : TxM σ Ruling := do
  let (changed, err) ← addRule k a.rule
  let what := "could not restore " ++ p.family.text ++ " rule " ++ toString a.priority
  return { st with toApplied := st.note changed err what }

def applySub (p : Plan) (a : Action) (st : Ruling) : TxM σ Ruling := do
  if st.rebuilt.contains a.priority then return st
  else
    let st := { st with rebuilt := a.priority :: st.rebuilt }
    match ← behindGuard k p a.priority st.guardRead with
    | .error e =>
      return { st with toApplied := st.fail ("left " ++ p.family.text ++ " rule " ++ toString a.priority ++
        " as it is: the temporary guard is not in place") (some e) }
    | .ok read =>
      let (n, err) ← rebuild k p.family a.priority (p.wantAt a.priority)
      return { st with
        mutations := st.mutations + n, errs := st.errs ++ err.toList, guardRead := read }

/-- A removal by its attributes and, if they are refused where nothing is expected
or left alone, of whatever is first at the priority. -/
def deleteRule (p : Plan) (a : Action) : TxM σ (Bool × Option RtErr) := do
  match ← delRule k a.rule with
  | (changed, none) => return (changed, none)
  | (changed, some e) =>
    if p.effective.owned a.priority && (p.effective.rulesAt p.family a.priority).isEmpty &&
        (p.leftAt a.priority).isEmpty then
      delRulePriority k p.family a.priority
    else return (changed, some e)

/-- A removal whose replacement this plan adds waits until it is read back. -/
def replaced (p : Plan) (a : Action) : TxM σ (Option RtErr) :=
  if (dependents p a).any p.adds then confirmed k p.family (dependents p a) else return none

def applyDel (p : Plan) (a : Action) (st : Ruling) : TxM σ Ruling := do
  match ← behindGuard k p a.priority st.guardRead with
  | .error e =>
    return { st with toApplied := st.fail ("kept " ++ p.family.text ++ " rule " ++ toString a.priority ++
      ": the temporary guard is not in place") (some e) }
  | .ok read =>
    let st := { st with guardRead := read }
    match ← replaced k p a with
    | some e =>
      return { st with toApplied := st.fail ("kept " ++ p.family.text ++ " rule " ++ toString a.priority ++
        ", which protects until what replaces it is installed") (some e) }
    | none =>
      let (changed, err) ← deleteRule k p a
      let what := "could not remove " ++ p.family.text ++ " rule " ++ toString a.priority ++ ": " ++ a.rule.text
      return { st with toApplied := st.note changed err what }

/-- One action on the rules; on an unstable snapshot only additions are made. -/
def applyRule (p : Plan) (removals : Bool) (st : Ruling) (a : Action) : TxM σ Ruling :=
  match a.kind with
  | .add => applyAdd k p a st
  | .sub => if removals then applySub k p a st else return st
  | .del => if removals then applyDel k p a st else return st

/-- A route goes in; a failure keeps the routes that are to go. -/
def applyRouteAdd (r : Route) (what : String) (st : Routing) : TxM σ Routing := do
  match ← replaceRoute k r with
  | some e => return { st with toApplied := st.fail what (some e), routeAddFailed := true }
  | none => return { st with mutations := st.mutations + 1 }

def applyRouteDel (p : Plan) (r : Route) (st : Routing) : TxM σ Routing := do
  if st.routeAddFailed then
    return { st with toApplied := st.fail ("kept a " ++ p.family.text ++ " route in table " ++
      toString p.effective.config.table ++ ": a route this pass adds could not be installed") none }
  else
    let (changed, err) ← delRoute k (clearSource r)
    return { st with toApplied := st.note changed err ("remove a " ++ p.family.text ++
      " route from table " ++ toString p.effective.config.table) }

def applyRoute (p : Plan) (removals : Bool) (st : Routing) (a : RouteAction) : TxM σ Routing :=
  match a.kind with
  | .addFallback => applyRouteAdd k a.route ("restore the " ++ p.family.text ++
      " unreachable fallback in table " ++ toString p.effective.config.table) st
  | .addTunnel => applyRouteAdd k a.route ("restore the " ++ p.family.text ++
      " tunnel route through " ++ p.effective.config.exitIf) st
  | .delRoute => if removals then applyRouteDel k p a.route st else return st

/-- The host table is emptied and copied anew (gluetun). -/
def refreshHost (p : Plan) (st : Applied) : TxM σ Applied := do
  let table := p.effective.config.hostTable
  let st ← p.hostFlush.foldlM (fun st r => do
    let (changed, err) ← delRoute k (clearSource r)
    return st.note changed err ("remove a " ++ p.family.text ++ " route from table " ++ toString table)) st
  p.hostWant.foldlM (fun st h => do
    let err ← replaceRoute k (h.route p.family table p.hostIf.index)
    return st.note err.isNone err ("copy a " ++ p.family.text ++ " host route into table " ++
      toString table)) st

/-- apply: the host table, the rules, the exit table, in the plan's order. -/
def apply (p : Plan) (removals : Bool) : TxM σ Applied := do
  let st ← if p.hostRefresh && removals then refreshHost k p {} else pure {}
  let st ← p.rules.foldlM (applyRule k p removals) { toApplied := st }
  let st ← p.routes.foldlM (applyRoute k p removals) { toApplied := st.toApplied }
  return st.toApplied

end Tx

/-! ### The pass -/

structure PassResult where
  reason : String
  repaired : Bool := false
  mutations : ℕ := 0
  contractHolds : Bool := false
  verified : Bool := false
  problems : Family → List Problem := fun _ => []
  err : Option OpError := none

namespace PassResult

def fail (res : PassResult) (e : OpError) : PassResult := { res with err := res.err <|> some e }

def changed (res : PassResult) (n : ℕ) : PassResult :=
  { res with repaired := res.repaired || 0 < n, mutations := res.mutations + n }

/-- A change of the guard: whether the kernel changed, and the error. -/
def guarded (res : PassResult) (out : Bool × Option RtErr) (what : String) : PassResult :=
  let res := out.2.elim res fun e => res.fail ⟨what, some e⟩
  res.changed out.1.toNat

def applied (res : PassResult) (st : Applied) : PassResult := st.errs.foldl fail (res.changed st.mutations)

end PassResult

/-- maxRounds bounds the repair rounds of one pass. -/
def maxRounds : ℕ := 4

/-- One round: the expected state, the snapshot it is judged on, the plans. -/
structure Round where
  spec : Spec
  snap : Snapshot
  plans : Family → Plan
  res : PassResult

def planAll (spec : Spec) (snap : Snapshot) (f : Family) : Plan := spec.planFamily snap f false

def allClean (plans : Family → Plan) : Bool := families.all fun f => (plans f).clean

def allHealthy (plans : Family → Plan) : Bool := families.all fun f => (plans f).healthy

def Spec.setGuard (s : Spec) (f : Family) (held : Bool) : Spec :=
  { s with tempGuard := Function.update s.tempGuard f held }

namespace Tx

variable {σ : Type} (k : Kernel σ)

def setSpec (s : Spec) : TxM σ Unit := modify fun tx => { tx with spec := s }

/-- A guard left by an earlier pass is expected until a pass verifies. -/
def expectGuard (snap : Snapshot) (spec : Spec) (f : Family) : TxM σ Spec := do
  if !spec.config.isNativeSidecar && !spec.tempGuard f && hasGuard spec f (snap.rules f) then
    setSpec (spec.setGuard f true)
    return spec.setGuard f true
  else return spec

def removeGuard (r : Round) (f : Family) : TxM σ Round := do
  if !r.spec.tempGuard f then return r
  else
    let spec := r.spec.setGuard f false
    setSpec spec
    let out ← delRule k (guardRule r.spec f)
    return { r with spec := spec, res := r.res.guarded out ("remove the " ++ f.text ++ " temporary guard") }

/-- The guard of a family goes in before a repair of rules 90 to 97. -/
def installGuard (r : Round) (f : Family) : TxM σ Round := do
  if !touchesGuards (r.plans f).rules || r.spec.tempGuard f then return r
  else
    let spec := r.spec.setGuard f true
    setSpec spec
    let out ← addRule k (guardRule spec f)
    let snap := if out.1 then r.snap.withRule f (guardRule spec f) else r.snap
    return { spec := spec, snap := snap, plans := Function.update r.plans f (planAll spec snap f),
             res := r.res.guarded out ("add the " ++ f.text ++ " temporary guard") }

def applyPlan (r : Round) (f : Family) : TxM σ Round := do
  let st ← apply k (r.plans f) (!r.snap.unstable)
  return { r with res := r.res.applied st }

/-- Looks again and goes on, or ends the pass when the kernel cannot be read. -/
def lookAgain (res : PassResult) (next : Snapshot → TxM σ PassResult) : TxM σ PassResult := do
  match ← snapshot k with
  | .error e => return res.fail ⟨"look at the kernel", some e⟩
  | .ok snap => next snap

/-- Not verified: what is still wrong. -/
def notVerified (res : PassResult) (snap : Snapshot) : TxM σ PassResult := do
  let spec := (← get).spec
  let res := { res with problems := fun f => (spec.planFamily snap f false).problems, verified := false }
  return res.fail ⟨"the routing contract could not be verified after repair", none⟩

/-- One round of the loop; `next` is the rest of it, none when the rounds are spent. -/
def round (guardRepairs : Bool) (next : Option (PassResult → Snapshot → TxM σ PassResult))
    (res : PassResult) (snap : Snapshot) : TxM σ PassResult := do
  let spec ← families.foldlM (expectGuard snap) (← get).spec
  let r : Round := { spec := spec, snap := snap, plans := planAll spec snap, res := res }
  if allClean r.plans && snap.unstable then
    match next with
    | none => notVerified (res.fail
        ⟨"the kernel kept changing; the routing contract could not be verified", none⟩) snap
    | some next => lookAgain k res (next res)
  else if allClean r.plans then
    if !guardsHeld spec then
      return { res with contractHolds := true, verified := allHealthy r.plans,
                        problems := fun f => (r.plans f).problems, err := none }
    else
      let r ← families.foldlM (removeGuard k) r
      lookAgain k r.res fun snap => match next with
        | none => notVerified r.res snap
        | some next => next r.res snap
  else
    match next with
    | none => notVerified res snap
    | some next =>
      let r ← if guardRepairs then families.foldlM (installGuard k) r else pure r
      let r ← families.foldlM (applyPlan k) r
      lookAgain k r.res (next r.res)

/-- The loop with `n` rounds to come after this one. -/
def rounds (guardRepairs : Bool) : ℕ → PassResult → Snapshot → TxM σ PassResult
  | 0 => round k guardRepairs none
  | n + 1 => round k guardRepairs (some (rounds guardRepairs n))

def reconcile (guardRepairs : Bool) (reason : String) : TxM σ PassResult := do
  if (← get).spec.config.isGluetunSidecar then
    return { reason := reason, contractHolds := true, verified := true }
  else lookAgain k { reason := reason } (rounds k guardRepairs maxRounds { reason := reason })

/-- ReconcileNow: a pass as an operation of its own. `New` turns the guard off for a
native sidecar. -/
def pass (guardRepairs : Bool) (reason : String) : TxM σ PassResult := do
  modify fun tx => { tx with retiring := [], model := none }
  reconcile k (guardRepairs && !(← get).spec.config.isNativeSidecar) reason

end Tx

/-! ### A kernel nobody else changes -/

/-- What the kernel does with one call: the operation's time is up, the request
fails, the look shows a part of the kernel. -/
structure Answer where
  late : Bool := false
  fault : Option RtErr := none
  blurred : Option Snapshot := none

/-- The kernel, what it will answer, and the kernel after each change made to it. -/
structure Quiet where
  kern : Kern
  answers : ℕ → Answer := fun _ => {}
  tick : ℕ := 0
  past : List Kern := []

/-- An unstable look: nothing that is not there, but rules, routes, links and
addresses can be missing or repeated. -/
def Kern.blur (k : Kern) (tables : List ℕ) (seen : Snapshot) : Snapshot :=
  { unstable := true
    rules := fun f => (seen.rules f).filter (k.rules f).contains
    routes := fun f => (seen.routes f).filter (k.wanted tables f).contains
    links := seen.links.filter k.links.contains
    addrs := fun f => (seen.addrs f).filter (k.addrs f).contains }

def Answer.look (a : Answer) (tables : List ℕ) (k : Kern) : Except RtErr Snapshot :=
  match a.fault with
  | some e => .error e
  | none => .ok (a.blurred.elim (k.view tables) (k.blur tables))

/-- The kernel's own test for a rule that is already there: the invert flag is
not compared. -/
def sameButInvert (r x : Rule) : Bool :=
  x.priority == r.priority && x.items.filter (· != .inverted) == r.items.filter (· != .inverted)

namespace Quiet

def answer (w : Quiet) : Answer := w.answers w.tick

/-- A call: its answer, and the kernel one call later. -/
def call {α : Type} (f : Answer → Kern → α) : StateM Quiet α := fun w =>
  (f w.answer w.kern, { w with tick := w.tick + 1 })

/-- A request that changes the kernel unless it fails or is refused. -/
def submit (refused : Kern → Option RtErr) (change : Kern → Kern) : StateM Quiet (Option RtErr) := fun w =>
  match w.answer.fault <|> refused w.kern with
  | some e => (some e, { w with tick := w.tick + 1 })
  | none => (none, { w with kern := change w.kern, tick := w.tick + 1, past := change w.kern :: w.past })

end Quiet

open Quiet in
/-- The kernel of the repair, with nobody else changing it. -/
def quiet : Kernel Quiet where
  expired := call fun a _ => a.late
  take := fun tables => call fun a k => a.look tables k
  foreignChange := fun _ => call fun a _ => match a.fault with
    | some e => .error e
    | none => .ok a.blurred.isSome
  rulesStable := fun f => call fun a k => match a.fault with
    | some e => .error e
    | none => .ok (k.rules f, a.blurred.isNone)
  addRule := fun r => submit
    (fun k => if (k.rules r.family).any (sameButInvert r) then some .exist else none) (·.withRule r)
  delRule := fun r => submit
    (fun k => if (k.rules r.family).any (deleteMatches r) then none else some .notExist) (·.withoutRule r)
  delRulePriority := fun f p => submit
    (fun k => if (k.rules f).any (·.priority == p) then none else some .notExist) (·.withoutPriority f p)
  replaceRoute := fun r => submit (fun _ => none) (·.withRoute r)
  delRoute := fun r => submit
    (fun k => if (k.routes r.family r.table).any (State.routeDeleteMatches r) then none else some .notExist)
    (·.withoutRoute r)

/-- A number of passes, one for each reason. -/
def passes {σ : Type} (k : Kernel σ) (guardRepairs : Bool) (reasons : List String) : TxM σ (List PassResult) :=
  reasons.mapM (Tx.pass k guardRepairs)

/-- The violations of a kernel for the live tunnel addresses alone. -/
def escapes (spec : Spec) (k : Kern) : List Violation :=
  (State.fromSnapshot { spec with returnPath := fun _ => [] } (k.view spec.interest)).violations

end Molebridge
