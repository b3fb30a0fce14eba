import Molebridge.Spec.Classes
import Molebridge.Spec.Conn

/-! internal/mutator, the handle of one operation of the mutation owner: the
policy model it keeps of the kernel, the judgement of every deletion on it
(`approve`) and the requests themselves, over any implementation of the kernel
interface. -/

namespace Molebridge

/-- What the owner asks of a kernel (`mutator.Kernel`, with the `ForeignChange` and
`RulesStable` that `rtnl.Conn` has). -/
structure Kernel (σ : Type) where
  expired : StateM σ Bool
  take : List ℕ → StateM σ (Except RtErr Snapshot)
  foreignChange : List ℕ → StateM σ (Except RtErr Bool)
  rulesStable : Family → StateM σ (Except RtErr (List Rule × Bool))
  addRule : Rule → StateM σ (Option RtErr)
  delRule : Rule → StateM σ (Option RtErr)
  delRulePriority : Family → ℕ → StateM σ (Option RtErr)
  replaceRoute : Route → StateM σ (Option RtErr)
  delRoute : Route → StateM σ (Option RtErr)

/-- The operation: the kernel, the expected state, the addresses a transaction is
moving away from, and the policy model of the kernel while it is known. -/
structure Tx (σ : Type) where
  kernel : σ
  spec : Spec
  retiring : List Addr := []
  model : Option State := none

abbrev TxM (σ : Type) := StateM (Tx σ)

def ask {σ α : Type} (x : StateM σ α) : TxM σ α := fun tx =>
  ((x tx.kernel).1, { tx with kernel := (x tx.kernel).2 })

def setModel {σ : Type} (m : Option State) : TxM σ Unit := modify fun tx => { tx with model := m }

namespace Tx

variable {σ : Type} (k : Kernel σ)

/-- The expected state a deletion is judged by: without the pairs of the addresses
the transaction is moving away from. -/
def judged (tx : Tx σ) : Spec :=
  { tx.spec with returnPath := fun f => (tx.spec.returnPath f).filter fun a => !tx.retiring.contains a }

def budget : TxM σ (Option RtErr) := do
  return if ← ask k.expired then some .deadline else none

def snapshot : TxM σ (Except RtErr Snapshot) := do
  match ← budget k with
  | some e => return .error e
  | none =>
    let spec := (← get).spec
    match ← ask (k.take spec.interest) with
    | .error e => do
      setModel none
      return .error e
    | .ok snap => do
      setModel (if snap.unstable then none else some (State.fromSnapshot spec snap))
      return .ok snap

def freshModel : TxM σ (Except RtErr (Option State)) := do
  match ← snapshot k with
  | .error e => return .error e
  | .ok snap => do
    let m := (← get).model
    return .ok (if snap.unstable then none else m)

def currentModel : TxM σ (Except RtErr (Option State)) := do
  match (← get).model with
  | none => freshModel k
  | some m =>
    match ← ask (k.foreignChange (← get).spec.interest) with
    | .error e => return .error e
    | .ok false => return .ok (some m)
    | .ok true => do
      setModel none
      freshModel k

/-- approve: the state after the deletion and whether it changes anything. -/
def approve (remove : State → State × Bool) : TxM σ (Except RtErr (State × Bool)) := do
  let spec := (← get).judged
  if spec.config.isGluetunSidecar then return .ok ({ spec := spec }, false)
  else match ← currentModel k with
    | .error _ => return .error .unsafeDeletion
    | .ok none => return .error .unsafeDeletion
    | .ok (some m) =>
      let before := { m with spec := spec }
      let (after, changed) := remove before
      if changed then
        return if (worsens before after).isEmpty then .ok (after, true) else .error .unsafeDeletion
      else return .ok (before, false)

/-- A request is recorded in the model, if there is one. -/
def record (next : State → Option State) : TxM σ Unit := modify fun tx => { tx with model := tx.model.bind next }

def afterDelete (after : State) (changed : Bool) (err : Option RtErr) : TxM σ Unit :=
  record fun m => match err with
    | some _ => none
    | none => some (if changed then after else m)

def afterAdd (r : Rule) (err : Option RtErr) : TxM σ Unit :=
  record fun m => match err with
    | none => some (m.withRule r)
    | some .exist => some m
    | some _ => none

def afterRoute (r : Route) (err : Option RtErr) : TxM σ Unit :=
  record fun m => match err with
    | none => some (m.withRoute r)
    | some _ => none

def kAddRule (r : Rule) : TxM σ (Option RtErr) := do
  let err ← ask (k.addRule r)
  afterAdd r err
  return err

def kReplaceRoute (r : Route) : TxM σ (Option RtErr) := do
  let err ← ask (k.replaceRoute r)
  afterRoute r err
  return err

/-- The deletions: approved, requested and recorded. -/
def kDelete (remove : State → State × Bool) (request : StateM σ (Option RtErr)) :
    TxM σ (Option RtErr) := do
  match ← approve k remove with
  | .error e => return some e
  | .ok (after, changed) => do
    let err ← ask request
    afterDelete after changed err
    return err

def kDelRule (r : Rule) : TxM σ (Option RtErr) := kDelete k (·.withoutRule r) (k.delRule r)

def kDelRulePriority (f : Family) (priority : ℕ) : TxM σ (Option RtErr) :=
  kDelete k (·.withoutPriority f priority) (k.delRulePriority f priority)

def kDelRoute (r : Route) : TxM σ (Option RtErr) := kDelete k (·.withoutRoute r) (k.delRoute r)

/-- A request within the operation's budget: whether the kernel changed, and the
error; the error that `benign` names is none. -/
def within (benign : RtErr) (request : TxM σ (Option RtErr)) : TxM σ (Bool × Option RtErr) := do
  match ← budget k with
  | some e => return (false, some e)
  | none => match ← request with
    | none => return (true, none)
    | some e => return (false, if e = benign then none else some e)

def addRule (r : Rule) : TxM σ (Bool × Option RtErr) := within k .exist (kAddRule k r)

def delRule (r : Rule) : TxM σ (Bool × Option RtErr) := within k .notExist (kDelRule k r)

def delRulePriority (f : Family) (priority : ℕ) : TxM σ (Bool × Option RtErr) :=
  within k .notExist (kDelRulePriority k f priority)

def delRoute (r : Route) : TxM σ (Bool × Option RtErr) := within k .notExist (kDelRoute k r)

def replaceRoute (r : Route) : TxM σ (Option RtErr) := do
  match ← budget k with
  | some e => return some e
  | none => kReplaceRoute k r

/-- hasExact: the rule is there, with its priority and its items. -/
def hasExact (rules : List Rule) (r : Rule) : Bool :=
  rules.any fun x => x.priority == r.priority && equalItems x.items r.items

def confirmed (f : Family) (rules : List Rule) : TxM σ (Option RtErr) := do
  match ← budget k with
  | some e => return some e
  | none => match ← ask (k.rulesStable f) with
    | .error e => return some e
    | .ok (have_, stable) =>
      return if stable && rules.all (hasExact have_) then none else some .unconfirmed

end Tx
end Molebridge
