import Molebridge.Spec.Repair

/-! internal/mutator, the operations around the repair pass: the installation of the
contract (`Install`), the provider's word that a return-path address is no longer in
use (`RetireReturnPath`), and the change of the tunnel's address as one transaction
(`ChangeReturnPath`, `settle`). Each is one job of the owner. -/

namespace Molebridge

inductive JobError where
  | op (e : OpError)
  | install (problems : Family → List Problem) (cause : Option OpError)
  | live

def orUnverified (err : Option OpError) : OpError := err.getD ⟨"the contract does not verify", none⟩

/-- An error that wraps another (`%w`). -/
def OpError.within (e : OpError) (what : String) : OpError := { e with what := what ++ ": " ++ e.what }

def Spec.withReturnPath (s : Spec) (f : Family) (addrs : List Addr) : Spec :=
  { s with leaveReturnPath := Function.update s.leaveReturnPath f false
           returnPath := Function.update s.returnPath f addrs }

/-- dedupe: each address once, where it is first. -/
def dedupe (addrs : List Addr) : List Addr :=
  addrs.foldl (fun out a => if out.contains a then out else out ++ [a]) []

/-- settleLooks: how often a stable look is tried for. -/
def settleLooks : ℕ := 3

namespace Tx

variable {σ : Type} (k : Kernel σ)

/-- The temporary guard is put in front of repairs: `New` turns that off for a native
sidecar. -/
def guards (guardRepairs : Bool) (spec : Spec) : Bool := guardRepairs && !spec.config.isNativeSidecar

/-- A job starts with nothing retired and no model of the kernel. -/
def job {α : Type} (x : TxM σ α) : TxM σ α := do
  modify fun tx => { tx with retiring := [], model := none }
  x

/-! ### Install -/

/-- The local-delivery guards go in first, up to the first that fails. -/
def installLocal (spec : Spec) (snap : Snapshot) : List Family → TxM σ (Option JobError)
  | [] => return none
  | f :: rest =>
    match spec.rulesAt f prioLocalGuard with
    | [want] => do
      if hasExact (snap.rules f) want then installLocal spec snap rest
      else
        match ← addRule k want with
        | (_, some e) => return some (.op ⟨"add the " ++ f.text ++ " local-delivery guard", some e⟩)
        | (_, none) => installLocal spec snap rest
    | _ => return some (.op ⟨"no local-delivery guard is expected for " ++ f.text, none⟩)

def installGuards (spec : Spec) : List Family → TxM σ (Option JobError)
  | [] => return none
  | f :: rest => do
    match ← addRule k (guardRule spec f) with
    | (_, some e) =>
      return some (.install (fun _ => []) (some ⟨"add the " ++ f.text ++ " temporary guard", some e⟩))
    | (_, none) => installGuards spec rest

def installFallbacks (spec : Spec) : List Family → TxM σ (Option JobError)
  | [] => return none
  | f :: rest => do
    match ← replaceRoute k (fallbackRoute f spec.config.table) with
    | some e =>
      return some (.install (fun _ => []) (some ⟨"install the " ++ f.text ++ " unreachable fallback", some e⟩))
    | none => installFallbacks spec rest

/-- What `Install` does where the contract is not yet exact. -/
def installBehindGuard (guardRepairs : Bool) (spec : Spec) (snap : Snapshot) : TxM σ (Option JobError) := do
  match ← installLocal k spec snap families with
  | some e => return some e
  | none =>
    let spec := { spec with tempGuard := fun _ => true }
    setSpec spec
    match ← installGuards k spec families with
    | some e => return some e
    | none =>
      match ← installFallbacks k spec families with
      | some e => return some e
      | none =>
        let res ← reconcile k guardRepairs "install"
        return if res.contractHolds then none else some (.install res.problems res.err)

/-- What `Install` does once the contract was not found installed. -/
def installAnew (guardRepairs : Bool) (spec : Spec) (snap : Snapshot) : TxM σ (Option JobError) := do
  if spec.config.isNativeSidecar then
    let res ← reconcile k guardRepairs "install"
    return if res.contractHolds then none
      else some (.op ((orUnverified res.err).within "the routing contract could not be installed"))
  else installBehindGuard k guardRepairs spec snap

def install (guardRepairs : Bool) : TxM σ (Option JobError) := job do
  let spec := (← get).spec
  if spec.config.isGluetunSidecar then return none
  else
    match ← snapshot k with
    | .error e => return some (.op ⟨"look at the kernel", some e⟩)
    | .ok snap =>
      if allClean (planAll spec snap) then
        let res ← reconcile k (guards guardRepairs spec) "install"
        if res.contractHolds then return none else installAnew k (guards guardRepairs spec) spec snap
      else installAnew k (guards guardRepairs spec) spec snap

/-! ### RetireReturnPath -/

/-- Looks until the kernel held still, `n` times more at most. -/
def stableLook : ℕ → TxM σ (Except RtErr Snapshot)
  | 0 => snapshot k
  | n + 1 => do
    match ← snapshot k with
    | .error e => return .error e
    | .ok snap => if snap.unstable then stableLook n else return .ok snap

/-- What is expected once an address is retired; `initial` is the Spec the owner was
made with. -/
def retired (initial spec : Spec) (f : Family) (addr : Addr) : Spec :=
  let rest := (spec.returnPath f).filter (· != addr)
  let next := spec.withReturnPath f rest
  if rest.isEmpty && initial.leaveReturnPath f then
    { next with leaveReturnPath := Function.update next.leaveReturnPath f true }
  else next

end Tx

/-- The installation, or a pass. -/
inductive OwnerJob where
  | install
  | reconcile (reason : String)

def OwnerJob.run {σ : Type} (k : Kernel σ) (guardRepairs : Bool) : OwnerJob → TxM σ Unit
  | .install => do
    let _ ← Tx.install k guardRepairs
  | .reconcile reason => do
    let _ ← Tx.pass k guardRepairs reason

def runJobs {σ : Type} (k : Kernel σ) (guardRepairs : Bool) (jobs : List OwnerJob) : TxM σ Unit :=
  jobs.forM (OwnerJob.run k guardRepairs)

end Molebridge
