import Molebridge.Spec.Install

/-! The change of the tunnel's address: internal/mutator's `ChangeReturnPath` and `settle`,
with the ordering of internal/applier's `ChangePIAAddress` as its callback, over the owner's
requests and the tunnel manager's route socket (`piaOnTx` of internal/exit). -/

namespace Molebridge

/-- What the address change asks of the tunnel manager's route socket (`Tun.RouteDo`):
`AddAddr` and `DelAddr` of a host address on a named interface. -/
structure TunnelConn (σ : Type) where
  addAddr : String → Addr → StateM σ (Option RtErr)
  delAddr : String → Addr → StateM σ (Option RtErr)

namespace Tx

variable {σ : Type}

/-- A step whose value the rest needs; its error ends the operation. -/
def needing {α : Type} (x : TxM σ (Except JobError α)) (next : α → TxM σ (Option JobError)) :
    TxM σ (Option JobError) := do
  match ← x with
  | .error e => return some e
  | .ok a => next a

/-- A step before the rest; its error ends the operation. -/
def followed (x next : TxM σ (Option JobError)) : TxM σ (Option JobError) := do
  match ← x with
  | some e => return some e
  | none => next

variable (k : Kernel σ) (t : TunnelConn σ) (initial : Spec)

/-! ### ChangePIAAddress -/

/-- returnPathRule: the rule 94 or 98 for an address. -/
def returnPathRule (priority : ℕ) (addr : Addr) : Except OpError Rule :=
  if priority ≠ prioReturnPath ∧ priority ≠ prioBackstop then .error ⟨"not a return-path priority", none⟩
  else
    let sp : Spec := { initial with returnPath := fun f => if f = .v4 then [addr] else []
                                    leaveReturnPath := fun _ => false }
    match sp.rulesAt .v4 priority with
    | [r] => .ok r
    | _ => .error ⟨"no return-path rule is expected at that priority", none⟩

/-- sourcesAt: the sources of the IPv4 rules at a priority that have one. -/
def sourcesAt (priority : ℕ) : TxM σ (Except JobError (List Addr)) := do
  match ← snapshot k with
  | .error e => return .error (.op ⟨"", some e⟩)
  | .ok snap => return .ok (((snap.rules .v4).filter (·.priority == priority)).filterMap fun r => r.src.map (·.addr))

def addReturnPathRule (priority : ℕ) (addr : Addr) : TxM σ (Option JobError) := do
  match returnPathRule initial priority addr with
  | .error e => return some (.op e)
  | .ok r =>
    let (_, err) ← addRule k r
    return err.map fun e => .op ⟨"", some e⟩

def deleteReturnPathRule (priority : ℕ) (src : Addr) : TxM σ (Option JobError) := do
  match returnPathRule initial priority src with
  | .error e => return some (.op e)
  | .ok r =>
    let (_, err) ← delRule k r
    return err.map fun e => .op ⟨"", some e⟩

/-- ReplaceTunnelAddress: already being there is the same outcome. -/
def replaceTunnelAddress (addr : Addr) : TxM σ (Option JobError) := do
  match ← ask (t.addAddr initial.config.exitIf addr) with
  | none | some .exist => return none
  | some e => return some (.op ⟨"", some e⟩)

def deleteTunnelAddress (addr : Addr) : TxM σ (Option JobError) := do
  match ← ask (t.delAddr initial.config.exitIf addr) with
  | none | some .notExist => return none
  | some e => return some (.op ⟨"", some e⟩)

def replaceExitDefaultRoute : TxM σ (Option JobError) := do
  match ← snapshot k with
  | .error e => return some (.op ⟨"", some e⟩)
  | .ok snap =>
    match snap.link initial.config.exitIf with
    | none => return some (.op ⟨"interface " ++ initial.config.exitIf ++ " does not exist", none⟩)
    | some l =>
      let err ← replaceRoute k (tunnelRoute .v4 initial.config.table l.index)
      return err.map fun e => .op ⟨"", some e⟩

/-- The rules of the sources that were found go, except those of the new address. -/
def deleteOthers (new : Addr) : List (ℕ × Addr) → TxM σ (Option JobError)
  | [] => return none
  | (priority, source) :: rest =>
    if source = new then deleteOthers new rest
    else followed (deleteReturnPathRule k initial priority source) (deleteOthers new rest)

/-- The steps of `ChangePIAAddress` from the change of the address on. -/
def moveAddress (old : Option Addr) (new : Addr) (old94 old98 : List Addr) : TxM σ (Option JobError) :=
  followed (replaceTunnelAddress t initial new) <|
  followed (match old with
    | some o => if o = new then return none else deleteTunnelAddress t initial o
    | none => return none) <|
  followed (replaceExitDefaultRoute k initial) <|
  deleteOthers k initial new (old94.map (prioReturnPath, ·) ++ old98.map (prioBackstop, ·))

/-- ChangePIAAddress; `none` is an old address that is not valid. -/
def changePIAAddress (old : Option Addr) (new : Addr) : TxM σ (Option JobError) :=
  needing (sourcesAt k prioReturnPath) fun old94 =>
  needing (sourcesAt k prioBackstop) fun old98 =>
  followed (if old94.contains new then return none else addReturnPathRule k initial prioReturnPath new) <|
  followed (if old98.contains new then return none else addReturnPathRule k initial prioBackstop new) <|
  needing (sourcesAt k prioReturnPath) fun now94 =>
  needing (sourcesAt k prioBackstop) fun now98 =>
  if !now94.contains new || !now98.contains new then
    return some (.op ⟨"the return-path rules for the new address are not in place", none⟩)
  else moveAddress k t initial old new old94 old98

/-! ### ChangeReturnPath -/

/-- The addresses whose pairs survive: those a stable look shows on the tunnel and, after
a failure, those protected before. -/
def survivors (before : Spec) (snap : Snapshot) (exitIf : String) (f : Family) (old : Option Addr) (next : Addr)
    (failed : Bool) : List Addr :=
  dedupe (liveGlobals snap exitIf f ++ if failed then before.returnPath f ++ old.toList else [next])

/-- What `settle` does after a stable look. -/
def settleFrom (guardRepairs : Bool) (before both : Spec) (f : Family) (old : Option Addr) (next : Addr)
    (failed : Bool) (snap : Snapshot) : TxM σ (Option JobError) := do
  let keep := survivors before snap both.config.exitIf f old next failed
  setSpec (both.withReturnPath f keep)
  let res ← reconcile k guardRepairs "settle the return-path pairs"
  if !res.contractHolds then
    return some (.op ((orUnverified res.err).within
      ("the " ++ f.text ++ " return-path rules could not be settled")))
  else if failed && keep.all (fun a => (before.returnPath f).contains a || old == some a) then
    setSpec before
    return none
  else return none

def settle (guardRepairs : Bool) (before both : Spec) (f : Family) (old : Option Addr) (next : Addr)
    (failed : Bool) : TxM σ (Option JobError) := do
  match ← stableLook k (settleLooks - 1) with
  | .error e => return some (.op ⟨"read the tunnel addresses back; the return-path pairs stay", some e⟩)
  | .ok snap =>
    if snap.unstable then
      return some (.op
        ⟨"the kernel kept changing; the return-path pairs stay until a stable look can prune them", none⟩)
    else settleFrom k guardRepairs before both f old next failed snap

/-- The callback, and the exit route that comes back behind it. -/
def changed (guardRepairs : Bool) (f : Family) (change : TxM σ (Option JobError)) : TxM σ (Option JobError) :=
  followed change do
    let res ← reconcile k guardRepairs "restore the exit route"
    return if res.contractHolds then none
      else some (.op ((orUnverified res.err).within
        ("the " ++ f.text ++ " routing could not be confirmed after the address change")))

/-- `ChangeReturnPath` from the expectation of both pairs on. The errors are joined. -/
def changeBetween (guardRepairs : Bool) (before : Spec) (f : Family) (old : Option Addr) (next : Addr)
    (change : TxM σ (Option JobError)) : TxM σ (List JobError) := do
  let both := before.withReturnPath f (dedupe (before.returnPath f ++ old.toList ++ [next]))
  setSpec both
  let res ← reconcile k guardRepairs "install the new return-path pair"
  if !res.contractHolds then
    let err ← settle k guardRepairs before both f old next true
    return .op ((orUnverified res.err).within
      ("the new " ++ f.text ++ " return-path rules could not be confirmed")) :: err.toList
  else
    modify fun tx => { tx with retiring := (old.filter (· != next)).toList }
    let cerr ← changed k guardRepairs f change
    let err ← settle k guardRepairs before both f old next cerr.isSome
    return cerr.toList ++ err.toList

/-- ChangeReturnPath; `none` is an address that is not valid. -/
def changeReturnPath (guardRepairs : Bool) (f : Family) (old next : Option Addr)
    (change : Addr → TxM σ (Option JobError)) : TxM σ (List JobError) := job do
  let before := (← get).spec
  if before.config.isGluetun || before.config.isGluetunSidecar then
    return [.op ⟨"the return-path address is the native backend's", none⟩]
  else
    match next.filter (·.fam == f) with
    | none => return [.op ⟨"the " ++ f.text ++ " return-path address is not an address of that family", none⟩]
    | some next =>
      if old.any (·.fam != f) then
        return [.op ⟨"the " ++ f.text ++ " return-path address is not an address of that family", none⟩]
      else changeBetween k (guards guardRepairs before) before f old next (change next)

def piaAddressChange (guardRepairs : Bool) (old next : Option Addr) : TxM σ (List JobError) :=
  changeReturnPath k guardRepairs .v4 old next (changePIAAddress k t initial old)

end Tx

/-! ### Addresses of a kernel nobody else changes -/

/-- What the kernel makes of its routes when the addresses of an interface have changed. -/
structure Rerouting where
  routes : Kern → ℕ → Family → ℕ → List Route
  tables : ∀ k index f t, ∀ r ∈ routes k index f t, r.table = t

/-- The routes through an interface that lost its last address of a family go. -/
def Rerouting.flushing : Rerouting where
  routes k index f t := (k.routes f t).filter fun r => r.oif != some index || (k.addrs f).any (·.index == index)
  tables k _ f t r hr := k.routes_table f t r (List.mem_filter.1 hr).1

namespace Kern

def link (k : Kern) (name : String) : Option Link := k.links.find? (·.name == name)

def readdress (k : Kern) (re : Rerouting) (index : ℕ) (f : Family) (addrs : List IfAddr) : Kern :=
  let k' := { k with addrs := Function.update k.addrs f addrs }
  { k' with routes := re.routes k' index, routes_table := re.tables k' index }

def holds (k : Kern) (index : ℕ) (addr : Addr) : Bool :=
  (k.addrs addr.fam).any fun a => a.index == index && a.loc == Prefix.host addr

def withAddr (k : Kern) (re : Rerouting) (name : String) (addr : Addr) : Kern :=
  (k.link name).elim k fun l => k.readdress re l.index addr.fam
    (k.addrs addr.fam ++ [⟨addr.fam, l.index, Prefix.host addr, rtScopeUniverse⟩])

def withoutAddr (k : Kern) (re : Rerouting) (name : String) (addr : Addr) : Kern :=
  (k.link name).elim k fun l => k.readdress re l.index addr.fam
    ((k.addrs addr.fam).filter fun a => !(a.index == l.index && a.loc == Prefix.host addr))

end Kern

/-- A failure; that an address is there already, or is not there, is no failure but the
kernel's word for it. -/
def RtErr.failure : RtErr → RtErr
  | .exist | .notExist => .failed
  | e => e

/-- A request on the addresses of an interface. -/
def Quiet.submitAddr (refused : Kern → Option RtErr) (change : Kern → Kern) : StateM Quiet (Option RtErr) := fun w =>
  match w.answer.fault.map RtErr.failure <|> refused w.kern with
  | some e => (some e, { w with tick := w.tick + 1 })
  | none => (none, { w with kern := change w.kern, tick := w.tick + 1, past := change w.kern :: w.past })

/-- The route socket of a kernel nobody else changes. -/
def quietTunnel (re : Rerouting) : TunnelConn Quiet where
  addAddr := fun name a => Quiet.submitAddr
    (fun k => (k.link name).elim (some .failed) fun l => if k.holds l.index a then some .exist else none)
    (·.withAddr re name a)
  delAddr := fun name a => Quiet.submitAddr
    (fun k => (k.link name).elim (some .failed) fun l => if k.holds l.index a then none else some .failed)
    (·.withoutAddr re name a)

end Molebridge
