import Molebridge.Spec.Inspect

/-! internal/applier, the control loop: one pass (`tick`) resolves the target, resumes
an interrupted attempt, admits a change or runs the periodic check, and a change goes
through the gate, an inspection, the mutation and its verification.

Whatever the applier asks of the system, the disk or the clocks is answered by an `Env`,
by the number of the question; every question takes time, and the process can die at
any of them. What happens is kept in a trace. -/

namespace Molebridge.Applier

/-! ### The world of a process -/

/-- How an ApplyRelay call ended. -/
inductive ApplyOutcome where
  | done
  | credentialRejected
  | refused
  | failed
  | io (message : String)
  | canceled
  /-- The process died during the call. -/
  | died
deriving DecidableEq

/-- The trigger a pass was admitted by. -/
inductive Admission where
  /-- A new target, and whether it was asked for just now. -/
  | newTarget (asked : Bool)
  | pending (asked : Bool)
  | released
  | reconverge
  | due
  | lapse
deriving DecidableEq

/-- An ApplyRelay call: the boot clock recorded for it, and that of its start. -/
structure Application where
  key : String
  server : String
  mutated : ℚ
  started : ℚ
  outcome : ApplyOutcome
deriving DecidableEq

/-- What a process does, as far as it is traced. -/
inductive Event where
  | booted
  /-- A pass with this effective target key, "" for no target. -/
  | pass (key : String)
  | admitted (why : Admission)
  | gatePassed
  | inspected (f : Finding)
  /-- An earlier inspection that is a repair's, and the boot clock then. -/
  | reused (f : Finding) (now : ℚ)
  /-- The mutation's own look at the peers failed, with this attempt. -/
  | stuck (attempt : Attempt)
  | saved (attempt : Attempt)
  | published (record : Members)
  | applied (a : Application)

inductive Stop where
  | io (message : String)
  | canceled
  | died
deriving DecidableEq

structure Env where
  /-- The time a question takes. -/
  lag : ℕ → ℚ
  lag_nonneg : ∀ n, 0 ≤ lag n
  dies : ℕ → Bool
  wall : ℕ → ℤ
  /-- MaintainCatalog: the catalogue after it, and whether it pulls the check forward. -/
  maintain : ℕ → Except String (Catalog × Bool)
  /-- desired.json decoded, null for none, and whether the file exists. -/
  desired : ℕ → Json × Bool
  /-- RestoreTarget -/
  restore : ℕ → Option String
  /-- The hash of the catalogue's names. -/
  digest : List String → String
  /-- PIA's credential files: their identity and times. -/
  credentials : ℕ → String
  peers : ℕ → Option (List String)
  serverFor : ℕ → List String → Option String
  routing : ℕ → Bool
  netbird : ℕ → Bool
  firewall : ℕ → Option Bool
  generation : ℕ → String
  /-- The one peer and its counters, and whether they could be read. -/
  transfer : ℕ → String × Transfer × Bool
  reading : ℕ → Reading
  publishing : ℕ → Publishing
  /-- The error of a save, a publication or a selection's record, none for done. -/
  save : ℕ → Option String
  publish : ℕ → Option String
  write : ℕ → Option String
  apply : ℕ → ApplyOutcome
  canceled : ℕ → Bool

/-- A process in its world: whether it lives, the questions asked so far, the boot clock,
attempt.json and the trace, latest first. -/
structure World where
  m : Memory
  alive : Bool := false
  calls : ℕ := 0
  clock : ℚ := 0
  file : Option Attempt := none
  trace : List Event := []

abbrev AppM := ExceptT Stop (StateM World)

/-- A question: it takes its time, and the process may not live to see the answer. -/
def ask {α : Type} (env : Env) (answer : ℕ → α) : AppM α := do
  let w ← get
  set { w with calls := w.calls + 1, clock := w.clock + env.lag w.calls }
  if env.dies w.calls then throw .died
  return answer w.calls

def now : AppM ℚ := return (← get).clock

def trace (e : Event) : AppM Unit := modify fun w => { w with trace := e :: w.trace }

def memory : AppM Memory := return (← get).m

def setMemory (f : Memory → Memory) : AppM Unit := modify fun w => { w with m := f w.m }

def setAttempt (f : Attempt → Attempt) : AppM Unit := setMemory fun m => { m with attempt := f m.attempt }

/-- A deferred change of the memory, whatever way the computation ends. -/
def deferring {α : Type} (x : AppM α) (f : Memory → Memory) : AppM α :=
  ExceptT.mk (do
    let r ← x.run
    modify fun w => { w with m := f w.m }
    return r)

/-- BeforeMutation, OnApplied and OnVerified: gluetun's record its selection in a file. -/
def recordSelection (env : Env) : AppM Unit := do
  if (← memory).settings.backend = .gluetun then
    match ← ask env env.write with
    | some message => throw (.io message)
    | none => return ()

def refreshSec : ℚ := 60

def freshRequestSec : ℤ := 150

def silentReuseSec : ℚ := 30

def stallSec : ℚ := 10

def stallBytes : ℤ := 1024

/-! ### Saving and publishing -/

/-- saveAttempt: written whole or not at all. -/
def saveAttempt (env : Env) : AppM Unit := do
  match ← ask env env.save with
  | some message => throw (.io message)
  | none => modify fun w => { w with file := some w.m.attempt, trace := .saved w.m.attempt :: w.trace }

def publishRecord (env : Env) (status : RecordStatus) (message server : String) (checks fields : Members) :
    AppM Members := do
  let p ← ask env env.publishing
  let record := statusRecord (← memory) p status message server checks fields
  match ← ask env env.publish with
  | some message => throw (.io message)
  | none =>
    trace (.published record)
    return record

def emit (env : Env) (f : Finding) (applying : Bool) : AppM Members := do
  let (status, message) := emitStatus (← memory) f applying
  publishRecord env status message f.server f.checks f.fields

def remember (f : Finding) : AppM Unit :=
  modify fun w => { w with m := { w.m with measurement := some f }, trace := .inspected f :: w.trace }

/-- measure, remembered as the last inspection. -/
def inspection (env : Env) (applying : Bool) : AppM Finding := do
  let time ← now
  let r ← ask env env.reading
  let f := measure (← memory) applying time r
  remember f
  return f

def inspect (env : Env) (applying : Bool) : AppM Members := do
  let f ← inspection env applying
  emit env f applying

def setNextHealth : AppM Unit := do
  let t ← now
  setMemory fun m => { m with nextHealth := t + refreshSec }

/-! ### What the checks make of the attempt -/

def isRestState (s : AttemptState) : Bool := s == .idle || s == .unverified

def scheduleRecheck : AppM Unit := do
  let t ← now
  setAttempt fun a => { a with nextAction := some .recheck, nextActionAt := some (t + refreshSec) }

def markUnverified : AppM Unit := do
  setAttempt fun a => { a with state := .unverified, outcome := some .appliedUnverified, message := "" }
  scheduleRecheck

def settle : AppM Unit := setAttempt Attempt.settle

/-- A failed mutation, applied again on the backoff. -/
def failMutation (message : String) (certainty : Option Certainty) : AppM Unit := do
  let t ← now
  setAttempt fun a => { a with
    state := .failed, outcome := some .mutationFailed, message
    mutationCertainty := certainty <|> a.mutationCertainty }
  setAttempt fun a => a.schedule .reapply t

def handshakeStale (m : Memory) (f : Finding) (moment : ℚ) : Bool :=
  f.peers == 1 && match f.age with
    | none => m.attempt.lastMutationAt.elim true fun last => (handshakeFreshSec : ℚ) ≤ moment - last
    | some age => handshakeFreshSec ≤ age

def lapseRepairDue (m : Memory) (live : String) (t : ℚ) : Bool :=
  m.settings.spec.registrationLapses && m.target.any (fun s => live == s.server) && live != "" &&
    isRestState m.attempt.state &&
    m.attempt.lastMutationAt.elim true fun last => last + backoff m.attempt.backoffStep ≤ t

def registrationLapsed (m : Memory) (t : ℚ) : Bool :=
  match m.measurement, m.target with
  | some f, some target => t - f.time ≤ 2 * refreshSec && f.server == target.server && handshakeStale m f t
  | _, _ => false

/-- The exit's owner generation, once there is one. -/
def takeGeneration (env : Env) : AppM Unit := do
  let generation ← ask env env.generation
  if generation ≠ "" then setAttempt fun a => { a with generation }

/-- Known from the start, so the exit container's next start is seen as one even before
this applier changes anything. -/
def noteGeneration (env : Env) : AppM Unit := do
  if (← memory).attempt.generation = "" then
    takeGeneration env
    if (← memory).attempt.generation ≠ "" then saveAttempt env

/-- What the periodic check makes of the attempt: it never switches. -/
def judgeAttempt (env : Env) (f : Finding) : AppM Unit := do
  let m ← memory
  match m.target with
  | none => pure ()
  | some target =>
    if m.attempt.state = .pending ∨ m.attempt.state = .rejected ∨ m.attempt.state = .attempting then pure ()
    else if f.ok = true ∧ f.server = target.server then
      if m.attempt.state = .idle ∧ m.attempt.outcome = some .verified then recordSelection env
      else
        settle
        saveAttempt env
        recordSelection env
    else if f.server = target.server ∧ m.attempt.state = .idle then
      -- Applied, not verified: re-checked, never switched again.
      markUnverified
      setAttempt fun a => { a with mutationCertainty := none }
      saveAttempt env
    else if m.attempt.state = .unverified then
      scheduleRecheck
      saveAttempt env

/-- The periodic check from its inspection on, when no repair is due. -/
def concludeCheck (env : Env) (f : Finding) : AppM Members := do
  judgeAttempt env f
  noteGeneration env
  setNextHealth
  emit env f false

/-! ### The target -/

def releaseSignature (env : Env) (why : Why) : AppM String := do
  let m ← memory
  match why with
  | .credentials => if m.settings.provider = "pia" then ask env env.credentials else return why.text
  | .catalogue =>
    let wall ← ask env env.wall
    return if m.catalog.usable wall then env.digest m.catalog.names else ""
  | .invalid => return why.text

/-- What a rejection waits for now; one without a reason waits for nothing. -/
def liftedBy (env : Env) (why : Option Why) : AppM String :=
  match why with
  | some why => releaseSignature env why
  | none => return ""

def refused (env : Env) (request : Request) : AppM Bool := do
  match (← memory).attempt.rejected with
  | none => return false
  | some rejected =>
    if rejected.key = request.token then return rejected.release == (← releaseSignature env rejected.why)
    else return false

/-- The server to put back when nothing else selects one. -/
def restoreTarget (env : Env) : AppM (Option Selection) := do
  let server ← ask env env.restore
  return if (← memory).settings.backend = .gluetun then server.map fun s => { server := s, source := .restore } else none

def resolve (env : Env) : AppM (Option Selection) := do
  let m ← memory
  if m.settings.server ≠ "" then
    setMemory fun m => { m with request := configuredRequest m, invalidDesired := false }
    return some (configuredSelection m)
  else
    let (raw, present) ← ask env env.desired
    let request := desiredRequest raw m.settings.provider
    setMemory fun m => { m with request, invalidDesired := request.isNone && (!raw.isNull || present) }
    match request with
    | some request =>
      if ← refused env request then restoreTarget env
      else return some { server := request.server, source := .panel, request := some request }
    | none => restoreTarget env

def askedNow (env : Env) (target : Selection) : AppM Bool := do
  let wall ← ask env env.wall
  return target.source == .panel && target.request.any fun r => recent (.str r.requestedAt) freshRequestSec wall wall

/-! ### The gate -/

/-- Why the pipeline may not mutate: rejected for a reason, or pending. -/
structure Hold where
  message : String
  why : Option Why := none

def Hold.state (h : Hold) : AttemptState := if h.why.isSome then .rejected else .pending

def Hold.outcome (h : Hold) : Outcome := if h.why.isSome then .rejected else .pending

def interfaceMessage : String := "Waiting for the WireGuard interface; request will retry automatically."

def gatePeers (env : Env) : AppM (Option Hold) :=
  return if (← ask env env.peers).isNone then some { message := interfaceMessage } else none

/-- A native sidecar's routing and firewall, then the peers. -/
def gateSidecar (env : Env) (m : Memory) : AppM (Option Hold) := do
  if m.settings.nativeSidecar then
    let routing ← ask env env.routing
    let firewall ← ask env env.firewall
    if !routing || !firewall.getD false then
      return some { message := "Waiting for the tunnel's routing and firewall; request will retry automatically." }
    else gatePeers env
  else gatePeers env

/-- An overlay's routing and NetBird first. -/
def gateRouting (env : Env) (m : Memory) : AppM (Option Hold) := do
  if m.settings.kind = .overlay then
    if !(← ask env env.routing) then
      return some { message := "Waiting for tunnel and overlay routing; request will retry automatically. " ++
        "If this persists, recreate the exit (docs/operations.md#recovery)." }
    else if !(← ask env env.netbird) then
      return some { message := "Waiting for NetBird to run kernel WireGuard with its kernel firewall; " ++
        "request will retry automatically." }
    else gateSidecar env m
  else gateSidecar env m

def gate (env : Env) (target : Selection) : AppM (Option Hold) := do
  let m ← memory
  match configurationError m (← ask env env.wall) with
  | some (why, message) => return some { message, why := some why }
  | none =>
    if !m.catalog.usable (← ask env env.wall) then
      return some { message := "Waiting for a fresh trusted relay catalogue; request will retry automatically." }
    else if !m.catalog.names.contains target.server then
      return some { message := unlistedMessage, why := some .catalogue }
    else gateRouting env m

/-! ### The mutation -/

def switchTimeout (s : ExitSettings) : ℚ := if s.backend = .gluetun then 90 else 60

def mutationFailedMessage (s : ExitSettings) : String :=
  if s.backend = .gluetun then "gluetun did not accept the server selection; retrying automatically."
  else "Peer update failed; retrying automatically."

/-- Three seconds, or less for a canceled context. -/
def sleep (env : Env) : AppM Unit := do
  if !(← ask env env.canceled) then modify fun w => { w with clock := w.clock + 3 }

/-- The inspections of a switch until it verifies or its deadline: the record it ended
with, or the last inspection. The fuel is more than there is time for. -/
def verifyLoop (env : Env) (target : Selection) (deadline : ℚ) : ℕ → Option Finding → AppM (Members ⊕ Option Finding)
  | 0, last => return .inr last
  | fuel + 1, last => do
    if deadline ≤ (← now) then return .inr last
    else
      let f ← inspection env true
      if f.ok = true ∧ f.server = target.server then
        settle
        saveAttempt env
        recordSelection env
        recordSelection env
        setNextHealth
        return .inl (← emit env f false)
      else if f.safe = false then
        failMutation "Routing changed during the switch; retrying after recovery." none
        saveAttempt env
        setNextHealth
        return .inl (← emit env f false)
      else
        let _ ← emit env f true
        if ← ask env env.canceled then throw .canceled
        else
          sleep env
          verifyLoop env target deadline fuel (some f)

/-- A switch that did not verify in time: its last inspection decides. -/
def judgeSwitch (env : Env) (target : Selection) (f : Finding) : AppM Unit := do
  if f.server = target.server then
    recordSelection env
    if f.ok then
      settle
      recordSelection env
    else markUnverified
  else failMutation "Switch verification timed out; retrying automatically." none

def concludeSwitch (env : Env) (target : Selection) (f : Finding) : AppM Members := do
  judgeSwitch env target f
  saveAttempt env
  setNextHealth
  emit env f false

def verify (env : Env) (target : Selection) : AppM Members := do
  let timeout := switchTimeout (← memory).settings
  let deadline := (← now) + timeout
  setMemory fun m => { m with switchDeadline := some deadline }
  match ← deferring (verifyLoop env target deadline (⌈timeout / 3⌉.toNat + 2) none)
      fun m => { m with switchDeadline := none } with
  | .inl record => return record
  | .inr (some f) => concludeSwitch env target f
  | .inr none => concludeSwitch env target (← inspection env false)

/-- The call itself: it is traced however it ends. -/
def applyRelay (env : Env) (target : Selection) (mutated : ℚ) : AppM ApplyOutcome := do
  let w ← get
  let outcome := env.apply w.calls
  set { w with
    calls := w.calls + 1, clock := w.clock + env.lag w.calls
    trace := .applied { key := target.key, server := target.server, mutated, started := w.clock, outcome } :: w.trace }
  return outcome

def credentialsMessage (m : Memory) : String :=
  label m.settings.provider ++ " refused the login; correct the credentials, or retry."

/-- The login was refused: the attempt is rejected until the credentials change. -/
def rejectCredentials (env : Env) (target : Selection) : AppM Members := do
  let message := credentialsMessage (← memory)
  let release ← releaseSignature env .credentials
  setAttempt fun a => { a with
    state := .rejected, outcome := some .rejected, mutationCertainty := some .definite, message
    extra := { why := some .credentials, release }
    rejected := if target.source = .panel then
      some { key := target.key, reason := message, why := .credentials, release } else a.rejected }
  saveAttempt env
  setNextHealth
  inspect env false

/-- What the call's end makes of the attempt. The periodic check after a failure repairs
no lapse: a failed attempt is not at rest. -/
def concludeApply (env : Env) (target : Selection) : ApplyOutcome → AppM Members
  | .done => verify env target
  | .credentialRejected => rejectCredentials env target
  | .refused => failed .definite
  | .failed => failed .uncertain
  | .io message => throw (.io message)
  | .canceled => throw .canceled
  | .died => throw .died
where
  failed (certainty : Certainty) : AppM Members := do
    failMutation (mutationFailedMessage (← memory).settings) (some certainty)
    saveAttempt env
    concludeCheck env (← inspection env false)

/-- The peers and the server they belong to, none where one cannot be told. -/
def current (env : Env) : AppM (Option String) := do
  match ← ask env env.peers with
  | none => return none
  | some keys => return (← ask env env.serverFor) keys

def mutate (env : Env) (target : Selection) : AppM Members := do
  match ← current env with
  | none =>
    trace (.stuck (← memory).attempt)
    setAttempt fun a => { a with state := .pending, outcome := some .pending, message := interfaceMessage }
    saveAttempt env
    inspect env false
  | some server =>
    recordSelection env
    let mutated ← now
    setAttempt fun a => { a with
      state := .attempting, outcome := none, message := "", attempts := a.attempts + 1
      lastMutationAt := some mutated, mutationCertainty := some .uncertain, nextAction := none, nextActionAt := none }
    takeGeneration env
    -- Recorded before any I/O: a lost response can hide success.
    saveAttempt env
    let m ← memory
    let message := if m.repair.isSome then label m.settings.provider ++
        " stopped answering this tunnel; registering again. Traffic stays held in the tunnel meanwhile."
      else "Applying the requested server."
    let _ ← publishRecord env .applying message server (blankChecks m.settings.kind m.settings.backend) []
    concludeApply env target (← applyRelay env target mutated)

/-- What lifts a rejection, with the request it is of. -/
def noteRejection (env : Env) (target : Selection) (hold : Hold) : AppM Unit := do
  match hold.why with
  | some why =>
    let release ← releaseSignature env why
    setAttempt fun a => { a with
      extra := { why := some why, release }
      rejected := if target.source = .panel then
        some { key := target.key, reason := hold.message, why, release } else a.rejected }
  | none => pure ()

/-- The gate holds the attempt: pending, or rejected with what lifts it. -/
def holdAttempt (env : Env) (target : Selection) (hold : Hold) : AppM Members := do
  setAttempt fun a => { a with
    state := hold.state, outcome := some hold.outcome, message := hold.message, nextAction := none
    nextActionAt := none, extra := {} }
  noteRejection env target hold
  saveAttempt env
  setNextHealth
  inspect env false

/-- What an inspection before a mutation finds: it settles the attempt, or lets the
mutation go ahead. -/
def reinspected (env : Env) (target : Selection) (repair : Bool) (f : Finding) : AppM Members := do
  if f.server = target.server then
    if f.ok then
      settle
      saveAttempt env
      recordSelection env
      setNextHealth
      emit env f false
    else
      let m ← memory
      let stale := repair && handshakeStale m f (← now)
      if !stale && !(repair && f.silent) then
        markUnverified
        saveAttempt env
        setNextHealth
        emit env f false
      else
        setAttempt fun a => { a with backoffStep := a.backoffStep + 1 }
        let wall ← ask env env.wall
        setMemory fun m => { m with
          repair := some { reason := if stale then "handshake-stale" else "tunnel-silent", since := formatTime wall } }
        deferring (mutate env target) fun m => { m with repair := none }
  else mutate env target

/-- A silent check that is recent enough is a repair's inspection. -/
def reusable (m : Memory) (repair : Bool) (t : ℚ) : Option Finding :=
  m.measurement.filter fun f => repair && f.silent && t - f.time ≤ silentReuseSec

def runPipeline (env : Env) (target : Selection) (source : Source) (reinspect repair : Bool) : AppM Members := do
  setAttempt fun a => { a with source := some source }
  match ← gate env target with
  | some hold => holdAttempt env target hold
  | none =>
    trace .gatePassed
    setAttempt fun a => { a with
      rejected := if a.rejected.any (·.key == target.key) then none else a.rejected
      extra := {} }
    if reinspect || repair then
      let t ← now
      match reusable (← memory) repair t with
      | some f =>
        trace (.reused f t)
        reinspected env target repair f
      | none => reinspected env target repair (← inspection env false)
    else mutate env target

/-! ### Admission -/

/-- The effective target's key, "" for none. -/
def targetKey (target : Option Selection) : String := (target.map Selection.key).getD ""

/-- runPipeline for a trigger, which is traced. -/
def admitted (env : Env) (why : Admission) (target : Selection) (source : Source) : AppM (Option Members) := do
  trace (.admitted why)
  let reinspect := match why with
    | .newTarget asked | .pending asked => !asked
    | .released | .reconverge | .due => true
    | .lapse => false
  return some (← runPipeline env target source reinspect (why == .lapse))

def check (env : Env) : AppM (Option Members) := do
  let f ← inspection env false
  let m ← memory
  match m.target with
  | some target =>
    if f.silent && lapseRepairDue m f.server (← now) then admitted env .lapse target .retry
    else return some (← concludeCheck env f)
  | none => return some (← concludeCheck env f)

def interruptedMessage (m : Memory) : String :=
  if m.ioFailure ≠ "" then
    "The last switch stopped on a file error (" ++ truncateChars m.ioFailure 256 ++ "); retrying automatically."
  else "The last switch was interrupted; retrying automatically."

/-- An interrupted attempt is what its inspection finds, never replayed. -/
def judgeInterrupted (env : Env) (m : Memory) (f : Finding) : AppM Unit := do
  if m.attempt.target ≠ "" ∧ f.server = m.attempt.target then
    if f.ok then
      settle
      recordSelection env
    else markUnverified
  else failMutation (interruptedMessage m) (some .uncertain)

def resume (env : Env) : AppM (Option Members) := do
  let m ← memory
  if m.attempt.state ≠ .attempting then return none
  else
    setMemory fun m => { m with ioFailure := "" }
    let f ← inspection env false
    judgeInterrupted env m f
    saveAttempt env
    setNextHealth
    return some (← emit env f false)

def start (env : Env) (target : Option Selection) : AppM (Option Members) := do
  let previous := (← memory).attempt
  setMemory fun m => { m with unidentifiedSince := none }
  match target with
  | none =>
    setMemory fun m => { m with
      attempt := .new .seed "" "" m.bootId previous.rejected previous.generation }
    saveAttempt env
    setMemory fun m => { m with nextHealth := 0 }
    return none
  | some target =>
    let source := if target.source = .panel ∧ previous.target = target.server ∧
        previous.state ∈ [.failed, .rejected, .unverified, .pending] then .operatorRetry else target.source
    let asked ← askedNow env target
    setMemory fun m => { m with
      attempt := .new source target.server target.key m.bootId previous.rejected previous.generation }
    admitted env (.newTarget asked) target source

/-- A live peer that is not the target, or that the catalogue cannot name. -/
def admitDrift (env : Env) (target : Selection) (t : ℚ) (guard : Bool) (live : String) : AppM (Option Members) := do
  let m ← memory
  if live ≠ "" then
    setMemory fun m => { m with unidentifiedSince := none }
    if live ≠ target.server ∧ isRestState m.attempt.state = true ∧ guard = true then
      admitted env .reconverge target .reconverge
    else return none
  else match m.unidentifiedSince with
    | none =>
      setMemory fun m => { m with unidentifiedSince := some t }
      return none
    | some since =>
      if unidentifiedSec ≤ t - since ∧ isRestState m.attempt.state = true ∧ guard = true then
        setMemory fun m => { m with unidentifiedSince := none }
        admitted env .reconverge target .reconverge
      else return none

/-- The triggers from a due re-apply on, with the peers known. -/
def admitLive (env : Env) (target : Selection) (t : ℚ) (guard : Bool) (keys : List String) : AppM (Option Members) := do
  let m ← memory
  if m.attempt.nextAction = some .reapply ∧ m.attempt.nextActionAt.any (· ≤ t) then
    admitted env .due target .retry
  else if keys ≠ [] then
    if !m.catalog.usable (← ask env env.wall) then
      -- A stale catalogue can't name anything: not drift.
      setMemory fun m => { m with unidentifiedSince := none }
      return none
    else match (← ask env env.serverFor) keys with
      | none => return none
      | some live =>
        let m ← memory
        if lapseRepairDue m live t && registrationLapsed m t then admitted env .lapse target .retry
        else admitDrift env target t guard live
  else admitDrift env target t guard ""

/-- The triggers of an attempt that is settled, unverified or failed. -/
def admitPeers (env : Env) (target : Selection) (t : ℚ) : AppM (Option Members) := do
  match ← ask env env.peers with
  | none => return none
  | some keys =>
    let m ← memory
    let guard := m.attempt.guardPassed t
    if keys = [] then
      let generation ← ask env env.generation
      let freshOwner := generation != "" && m.attempt.generation != "" && m.attempt.generation != generation
      if guard && (freshOwner || (m.settings.backend == .native && isRestState m.attempt.state)) then
        admitted env .reconverge target .reconverge
      else admitLive env target t guard keys
    else admitLive env target t guard keys

/-- admit: what the pass goes ahead with, in the order of precedence. -/
def admitTarget (env : Env) : AppM (Option Members) := do
  let m ← memory
  let t ← now
  if targetKey m.target ≠ m.attempt.targetKey then start env m.target
  else match m.target with
    | none => return none
    | some target =>
      let source := m.attempt.source.getD target.source
      match m.attempt.state with
      | .attempting => return none
      | .pending =>
        match ← gate env target with
        | some _ => return none
        | none => admitted env (.pending (← askedNow env target)) target source
      | .rejected =>
        if m.attempt.extra.release ≠ (← liftedBy env m.attempt.extra.why) then admitted env .released target source else return none
      | _ => admitPeers env target t

/-! ### One pass -/

def watchStall (env : Env) : AppM Unit := do
  let m ← memory
  if m.settings.spec.registrationLapses = true ∧ m.target.isSome = true ∧ isRestState m.attempt.state = true then
    let (key, transfer, seen) ← ask env env.transfer
    let t ← now
    let w := m.stall
    if seen = false ∨ key ≠ w.key ∨ transfer.received ≠ w.received ∨ transfer.sent < w.sent then
      setMemory fun m => { m with
        stall := { key, received := transfer.received, sent := transfer.sent, since := t } }
    else if w.checked = false ∧ stallSec ≤ t - w.since ∧ stallBytes ≤ transfer.sent - w.sent then
      setMemory fun m => { m with stall := { w with checked := true }, nextHealth := min m.nextHealth t }

def beginPass (target : Option Selection) : AppM Unit :=
  modify fun w => { w with m := { w.m with target }, trace := .pass (targetKey target) :: w.trace }

def maintainCatalog (env : Env) : AppM Unit := do
  match ← ask env env.maintain with
  | .error message => throw (.io message)
  | .ok (catalog, pulled) =>
    setMemory fun m => { m with catalog, nextHealth := if pulled then 0 else m.nextHealth }

/-- An attempt saved as attempting is inspected first: the one a stopped process left, or
a pass that ended on a file error. -/
def resumeFirst (env : Env) : AppM (Option Members) := do
  let m ← memory
  if m.started = false ∨ m.attempt.state = .attempting then
    setMemory fun m => { m with started := true }
    resume env
  else return none

def tick (env : Env) : AppM (Option Members) := do
  maintainCatalog env
  beginPass (← resolve env)
  match ← resumeFirst env with
  | some record => return some record
  | none => match ← admitTarget env with
    | some record => return some record
    | none =>
      watchStall env
      if (← memory).nextHealth ≤ (← now) then check env else return none

/-! ### Histories -/

structure Boot where
  settings : ExitSettings
  configuredAt : String
  bootId : String
  clock : ℚ
  catalog : Catalog := {}

inductive Step where
  /-- A new process, which reads attempt.json. -/
  | boot (b : Boot)
  /-- A pass of the process there is. -/
  | tick

/-- New, as far as the loop depends on it. -/
def World.boot (w : World) (b : Boot) : World :=
  { w with
    alive := true
    clock := b.clock
    trace := .booted :: w.trace
    m := { settings := b.settings, configuredAt := b.configuredAt, bootId := b.bootId, catalog := b.catalog
           attempt := .load w.file b.bootId b.clock } }

/-- Tick: a pass that ends on a file error leaves that as its cause. -/
def World.tick (env : Env) (w : World) : World :=
  match (Applier.tick env).run w with
  | (.error .died, w) => { w with alive := false }
  | (.error (.io message), w) => { w with m := { w.m with ioFailure := message } }
  | (_, w) => { w with m := { w.m with ioFailure := "" } }

def World.step (env : Env) (w : World) : Step → World
  | .boot b => w.boot b
  | .tick => if w.alive then w.tick env else w

/-- One process's run, from the attempt it finds saved. -/
def run (env : Env) (b : Boot) (saved : Option Attempt) (passes : ℕ) : World :=
  (World.step env · .tick)^[passes] (World.boot
    { m := { settings := b.settings, configuredAt := b.configuredAt, bootId := b.bootId, attempt := {} }, file := saved } b)

/-- A history from a process's start on, with no attempt saved before. -/
def history (env : Env) (b : Boot) (steps : List Step) : World := steps.foldl (World.step env) (run env b none 0)

/-- A host where every question is answered at once, with the server live and ok. -/
def answering (server : String) : Env :=
  { lag := fun _ => 0, lag_nonneg := fun _ => le_rfl, dies := fun _ => false, wall := fun _ => 1700000000 * second
    maintain := fun _ => .ok ({ names := [server], fetchedAt := .str "2023-11-14T22:00:00Z" }, false)
    desired := fun _ => (.null, false), restore := fun _ => none, digest := fun _ => "", credentials := fun _ => ""
    peers := fun _ => some ["key"], serverFor := fun _ _ => some server, routing := fun _ => true
    netbird := fun _ => true, firewall := fun _ => some true, generation := fun _ => ""
    transfer := fun _ => ("", ⟨0, 0⟩, false), reading := fun _ => confirmedReading server
    publishing := fun _ => published1700, save := fun _ => none, publish := fun _ => none, write := fun _ => none
    apply := fun _ => .done, canceled := fun _ => false }

/-- An overlay exit with its SERVER set. -/
def configuredExit (provider server : String) (known : (lookupProvider provider).isSome = true) : Boot :=
  { settings := { kind := .overlay, provider, server, portForward := false, known }
    configuredAt := "2023-11-14T22:00:00Z", bootId := "b", clock := 0 }

end Molebridge.Applier
