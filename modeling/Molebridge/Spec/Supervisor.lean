import Molebridge.Spec.Coalescer
import Molebridge.Spec.Lease
import Molebridge.Spec.NbManager

/-! internal/exit, the supervisor's loop (supervisor.go): what it does with the worker's
messages, NetBird's events, its ticks and a request to stop. The loop takes one event at a
time; the manager's goroutines and the publisher's writer go on beside it. -/

namespace Molebridge.Exit

inductive WorkerMsg where
  | renew (m : Msg)
  | ready (gen : String)
  | unready (gen reason : String)
  | status (gen : String) (seq : ℕ) (record : Members)
  | log (gen level text : String)

inductive NbKind where
  | started
  | failed
  | exited
  | stopped
deriving DecidableEq

/-- What the NetBird manager tells the supervisor. -/
structure NbEvent where
  kind : NbKind
  launch : ℕ
  detail : String := ""
  offset : ℤ := 0
  begun : ℤ := 0

inductive SupEvent where
  | violation (err : String)
  | workerGone (code : ℤ)
  | nb (e : NbEvent)
  | worker (m : WorkerMsg)

/-- What one event reads on its way: the boot clock when it looks whether the lease lapsed,
when the lease judges the message and when it asks whether the lease is held, then the log's
size and the clock of a launch. -/
structure Reads where
  lapsed : ℤ
  judged : ℤ
  held : ℤ
  offset : ℤ
  begun : ℤ

/-- What the loop does beside changing its own state: messages to the worker, a launch that
was started, a record handed to the publisher. -/
inductive Output where
  | ack (gen : String) (seq : ℕ) (expiry : ℤ)
  | netbird (gen : String) (launch : ℕ) (state : String) (offset begun : ℤ)
  | started (launch : ℕ)
  | full (record : Members)

/-- One turn of the loop, and the stop sequence's begin. -/
inductive Turn where
  /-- With the lease before and after. -/
  | handled (e : SupEvent) (reads : Reads) (before after : Lease) (out : List Output)
  | stopping

structure Supervisor where
  settings : ExitSettings
  gen : String
  lease : Lease
  nb : Option NbManager
  pub : Publisher
  wantNB : Bool := false
  /-- The stop sequence has begun: the loop is over. -/
  stopping : Bool := false
  /-- Latest first. -/
  log : List Turn := []

/-- A non-empty reason starts the stop sequence. -/
abbrev Handled := Supervisor × List Output × String × String

namespace Supervisor

variable (s : Supervisor)

/-- As the loop begins: the starting record is published and a generation drawn. -/
def init (settings : ExitSettings) (lease : Lease) (gen : String) (now : ℤ) (starting : Members) : Supervisor where
  settings
  gen
  lease := lease.newGeneration gen now
  nb := if settings.kind = .overlay then some {} else none
  pub := Publisher.full { settings } starting

/-- What is wrong with a record the worker sent. -/
def checkRecord (record : Members) : Option String :=
  if (record.get "schema").isInt ≠ some 2 then some "the record's schema is not 2"
  else if !((record.get "kind").isStr s.settings.kind.text && (record.get "backend").isStr s.settings.backend.text &&
      (record.get "provider").isStr s.settings.provider) then
    some "the record is for another kind, backend or provider"
  else if (record.get "checks").object.isNone then some "the record has no checks"
  else if (record.get "status").string.isNone then some "the record has no status"
  else none

def maybeStartNetBird (r : Reads) : Supervisor × List Output :=
  match s.nb with
  | none => (s, [])
  | some nb =>
    if s.stopping || !s.wantNB || !s.lease.held r.held || nb.isActive then (s, [])
    else if nb.refuses then (s, [])
    else ({ s with nb := some nb.start },
      [.started (nb.launch + 1), .netbird s.gen (nb.launch + 1) "launching" r.offset r.begun])

def handleNB (e : NbEvent) (r : Reads) : Handled :=
  match s.nb with
  | none => (s, [], "", "")
  | some nb =>
    if e.launch ≠ nb.launch then (s, [], "", "")
    else match e.kind with
      | .started => (s, [.netbird s.gen e.launch "started" e.offset e.begun], "", "")
      | .failed => (s, [.netbird s.gen e.launch "failed" 0 0], "netbird exited", "NetBird could not be started: " ++ e.detail)
      | .exited => (s, [], "netbird exited", "NetBird stopped unexpectedly: " ++ e.detail)
      | .stopped =>
        let (s, out) := s.maybeStartNetBird r
        (s, .netbird s.gen e.launch "stopped" 0 0 :: out, "", "")

def stopNetBird : Supervisor := { s with nb := s.nb.map NbManager.stop }

def handleMsg (r : Reads) : WorkerMsg → Handled
  | .renew m =>
    match s.lease.accept r.judged m with
    | (.error _, lease) => ({ s with lease }, [], "", "")
    | (.ok expiry, lease) =>
      let (s, out) := { s with lease }.maybeStartNetBird r
      (s, .ack m.gen m.seq expiry :: out, "", "")
  | .ready gen =>
    if gen ≠ s.gen then (s, [], "", "")
    else
      let (s, out) := { s with wantNB := true }.maybeStartNetBird r
      (s, out, "", "")
  | .unready gen _ =>
    if gen ≠ s.gen then (s, [], "", "")
    else ({ s with wantNB := false }.stopNetBird, [], "", "")
  | .status gen seq record =>
    match s.lease.acceptStatus r.judged gen seq with
    | (false, lease) => ({ s with lease }, [], "", "")
    | (true, lease) =>
      match s.checkRecord record with
      | some err => ({ s with lease }, [], "protocol", "worker protocol violation: " ++ err)
      | none => ({ s with lease, pub := s.pub.full record }, [.full record], "", "")
  | .log _ _ _ => (s, [], "", "")

def handle (r : Reads) : SupEvent → Handled
  | .violation err => (s, [], "protocol", "worker protocol violation: " ++ err)
  | .workerGone code => (s, [], "worker exited", "the worker exited (status " ++ toString code ++ ")")
  | .nb e => s.handleNB e r
  | .worker m =>
    if s.lease.hasLapsed r.lapsed then
      (s, [], "lease lapsed", "the lease expired before the worker's message was processed")
    else s.handleMsg r m

/-- How the stop sequence begins: at once, or with the failure record. -/
def stopSequence (requested : Bool) (wall : ℤ) : Supervisor :=
  { s with
    stopping := true
    wantNB := false
    lease := s.lease.revoke
    nb := s.nb.map NbManager.close
    pub := if requested then s.pub.close else s.pub.failure wall
    log := .stopping :: s.log }

def turn (e : SupEvent) (r : Reads) (wall : ℤ) : Supervisor :=
  let (s', out, reason, _) := s.handle r e
  let s' := { s' with log := .handled e r s.lease s'.lease out :: s.log }
  if reason ≠ "" then s'.stopSequence false wall else s'

/-- A tick that finds the lease still good and is due to publish. -/
def leaseOnly : Supervisor := { s with pub := s.pub.leaseOnly }

end Supervisor

/-- A step of the loop, or of what goes on beside it. Once the stop sequence has begun the
loop takes no more events. -/
inductive SupStep : Supervisor → Supervisor → Prop where
  | event {s : Supervisor} (e : SupEvent) (r : Reads) (wall : ℤ) (running : s.stopping = false) :
      SupStep s (s.turn e r wall)
  | requested {s : Supervisor} (wall : ℤ) (running : s.stopping = false) : SupStep s (s.stopSequence true wall)
  | lapsed {s : Supervisor} (now wall : ℤ) (running : s.stopping = false) (lapsed : s.lease.hasLapsed now = true) :
      SupStep s (s.stopSequence false wall)
  | tick {s : Supervisor} (now : ℤ) (running : s.stopping = false) (live : s.lease.hasLapsed now = false) :
      SupStep s s.leaseOnly
  | manager {s : Supervisor} {m m' : NbManager} (nb : s.nb = some m) (step : NbStep m m') : SupStep s { s with nb := some m' }
  | writer {s : Supervisor} {c : Coalescer Members} (advanced : Coalescer.Advance s.pub.out c) :
      SupStep s { s with pub := { s.pub with out := c } }

end Molebridge.Exit
