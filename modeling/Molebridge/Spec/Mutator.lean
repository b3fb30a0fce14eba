import Mathlib.Logic.Function.Basic
import Mathlib.Data.List.Basic

/-! internal/mutator, the owner goroutine (mutator.go): the queue of operations, the
coalesced request for a repair pass and the end, from Start on. Every operation on a
channel or an atomic is one step, taken by whichever goroutine runs next; a select takes
any case that is ready. -/

namespace Molebridge.Mutator

/-- What the owner executes: the operation of a Do call, or a pass. -/
inductive Task where
  | op (call : ℕ)
  | pass (reason : String)
deriving DecidableEq

inductive Answer where
  /-- The operation's own error, "" for none. -/
  | ended (error : String)
  | closed
  | canceled
deriving DecidableEq

/-- Where the owner goroutine is. -/
inductive Owner where
  /-- In its select. -/
  | waiting
  /-- It received an operation, and has not yet looked whether it is closing. -/
  | received (call : ℕ)
  /-- It received a wake, and has not yet looked whether it is closing. -/
  | woken
  /-- Before it takes the request. -/
  | swapping
  /-- In exec, before the task's goroutine. -/
  | starting (task : Task)
  /-- In exec, for the result. -/
  | executing (task : Task)
  | draining
  | exited
deriving DecidableEq

/-- Where a Do call is. -/
inductive DoCall where
  | uncalled
  | checking
  /-- In the select that enters the queue. -/
  | entering
  /-- In the select that waits for the answer. -/
  | answering
  | returned (answer : Answer)
deriving DecidableEq

/-- Where a Reconcile call is. -/
inductive ReconcileCall where
  | uncalled
  | checking (reason : String)
  | storing (reason : String)
  | swapping
  | sending
  | returned
deriving DecidableEq

/-- Where the Close call is. -/
inductive CloseCall where
  | uncalled
  | closing
  | joining
  | returned
deriving DecidableEq

inductive Event where
  /-- A Do call's operation entered the queue. -/
  | entered (call : ℕ)
  /-- A Reconcile call recorded its request. -/
  | recorded (call : ℕ)
  | started (task : Task)
deriving DecidableEq

structure State where
  /-- Oldest first. -/
  queue : List ℕ := []
  /-- The wake channel, of capacity one, is full. -/
  wake : Bool := false
  pending : Bool := false
  reason : Option String := none
  closing : Bool := false
  /-- The stop channel is closed. -/
  stop : Bool := false
  owner : Owner := .waiting
  /-- The goroutines in a task. -/
  running : List Task := []
  /-- What the task's goroutine sent. -/
  result : Option String := none
  /-- What each operation's channel was sent. -/
  answer : ℕ → Option Answer := fun _ => none
  /-- The contexts that are done. -/
  canceled : ℕ → Bool := fun _ => false
  doCall : ℕ → DoCall := fun _ => .uncalled
  reconcileCall : ℕ → ReconcileCall := fun _ => .uncalled
  closeCall : CloseCall := .uncalled
  /-- Latest first. -/
  log : List Event := []

namespace State

variable (s : State)

def setDo (i : ℕ) (c : DoCall) : State := { s with doCall := Function.update s.doCall i c }

def setReconcile (i : ℕ) (c : ReconcileCall) : State := { s with reconcileCall := Function.update s.reconcileCall i c }

def send (i : ℕ) (a : Answer) : State := { s with answer := Function.update s.answer i (some a) }

variable {s} {i j : ℕ}

theorem setDo_same {c : DoCall} : (s.setDo i c).doCall i = c := Function.update_self ..

theorem setDo_other {c : DoCall} (h : j ≠ i) : (s.setDo i c).doCall j = s.doCall j := Function.update_of_ne h ..

theorem send_same {a : Answer} : (s.send i a).answer i = some a := Function.update_self ..

theorem send_other {a : Answer} (h : j ≠ i) : (s.send i a).answer j = s.answer j := Function.update_of_ne h ..

variable (s)

/-- The result of a task is sent to who waits for it. -/
def deliver (error : String) : Task → State
  | .op i => s.send i (.ended error)
  | .pass _ => s

def passTask : Task := .pass (s.reason.getD "event")

end State

/-- A step of Do. The context of a call is done at any time, if it can be. -/
inductive DoStep (queueLen : ℕ) (cancelable : ℕ → Bool) : State → State → Prop where
  | call {s : State} (i : ℕ) (uncalled : s.doCall i = .uncalled) : DoStep queueLen cancelable s (s.setDo i .checking)
  | refused {s : State} (i : ℕ) (checking : s.doCall i = .checking) (closing : s.closing = true) :
      DoStep queueLen cancelable s (s.setDo i (.returned .closed))
  | checked {s : State} (i : ℕ) (checking : s.doCall i = .checking) (running : s.closing = false) :
      DoStep queueLen cancelable s (s.setDo i .entering)
  | enter {s : State} (i : ℕ) (entering : s.doCall i = .entering) (room : s.queue.length < queueLen) :
      DoStep queueLen cancelable s
        { s.setDo i .answering with queue := s.queue ++ [i], log := .entered i :: s.log }
  | stopped {s : State} (i : ℕ) (entering : s.doCall i = .entering) (stop : s.stop = true) :
      DoStep queueLen cancelable s (s.setDo i (.returned .closed))
  | given {s : State} (i : ℕ) (a : Answer) (answering : s.doCall i = .answering) (sent : s.answer i = some a) :
      DoStep queueLen cancelable s (s.setDo i (.returned a))
  | gaveUp {s : State} (i : ℕ) (waits : s.doCall i = .entering ∨ s.doCall i = .answering) (canceled : s.canceled i = true) :
      DoStep queueLen cancelable s (s.setDo i (.returned .canceled))
  | cancel {s : State} (i : ℕ) (can : cancelable i = true) :
      DoStep queueLen cancelable s { s with canceled := Function.update s.canceled i true }

inductive ReconcileStep : State → State → Prop where
  | call {s : State} (i : ℕ) (reason : String) (uncalled : s.reconcileCall i = .uncalled) :
      ReconcileStep s (s.setReconcile i (.checking reason))
  | refused {s : State} (i : ℕ) (reason : String) (checking : s.reconcileCall i = .checking reason)
      (closing : s.closing = true) : ReconcileStep s (s.setReconcile i .returned)
  | checked {s : State} (i : ℕ) (reason : String) (checking : s.reconcileCall i = .checking reason)
      (running : s.closing = false) : ReconcileStep s (s.setReconcile i (.storing reason))
  | store {s : State} (i : ℕ) (reason : String) (storing : s.reconcileCall i = .storing reason) :
      ReconcileStep s { s.setReconcile i .swapping with reason := some reason }
  /-- A request that was pending is one with this. -/
  | swap {s : State} (i : ℕ) (swapping : s.reconcileCall i = .swapping) :
      ReconcileStep s { s.setReconcile i (if s.pending then .returned else .sending) with
        pending := true, log := .recorded i :: s.log }
  | send {s : State} (i : ℕ) (sending : s.reconcileCall i = .sending) :
      ReconcileStep s { s.setReconcile i .returned with wake := true }

inductive CloseStep : State → State → Prop where
  | call {s : State} (uncalled : s.closeCall = .uncalled) : CloseStep s { s with closeCall := .closing, closing := true }
  | close {s : State} (closing : s.closeCall = .closing) : CloseStep s { s with closeCall := .joining, stop := true }
  | join {s : State} (joining : s.closeCall = .joining) (exited : s.owner = .exited) :
      CloseStep s { s with closeCall := .returned }

/-- A step of the owner, or of the goroutine of its task. -/
inductive OwnerStep : State → State → Prop where
  | stop {s : State} (waiting : s.owner = .waiting) (stop : s.stop = true) : OwnerStep s { s with owner := .draining }
  | receive {s : State} (i : ℕ) (rest : List ℕ) (waiting : s.owner = .waiting) (queue : s.queue = i :: rest) :
      OwnerStep s { s with queue := rest, owner := .received i }
  | wake {s : State} (waiting : s.owner = .waiting) (wake : s.wake = true) :
      OwnerStep s { s with wake := false, owner := .woken }
  | receivedClosing {s : State} (i : ℕ) (received : s.owner = .received i) (closing : s.closing = true) :
      OwnerStep s { s.send i .closed with owner := .waiting }
  | receivedOpen {s : State} (i : ℕ) (received : s.owner = .received i) (running : s.closing = false) :
      OwnerStep s { s with owner := .starting (.op i) }
  | wokenClosing {s : State} (woken : s.owner = .woken) (closing : s.closing = true) :
      OwnerStep s { s with owner := .waiting }
  | wokenOpen {s : State} (woken : s.owner = .woken) (running : s.closing = false) :
      OwnerStep s { s with owner := .swapping }
  | swap {s : State} (swapping : s.owner = .swapping) :
      OwnerStep s { s with pending := false, owner := if s.pending then .starting s.passTask else .waiting }
  /-- An operation whose context is done is skipped. -/
  | skip {s : State} (i : ℕ) (starting : s.owner = .starting (.op i)) (canceled : s.canceled i = true) :
      OwnerStep s { s.send i .canceled with owner := .waiting }
  | start {s : State} (task : Task) (starting : s.owner = .starting task) (live : ∀ i, task = .op i → s.canceled i = false) :
      OwnerStep s { s with
        owner := .executing task, running := task :: s.running, result := none, log := .started task :: s.log }
  /-- The task returns, panics or ends its goroutine. -/
  | finish {s : State} (task : Task) (error : String) (running : task ∈ s.running) :
      OwnerStep s { s with running := s.running.erase task, result := some error }
  | result {s : State} (task : Task) (error : String) (executing : s.owner = .executing task)
      (result : s.result = some error) : OwnerStep s { s.deliver error task with owner := .waiting }
  | drain {s : State} (i : ℕ) (rest : List ℕ) (draining : s.owner = .draining) (queue : s.queue = i :: rest) :
      OwnerStep s { s.send i .closed with queue := rest }
  | exit {s : State} (draining : s.owner = .draining) (queue : s.queue = []) : OwnerStep s { s with owner := .exited }

/-- A step of whichever goroutine runs next. -/
inductive Step (queueLen : ℕ) (cancelable : ℕ → Bool) : State → State → Prop where
  | doing {s s' : State} (step : DoStep queueLen cancelable s s') : Step queueLen cancelable s s'
  | reconciling {s s' : State} (step : ReconcileStep s s') : Step queueLen cancelable s s'
  | closing {s s' : State} (step : CloseStep s s') : Step queueLen cancelable s s'
  | owning {s s' : State} (step : OwnerStep s s') : Step queueLen cancelable s s'

end Molebridge.Mutator
