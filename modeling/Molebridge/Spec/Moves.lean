import Molebridge.Spec.Pipeline

/-! The attempt's machine, which the control loop implements: what can happen to an
attempt, one move at a time, and what each move waits for. -/

namespace Molebridge.Applier

/-! ### The trace of a pass -/

def Event.begins : Event → Bool
  | .booted => true
  | .pass _ => true
  | _ => false

/-- The events of the pass so far, latest first. -/
def currentPass (trace : List Event) : List Event := trace.takeWhile fun e => !e.begins

/-- The trigger a mutation may follow from: none before one, and none once ApplyRelay was
called. -/
def admission : List Event → Option Admission
  | [] => none
  | .admitted why :: _ => some why
  | .booted :: _ => none
  | .pass _ :: _ => none
  | .applied _ :: _ => none
  | _ :: rest => admission rest

/-- The event changes neither the pass nor its admission. -/
def Event.quiet : Event → Bool
  | .inspected _ => true
  | .saved _ => true
  | .published _ => true
  | _ => false

/-- The ApplyRelay call that ended last, with nothing but quiet events since. -/
def LastCall (trace : List Event) (call : Application) : Prop :=
  ∃ quiet rest, trace = quiet ++ .applied call :: rest ∧ ∀ e ∈ quiet, e.quiet = true

def Event.asked : Event → Bool
  | .admitted (.newTarget true) => true
  | .admitted (.pending true) => true
  | _ => false

def AskedNow (trace : List Event) : Prop := (currentPass trace).any Event.asked = true

/-- In this pass, and since its gate passed, an inspection did not find the server live
and ok, nor live at all unless a lapsed registration is repaired. -/
def InspectedAfterGate (server : String) (trace : List Event) : Prop :=
  ∃ f later earlier, currentPass trace = later ++ .inspected f :: earlier ∧ .gatePassed ∈ earlier ∧
    ¬ (f.server = server ∧ f.ok = true) ∧ (f.server = server → .admitted .lapse ∈ currentPass trace)

/-- An inspection stands before a mutation of the server. A repair's may be a silent one
from before its gate, at most half a minute old. -/
inductive InspectedFirst (server : String) (trace : List Event) : Prop where
  | afterGate (inspected : InspectedAfterGate server trace)
  | silent (f : Finding) (t : ℚ) (reused : .reused f t ∈ currentPass trace) (seen : .inspected f ∈ trace)
      (silent : f.silent = true) (recent : t - f.time ≤ silentReuseSec) (lapse : .admitted .lapse ∈ currentPass trace)
      (not_ok : ¬ (f.server = server ∧ f.ok = true))

/-! ### The machine -/

/-- What the machine sees of a process. -/
structure View where
  attempt : Attempt
  target : Option Selection
  measurement : Option Finding
  clock : ℚ
  file : Option Attempt
  trace : List Event

def World.view (w : World) : View :=
  { attempt := w.m.attempt, target := w.m.target, measurement := w.m.measurement, clock := w.clock, file := w.file
    trace := w.trace }

/-- What a trigger waits for, at a time. -/
def Admissible (a : Attempt) (t : ℚ) : Admission → Prop
  | .newTarget _ => a.lastMutationAt = none
  | .pending _ => a.state = .pending
  | .released => a.state = .rejected
  | .reconverge => a.guardPassed t = true
  | .due => a.nextAction = some .reapply ∧ a.nextActionAt.any (· ≤ t) = true
  | .lapse => (a.lastMutationAt.elim true fun last => last + backoff a.backoffStep ≤ t) = true

def SameTarget (a b : Attempt) : Prop := b.targetKey = a.targetKey ∧ b.lastMutationAt = a.lastMutationAt

/-- Nothing the machine depends on differs. -/
def SameCourse (a b : Attempt) : Prop :=
  SameTarget a b ∧ b.state = a.state ∧ b.nextAction = a.nextAction ∧ b.nextActionAt = a.nextActionAt

inductive Move : View → View → Prop where
  | wait {v : View} {t : ℚ} (later : v.clock ≤ t) : Move v { v with clock := t }
  | pass {v : View} (target : Option Selection) :
      Move v { v with target, trace := .pass (targetKey target) :: v.trace }
  | inspect {v : View} (f : Finding) : Move v { v with measurement := some f, trace := .inspected f :: v.trace }
  | publish {v : View} (record : Members) : Move v { v with trace := .published record :: v.trace }
  | save {v : View} : Move v { v with file := some v.attempt, trace := .saved v.attempt :: v.trace }
  | touch {v : View} {a : Attempt} (same : SameCourse v.attempt a) : Move v { v with attempt := a }
  | settle {v : View} {a : Attempt} (same : SameTarget v.attempt a) (state : a.state = .idle)
      (next : a.nextAction = none) : Move v { v with attempt := a }
  | unverify {v : View} {a : Attempt} (same : SameTarget v.attempt a) (state : a.state = .unverified)
      (next : a.nextAction = some .recheck) : Move v { v with attempt := a }
  /-- Only a mutation that was attempted fails, and it waits a minute or more. -/
  | fail {v : View} {a : Attempt} {due : ℚ} (same : SameTarget v.attempt a) (attempting : v.attempt.state = .attempting)
      (state : a.state = .failed) (next : a.nextAction = some .reapply) (at_ : a.nextActionAt = some due)
      (paced : v.clock + 60 ≤ due) : Move v { v with attempt := a }
  | hold {v : View} {a : Attempt} (admitted : (admission v.trace).isSome = true) (same : SameTarget v.attempt a)
      (state : a.state = .pending ∨ a.state = .rejected) (next : a.nextAction = none) : Move v { v with attempt := a }
  /-- The mutation's own look at the peers failed. -/
  | look {v : View} : Move v { v with trace := .stuck v.attempt :: v.trace }
  /-- The attempt is pending then, and the next action stays. -/
  | stuck {v : View} {a : Attempt} (admitted : (admission v.trace).isSome = true) (same : SameTarget v.attempt a)
      (looked : v.trace.head? = some (.stuck v.attempt)) (state : a.state = .pending)
      (next : a.nextAction = v.attempt.nextAction) (at_ : a.nextActionAt = v.attempt.nextActionAt) :
      Move v { v with attempt := a }
  | reject {v : View} {a : Attempt} {call : Application} (same : SameTarget v.attempt a)
      (called : LastCall v.trace call) (refused : call.outcome = .credentialRejected)
      (attempting : v.attempt.state = .attempting) (state : a.state = .rejected)
      (next : a.nextAction = v.attempt.nextAction) (at_ : a.nextActionAt = v.attempt.nextActionAt) :
      Move v { v with attempt := a }
  | renew {v : View} {a : Attempt} (changed : targetKey v.target ≠ v.attempt.targetKey)
      (key : a.targetKey = targetKey v.target) (last : a.lastMutationAt = none) (state : a.state = .idle)
      (next : a.nextAction = none) : Move v { v with attempt := a }
  | trigger {v : View} (why : Admission) {t : ℚ} (past : t ≤ v.clock) (admissible : Admissible v.attempt t why)
      (key : targetKey v.target = v.attempt.targetKey) (resting : v.attempt.state ≠ .attempting) :
      Move v { v with trace := .admitted why :: v.trace }
  | gate {v : View} : Move v { v with trace := .gatePassed :: v.trace }
  | reuse {v : View} (f : Finding) (seen : v.measurement = some f) : Move v { v with trace := .reused f v.clock :: v.trace }
  | mutate {v : View} {a : Attempt} (admitted : (admission v.trace).isSome = true)
      (key : a.targetKey = v.attempt.targetKey) (last : a.lastMutationAt = some v.clock) (state : a.state = .attempting)
      (next : a.nextAction = none) : Move v { v with attempt := a }
  | apply {v : View} (call : Application) (key : call.key = v.attempt.targetKey)
      (target : targetKey v.target = v.attempt.targetKey) (attempting : v.attempt.state = .attempting)
      (next : v.attempt.nextAction = none) (recorded : v.attempt.lastMutationAt = some call.mutated)
      (begun : call.started = v.clock) (past : call.mutated ≤ v.clock) (admitted : (admission v.trace).isSome = true)
      (inspected : AskedNow v.trace ∨ InspectedFirst call.server v.trace) :
      Move v { v with trace := .applied call :: v.trace }

/-- A move, or a new process, which reads what was saved. -/
inductive Turn : View → View → Prop where
  | move {v v' : View} (moved : Move v v') : Turn v v'
  | boot {v : View} (bootId : String) (t : ℚ) :
      Turn v { v with
        attempt := .load v.file bootId t, target := none, measurement := none, clock := t, trace := .booted :: v.trace }

end Molebridge.Applier
