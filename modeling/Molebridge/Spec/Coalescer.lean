import Molebridge.Spec.Record

/-! internal/exit, the coalescer (asyncio.go) and the publisher over it (publish.go).
What happens under a lock is one step, and so is every operation on a channel; between
them the goroutines interleave in any order. What happens is kept in a log. -/

namespace Molebridge.Exit

/-- A job with the number of its acceptance and what it writes. -/
structure Job (α : Type) where
  number : ℕ
  work : α
  final : Bool

/-- Where the goroutine of the loop is. -/
inductive Loop (α : Type) where
  /-- At the wake channel. -/
  | waiting
  /-- Before it takes what is pending. -/
  | taking
  | running (job : Job α)
  /-- The job returned, and the flag is not yet cleared. -/
  | returned

inductive CoalescerEvent (α : Type) where
  | accepted (job : Job α)
  /-- The pending job was replaced by the one accepted. -/
  | replaced (old new : Job α)
  | started (job : Job α)
  | finished (job : Job α)
  /-- A Wait found nothing queued or running. -/
  | idle

def startedJobs {α : Type} : List (CoalescerEvent α) → List (Job α)
  | [] => []
  | .started job :: rest => job :: startedJobs rest
  | _ :: rest => startedJobs rest

structure Coalescer (α : Type) where
  pending : Option (Job α) := none
  final : Bool := false
  running : Bool := false
  /-- The wake channel, of capacity one, is full. -/
  wake : Bool := false
  loop : Loop α := .waiting
  accepted : ℕ := 0
  /-- The Submit calls that accepted a job and have not yet sent their wake. -/
  sending : ℕ := 0
  /-- Latest first. -/
  log : List (CoalescerEvent α) := []

namespace Coalescer

variable {α : Type}

/-- Submit under its lock: nothing is accepted after a final job. -/
def submit (c : Coalescer α) (work : α) (final : Bool) : Coalescer α :=
  if c.final then c
  else
    let job := { number := c.accepted, work, final }
    { c with
      pending := some job, final, accepted := c.accepted + 1, sending := c.sending + 1
      log := .accepted job :: (c.pending.toList.map (.replaced · job) ++ c.log) }

/-- The end of Submit, which never blocks: a full channel stays full. -/
def send (c : Coalescer α) : Coalescer α := { c with wake := true, sending := c.sending - 1 }

def receive (c : Coalescer α) : Coalescer α := { c with wake := false, loop := .taking }

/-- The loop takes what is pending, under the lock, and goes on to run it. -/
def take (c : Coalescer α) : Coalescer α :=
  match c.pending with
  | none => { c with running := false, loop := .waiting }
  | some job => { c with pending := none, running := true, loop := .running job, log := .started job :: c.log }

def finish (c : Coalescer α) (job : Job α) : Coalescer α := { c with loop := .returned, log := .finished job :: c.log }

def clear (c : Coalescer α) : Coalescer α := { c with running := false, loop := .taking }

/-- Wait returns true on what it finds under the lock. -/
def isIdle (c : Coalescer α) : Bool := c.pending.isNone && !c.running

/-- A step of the loop, or of a Submit that is to send its wake. -/
inductive Advance : Coalescer α → Coalescer α → Prop where
  | send {c : Coalescer α} (sending : 0 < c.sending) : Advance c c.send
  | receive {c : Coalescer α} (waiting : c.loop = .waiting) (wake : c.wake = true) : Advance c c.receive
  | take {c : Coalescer α} (taking : c.loop = .taking) : Advance c c.take
  | finish {c : Coalescer α} (job : Job α) (running : c.loop = .running job) : Advance c (c.finish job)
  | clear {c : Coalescer α} (returned : c.loop = .returned) : Advance c c.clear

inductive Step : Coalescer α → Coalescer α → Prop where
  | submit {c : Coalescer α} (work : α) (final : Bool) : Step c (c.submit work final)
  | advance {c c' : Coalescer α} (advanced : Advance c c') : Step c c'
  | wait {c : Coalescer α} (idle : c.isIdle = true) : Step c { c with log := .idle :: c.log }

/-- The loop is blocked, and no wake is in the channel. -/
def Blocked (c : Coalescer α) : Prop := c.loop = .waiting ∧ c.wake = false

/-- Blocked, with no Submit about to send a wake. -/
def AtRest (c : Coalescer α) : Prop := c.Blocked ∧ c.sending = 0

def started (c : Coalescer α) : List (Job α) := startedJobs c.log

end Coalescer

/-- The publisher of an exit. A job is the record it writes. -/
structure Publisher where
  settings : ExitSettings
  last : Option Members := none
  closed : Bool := false
  out : Coalescer Members := {}

namespace Publisher

def full (p : Publisher) (record : Members) : Publisher :=
  if p.closed then p else { p with last := some record, out := p.out.submit record false }

def leaseOnly (p : Publisher) : Publisher :=
  if p.settings.native = false ∨ p.closed = true then p
  else match p.last with
    | none => p
    | some record => { p with out := p.out.submit record false }

def failure (p : Publisher) (lapse : ℤ) : Publisher :=
  if p.closed then p
  else { p with closed := true, out := p.out.submit (failureRecord p.last p.settings lapse) true }

def close (p : Publisher) : Publisher := { p with closed := true }

/-- A call holds the publisher's lock until its Submit has sent its wake; the loop and
Wait need only the coalescer's. -/
inductive Step : Publisher → Publisher → Prop where
  | full {p : Publisher} (record : Members) (unlocked : p.out.sending = 0) : Step p (p.full record)
  | leaseOnly {p : Publisher} (unlocked : p.out.sending = 0) : Step p p.leaseOnly
  | failure {p : Publisher} (lapse : ℤ) (unlocked : p.out.sending = 0) : Step p (p.failure lapse)
  | close {p : Publisher} (unlocked : p.out.sending = 0) : Step p p.close
  | advance {p : Publisher} {c : Coalescer Members} (advanced : Coalescer.Advance p.out c) : Step p { p with out := c }
  | wait {p : Publisher} (idle : p.out.isIdle = true) :
      Step p { p with out := { p.out with log := .idle :: p.out.log } }

end Publisher

end Molebridge.Exit
