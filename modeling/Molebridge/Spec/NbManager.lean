import Mathlib.Logic.Function.Basic
import Mathlib.Data.List.Basic

/-! internal/exit, the NetBird manager (netbird.go): the launches, the processes they start
and the stop. A section under the manager's lock is one step, and so is each operation
outside it; the goroutines take their steps in any order. Signals are not recorded: a
process ends at any time. -/

namespace Molebridge.Exit

/-- What a launch starts: the daemon, then checks until it answers, then netbird up. -/
inductive Stage where
  | service
  | check (svc : ℕ)
  | up (svc : ℕ)
deriving DecidableEq

/-- Where a launch's goroutine is. -/
inductive Launch where
  | unstarted
  /-- In spawn, before admit. -/
  | spawning (stage : Stage)
  /-- Counted by admit, before the process exists. -/
  | creating (stage : Stage)
  /-- The process exists and is not tracked yet. -/
  | attaching (stage : Stage) (p : ℕ)
  /-- Before the count goes down; nothing for a failed or late creation. -/
  | leaving (stage : Stage) (p : Option ℕ)
  | polling (svc : ℕ)
  | probing (svc p : ℕ)
  | sleeping (svc : ℕ)
  | upping (svc up : ℕ)
  | watching (svc : ℕ)
  | ended
deriving DecidableEq

def Stage.failed : Stage → Launch
  | .service => .ended
  | .check svc => .sleeping svc
  | .up _ => .ended

def Stage.spawned (p : ℕ) : Stage → Launch
  | .service => .polling p
  | .check svc => .probing svc p
  | .up svc => .upping svc p

def Stage.left (stage : Stage) : Option ℕ → Launch
  | none => stage.failed
  | some p => stage.spawned p

/-- A process creation that admit counted. -/
def Launch.InFlight : Launch → Prop
  | .creating _ => True
  | .attaching _ _ => True
  | .leaving _ _ => True
  | _ => False

/-- Where a call of Alive is. -/
inductive AliveCall where
  | uncalled
  | loading
  /-- No creation was in flight. -/
  | snapshotting
  | checking (rest : List ℕ)
  /-- The process was reaped; its group is asked for next. -/
  | grouping (p : ℕ) (rest : List ℕ)
  | answered (alive : Bool)
deriving DecidableEq

/-- Where the goroutine of Stop is. -/
inductive StopCall where
  | idle
  /-- It waits for the launch's goroutine, for NBTerm at most. -/
  | joining (launch : ℕ)
  /-- In waitGone, the first time or after KillAll. -/
  | waiting (launch : ℕ) (alive : AliveCall) (killed : Bool)
  | finishing (launch : ℕ) (gone : Bool)
deriving DecidableEq

structure NbManager where
  closed : Bool := false
  active : Bool := false
  stopping : Bool := false
  /-- The number of the last launch. -/
  launch : ℕ := 0
  /-- The launches whose context is done. -/
  cancelled : ℕ → Bool := fun _ => false
  run : ℕ → Launch := fun _ => .unstarted
  procs : List ℕ := []
  /-- Process creations in flight. -/
  pending : ℕ := 0
  stopCall : StopCall := .idle
  alive : ℕ → AliveCall := fun _ => .uncalled
  /-- How many processes were created, each the leader of a group of its own. -/
  created : ℕ := 0
  launchOf : ℕ → ℕ := fun _ => 0
  /-- The processes whose status the reaper has collected. -/
  reaped : ℕ → Bool := fun _ => false
  /-- The groups in which no process is left. -/
  emptied : ℕ → Bool := fun _ => false

namespace NbManager

variable (m : NbManager)

def isGone (p : ℕ) : Bool := m.reaped p && m.emptied p

def setRun (n : ℕ) (l : Launch) : NbManager := { m with run := Function.update m.run n l }

/-- The context of the running launch is cancelled. -/
def cancel : NbManager :=
  if m.launch = 0 then m else { m with cancelled := Function.update m.cancelled m.launch true }

def pruneLocked : NbManager := { m with procs := m.procs.filter fun p => !m.isGone p }

def refuses : Bool := m.closed || m.active || m.stopping

def start : NbManager :=
  if m.refuses then m
  else { m.pruneLocked.setRun (m.launch + 1) (.spawning .service) with active := true, launch := m.launch + 1 }

def isActive : Bool := m.active || m.stopping

def close : NbManager := { m.cancel with closed := true }

def stop : NbManager :=
  if !m.active || m.stopping then m else { m.cancel with stopping := true, stopCall := .joining m.launch }

/-- The launch may not start a process: the test of admit, and of spawn once more. -/
def isCancelled (n : ℕ) : Bool := m.closed || m.launch != n || m.cancelled n

end NbManager

open NbManager

inductive LaunchStep : NbManager → NbManager → Prop where
  /-- The program or the pipe was not there. -/
  | missing {m : NbManager} (n : ℕ) (stage : Stage) (spawning : m.run n = .spawning stage) :
      LaunchStep m (m.setRun n stage.failed)
  | refused {m : NbManager} (n : ℕ) (stage : Stage) (spawning : m.run n = .spawning stage)
      (cancelled : m.isCancelled n = true) : LaunchStep m (m.setRun n stage.failed)
  | admitted {m : NbManager} (n : ℕ) (stage : Stage) (spawning : m.run n = .spawning stage)
      (live : m.isCancelled n = false) : LaunchStep m { m.setRun n (.creating stage) with pending := m.pending + 1 }
  | uncreated {m : NbManager} (n : ℕ) (stage : Stage) (creating : m.run n = .creating stage) :
      LaunchStep m (m.setRun n (.leaving stage none))
  | create {m : NbManager} (n : ℕ) (stage : Stage) (creating : m.run n = .creating stage) :
      LaunchStep m { m.setRun n (.attaching stage m.created) with
        created := m.created + 1
        launchOf := Function.update m.launchOf m.created n
        reaped := Function.update m.reaped m.created false
        emptied := Function.update m.emptied m.created false }
  /-- A child that comes too late is killed before the count goes down. -/
  | attach {m : NbManager} (n : ℕ) (stage : Stage) (p : ℕ) (attaching : m.run n = .attaching stage p) :
      LaunchStep m { m.setRun n (.leaving stage (if m.isCancelled n then none else some p)) with procs := m.procs ++ [p] }
  | leave {m : NbManager} (n : ℕ) (stage : Stage) (p : Option ℕ) (leaving : m.run n = .leaving stage p) :
      LaunchStep m { m.setRun n (stage.left p) with pending := m.pending - 1 }
  | poll {m : NbManager} (n svc : ℕ) (polling : m.run n = .polling svc) (running : m.reaped svc = false) :
      LaunchStep m (m.setRun n (.spawning (.check svc)))
  | polled {m : NbManager} (n svc : ℕ) (polling : m.run n = .polling svc)
      (done : m.cancelled n = true ∨ m.reaped svc = true) : LaunchStep m (m.setRun n .ended)
  /-- The check exited 0. -/
  | answered {m : NbManager} (n svc p : ℕ) (probing : m.run n = .probing svc p) (exited : m.reaped p = true) :
      LaunchStep m (m.setRun n (.spawning (.up svc)))
  /-- The check failed, or was late or cancelled. -/
  | unanswered {m : NbManager} (n svc p : ℕ) (probing : m.run n = .probing svc p) :
      LaunchStep m (m.setRun n (.sleeping svc))
  | slept {m : NbManager} (n svc : ℕ) (sleeping : m.run n = .sleeping svc) : LaunchStep m (m.setRun n (.polling svc))
  /-- The daemon did not become responsive, or the launch was cancelled. -/
  | gaveUp {m : NbManager} (n svc : ℕ) (sleeping : m.run n = .sleeping svc) : LaunchStep m (m.setRun n .ended)
  | up {m : NbManager} (n svc p : ℕ) (upping : m.run n = .upping svc p) (exited : m.reaped p = true) :
      LaunchStep m (m.setRun n (.watching svc))
  /-- It failed or was late, the daemon exited, or the launch was cancelled. -/
  | notUp {m : NbManager} (n svc p : ℕ) (upping : m.run n = .upping svc p) : LaunchStep m (m.setRun n .ended)
  | watched {m : NbManager} (n svc : ℕ) (watching : m.run n = .watching svc)
      (done : m.cancelled n = true ∨ m.reaped svc = true) : LaunchStep m (m.setRun n .ended)

inductive AliveStep (m : NbManager) : AliveCall → AliveCall → Prop where
  | busy (inFlight : 0 < m.pending) : AliveStep m .loading (.answered true)
  | load (none : m.pending = 0) : AliveStep m .loading .snapshotting
  | snapshot : AliveStep m .snapshotting (.checking m.procs)
  | unreaped (p : ℕ) (rest : List ℕ) (running : m.reaped p = false) :
      AliveStep m (.checking (p :: rest)) (.answered true)
  | reaped (p : ℕ) (rest : List ℕ) (reaped : m.reaped p = true) :
      AliveStep m (.checking (p :: rest)) (.grouping p rest)
  | groupAlive (p : ℕ) (rest : List ℕ) (left : m.emptied p = false) :
      AliveStep m (.grouping p rest) (.answered true)
  | gone (p : ℕ) (rest : List ℕ) (emptied : m.emptied p = true) :
      AliveStep m (.grouping p rest) (.checking rest)
  | clear : AliveStep m (.checking []) (.answered false)

inductive StopStep : NbManager → NbManager → Prop where
  /-- The launch's goroutine has ended, or NBTerm is over. -/
  | join {m : NbManager} (n : ℕ) (joining : m.stopCall = .joining n) :
      StopStep m { m with stopCall := .waiting n .loading false }
  | look {m : NbManager} (n : ℕ) (c c' : AliveCall) (killed : Bool) (waiting : m.stopCall = .waiting n c killed)
      (step : AliveStep m c c') : StopStep m { m with stopCall := .waiting n c' killed }
  | again {m : NbManager} (n : ℕ) (killed : Bool) (waiting : m.stopCall = .waiting n (.answered true) killed) :
      StopStep m { m with stopCall := .waiting n .loading killed }
  /-- The first wait is over: KillAll, and a second wait. -/
  | kill {m : NbManager} (n : ℕ) (waiting : m.stopCall = .waiting n (.answered true) false) :
      StopStep m { m with stopCall := .waiting n .loading true }
  | survived {m : NbManager} (n : ℕ) (waiting : m.stopCall = .waiting n (.answered true) true) :
      StopStep m { m with stopCall := .finishing n false }
  | found {m : NbManager} (n : ℕ) (killed : Bool) (waiting : m.stopCall = .waiting n (.answered false) killed) :
      StopStep m { m with stopCall := .finishing n true }
  | finish {m : NbManager} (n : ℕ) (gone : Bool) (finishing : m.stopCall = .finishing n gone) :
      StopStep m { m with active := false, stopping := false, stopCall := .idle }

/-- A step of a process: its status is collected, or its group is left empty. -/
inductive ProcStep : NbManager → NbManager → Prop where
  | reap {m : NbManager} (p : ℕ) : ProcStep m { m with reaped := Function.update m.reaped p true }
  | empty {m : NbManager} (p : ℕ) : ProcStep m { m with emptied := Function.update m.emptied p true }

/-- What goes on beside the manager's callers. -/
inductive NbStep : NbManager → NbManager → Prop where
  | launch {m m' : NbManager} (step : LaunchStep m m') : NbStep m m'
  | stop {m m' : NbManager} (step : StopStep m m') : NbStep m m'
  | proc {m m' : NbManager} (step : ProcStep m m') : NbStep m m'
  | alive {m : NbManager} (i : ℕ) (c : AliveCall) (step : AliveStep m (m.alive i) c) :
      NbStep m { m with alive := Function.update m.alive i c }

/-- A step of the manager, with its callers. -/
inductive ManagerStep : NbManager → NbManager → Prop where
  | start {m : NbManager} : ManagerStep m m.start
  | stop {m : NbManager} : ManagerStep m m.stop
  | close {m : NbManager} : ManagerStep m m.close
  | alive {m : NbManager} (i : ℕ) (uncalled : m.alive i = .uncalled) :
      ManagerStep m { m with alive := Function.update m.alive i .loading }
  | goes {m m' : NbManager} (step : NbStep m m') : ManagerStep m m'

end Molebridge.Exit
