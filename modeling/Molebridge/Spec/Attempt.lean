import Mathlib.Tactic
import Molebridge.Spec.Verdict

/-! internal/attempt: the record of an exit's admission state (attempt.json). Values of
the boot clock are seconds and exact: a sum of them is not rounded. The id, the
start time and the order of the members, which only people read, are left out. -/

namespace Molebridge.Applier

inductive AttemptState where
  | idle
  | pending
  | rejected
  | attempting
  | unverified
  | failed
deriving DecidableEq

/-- The last outcome published for a target. -/
inductive Outcome where
  | verified
  | appliedUnverified
  | pending
  | rejected
  | mutationFailed
deriving DecidableEq

def Outcome.text : Outcome → String
  | verified => "verified"
  | appliedUnverified => "applied-unverified"
  | pending => "pending"
  | rejected => "rejected"
  | mutationFailed => "mutation-failed"

inductive NextAction where
  | recheck
  | reapply
deriving DecidableEq

def NextAction.text : NextAction → String
  | recheck => "recheck"
  | reapply => "reapply"

inductive Certainty where
  | definite
  | uncertain
deriving DecidableEq

inductive Why where
  | invalid
  | catalogue
  | credentials
deriving DecidableEq

def Why.text : Why → String
  | invalid => "invalid"
  | catalogue => "catalogue"
  | credentials => "credentials"

/-- The last rejected panel request and what lifts its rejection. -/
structure Rejected where
  key : String
  reason : String
  why : Why
  release : String
deriving DecidableEq

/-- Why a rejection stands and what lifts it. -/
structure Extra where
  why : Option Why := none
  release : String := ""
deriving DecidableEq

/-- One exit's admission state for its current target. A text is empty for none. -/
structure Attempt where
  source : Option Source := none
  target : String := ""
  targetKey : String := ""
  state : AttemptState := .idle
  outcome : Option Outcome := none
  message : String := ""
  bootId : String := ""
  attempts : ℕ := 0
  backoffStep : ℕ := 0
  nextAction : Option NextAction := none
  nextActionAt : Option ℚ := none
  lastMutationAt : Option ℚ := none
  mutationCertainty : Option Certainty := none
  generation : String := ""
  rejected : Option Rejected := none
  extra : Extra := {}
deriving DecidableEq

def backoffSec : List ℚ := [60, 120, 240, 480, 900]

def reapplyGuardSec : ℚ := 90

def unidentifiedSec : ℚ := 90

/-- The wait of a retry step: the last one's from there on. -/
def backoff (step : ℕ) : ℚ := backoffSec.getD step 900

namespace Attempt

def new (source : Source) (target targetKey bootId : String) (rejected : Option Rejected) (generation : String) :
    Attempt :=
  { source := some source, target, targetKey, bootId, rejected, generation }

/-- Load: the saved attempt, adjusted for this boot; clock values of another boot
mean nothing on this one. -/
def load (saved : Option Attempt) (bootId : String) (now : ℚ) : Attempt :=
  match saved with
  | none => { bootId }
  | some a =>
    if a.bootId = bootId then a
    else
      { a with
        lastMutationAt := none
        nextActionAt := match a.nextAction with
          | some .recheck => some now
          | some .reapply => some (now + backoff a.backoffStep)
          | none => a.nextActionAt
        bootId }

/-- GuardPassed: no mutation happened within the guard time. -/
def guardPassed (a : Attempt) (now : ℚ) : Bool :=
  a.lastMutationAt.elim true fun last => reapplyGuardSec ≤ now - last

/-- Schedule: the next automatic action on the backoff, which advances. -/
def schedule (a : Attempt) (action : NextAction) (now : ℚ) : Attempt :=
  { a with
    nextAction := some action
    nextActionAt := some (now + backoff a.backoffStep)
    backoffStep := a.backoffStep + 1 }

/-- Settle: a verified selection, with no further action. -/
def settle (a : Attempt) : Attempt :=
  { a with
    state := .idle, outcome := some .verified, message := "", nextAction := none, nextActionAt := none,
    backoffStep := 0, mutationCertainty := none }

end Attempt

theorem le_backoff (step : ℕ) : 60 ≤ backoff step := by
  unfold backoff backoffSec
  rcases step with - | - | - | - | - | step <;> norm_num

end Molebridge.Applier
