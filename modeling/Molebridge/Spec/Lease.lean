import Mathlib.Data.Int.Basic
import Mathlib.Tactic

/-! internal/exit, the supervisor's side of the progress lease. A duration is an
int64 of nanoseconds, here an integer whose sums wrap. Every method reads the
boot clock once, so a call carries the time it reads; a run is a list of timed
calls after one `newGeneration`. -/

namespace Molebridge

def wrap64 (x : ℤ) : ℤ := x.bmod (2 ^ 64)

def second : ℤ := 1000000000
def transitSlack : ℤ := second
def startupAllowance : ℤ := 30 * second

def IsInt64 (x : ℤ) : Prop := -2 ^ 63 ≤ x ∧ x < 2 ^ 63

instance (x : ℤ) : Decidable (IsInt64 x) := inferInstanceAs (Decidable (_ ∧ _))

/-- A renewal as `decode` yields it: a map of loop names to the boot-clock time of
their last completed step, which is not negative. -/
structure Msg where
  gen : String
  seq : ℕ
  loops : List (String × ℤ)
  loops_nodup : (loops.map Prod.fst).Nodup
  loops_nonneg : ∀ x ∈ loops, 0 ≤ x.2 ∧ x.2 < 2 ^ 63

/-- The lease. The bounds stand in the order the loop over the map takes them;
it decides only which reason a refusal names. -/
structure Lease where
  grace : ℤ
  bounds : List (String × ℤ)
  gen : String := ""
  lastSeq : ℕ := 0
  lastStatusSeq : ℕ := 0
  accepted : Bool := false
  deadline : ℤ := 0
  revoked : Bool := true
  lapsed : Bool := false
  grace_int64 : IsInt64 grace
  bounds_nodup : (bounds.map Prod.fst).Nodup
  bounds_int64 : ∀ x ∈ bounds, IsInt64 x.2

/-- Why the loops of a renewal are refused, if they are. -/
def refuseLoops (now : ℤ) (loops : List (String × ℤ)) : List (String × ℤ) → Option String
  | [] => none
  | (name, bound) :: rest =>
    match loops.lookup name with
    | none => some ("the " ++ name ++ " loop is missing")
    | some at_ =>
      if now < at_ then some ("the " ++ name ++ " loop's time is in the future")
      else if wrap64 (bound + transitSlack) < wrap64 (now - at_) then
        some ("the " ++ name ++ " loop is older than its bound")
      else refuseLoops now loops rest

namespace Lease

/-- Records, for good, that the deadline has passed. -/
def noteExpiry (l : Lease) (now : ℤ) : Lease :=
  if !l.revoked && l.deadline ≤ now then { l with lapsed := true } else l

/-- NewGeneration; `gen` is what was drawn. -/
def newGeneration (l : Lease) (gen : String) (now : ℤ) : Lease :=
  { l with gen := gen, lastSeq := 0, lastStatusSeq := 0, accepted := false, revoked := false,
           lapsed := false, deadline := wrap64 (now + startupAllowance) }

def revoke (l : Lease) : Lease := { l with revoked := true }

/-- The reason a renewal is refused, of a lease whose expiry is noted. -/
def refusal (l : Lease) (now : ℤ) (m : Msg) : Option String :=
  if l.revoked then some "the lease is revoked"
  else if l.lapsed then some "the lease has expired"
  else if m.gen ≠ l.gen then some "stale generation"
  else if m.seq ≤ l.lastSeq then some "sequence number not above the last accepted"
  else if m.loops.length ≠ l.bounds.length then
    some "the loops reported are not the loops supervised"
  else refuseLoops now m.loops l.bounds

/-- Judges a renewal; on acceptance the expiry becomes now plus the grace. -/
def accept (l : Lease) (now : ℤ) (m : Msg) : Except String ℤ × Lease :=
  let l := l.noteExpiry now
  match l.refusal now m with
  | some reason => (.error reason, l)
  | none =>
    let deadline := wrap64 (now + l.grace)
    (.ok deadline, { l with lastSeq := m.seq, accepted := true, deadline := deadline })

def acceptStatus (l : Lease) (now : ℤ) (gen : String) (seq : ℕ) : Bool × Lease :=
  let l := l.noteExpiry now
  if l.revoked || l.lapsed || gen ≠ l.gen || seq ≤ l.lastStatusSeq then (false, l)
  else (true, { l with lastStatusSeq := seq })

def held (l : Lease) (now : ℤ) : Bool :=
  !l.revoked && !l.lapsed && l.accepted && now < l.deadline

def expiry (l : Lease) : Option ℤ := if l.revoked || !l.accepted then none else some l.deadline

def hasLapsed (l : Lease) (now : ℤ) : Bool := !l.revoked && (l.lapsed || l.deadline ≤ now)

end Lease

/-! ### Runs -/

inductive Call where
  | accept (m : Msg)
  | acceptStatus (gen : String) (seq : ℕ)
  | held
  | lapsed
  | expiry
  | revoke

inductive Response where
  | renewed (expiry : ℤ)
  | refused (reason : String)
  | answer (b : Bool)
  | expiry (e : Option ℤ)
  | done

namespace Lease

def step (l : Lease) (now : ℤ) : Call → Response × Lease
  | .accept m => match l.accept now m with
    | (.ok e, l') => (.renewed e, l')
    | (.error reason, l') => (.refused reason, l')
  | .acceptStatus gen seq => let (b, l') := l.acceptStatus now gen seq; (.answer b, l')
  | .held => (.answer (l.held now), l)
  | .lapsed => (.answer (l.hasLapsed now), l)
  | .expiry => (.expiry l.expiry, l)
  | .revoke => (.done, l.revoke)

def after (l : Lease) : List (ℤ × Call) → Lease
  | [] => l
  | (now, c) :: rest => (l.step now c).2.after rest

/-- The calls of a run with their times and what they returned. -/
def trace (l : Lease) : List (ℤ × Call) → List (ℤ × Call × Response)
  | [] => []
  | (now, c) :: rest => (now, c, (l.step now c).1) :: (l.step now c).2.trace rest

end Lease

/-- The renewal a trace entry accepted, with its time and expiry. -/
def renewal : ℤ × Call × Response → Option (ℤ × Msg × ℤ)
  | (now, .accept m, .renewed e) => some (now, m, e)
  | _ => none

def statusRecord : ℤ × Call × Response → Option (String × ℕ)
  | (_, .acceptStatus gen seq, .answer true) => some (gen, seq)
  | _ => none

/-- The deadline in force after a trace that started at `start`: the expiry of
the last accepted renewal, or the first one's due time. -/
def deadlineInForce (start : ℤ) (tr : List (ℤ × Call × Response)) : ℤ :=
  ((tr.filterMap renewal).getLast?.map (·.2.2)).getD (wrap64 (start + startupAllowance))

/-- The times of a run on a non-negative, non-decreasing clock, up to `now`. -/
def Clocked (start now : ℤ) (calls : List (ℤ × Call)) : Prop :=
  0 ≤ start ∧ (start :: calls.map Prod.fst ++ [now]).Pairwise (· ≤ ·) ∧ now < 2 ^ 63

instance (start now : ℤ) (calls : List (ℤ × Call)) : Decidable (Clocked start now calls) :=
  inferInstanceAs (Decidable (_ ∧ _ ∧ _))

end Molebridge
