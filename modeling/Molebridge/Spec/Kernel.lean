import Molebridge.Spec.Policy

/-! The kernel's lookup for one packet, as a run from the first rule on: the
first rule that matches acts, a lookup that finds nothing goes on to the next
rule, a goto skips to its target. What the policy model cannot know is decided
by `Choices`. -/

namespace Molebridge

/-- One way of deciding what the model leaves open. A rule is named by the
number of rules behind it, a route by its position in its table. -/
structure Choices where
  /-- A selector the model does not evaluate (an unknown attribute, a flag bit,
  a rule that does not parse) matches. -/
  selector : ℕ → Bool
  /-- The output interface of a packet the namespace sends matches. -/
  oif : ℕ → Bool
  /-- The lookup of a table that was not read answers. -/
  answers : ℕ → Bool
  /-- A route that may or may not be used is used by the rule's lookup. -/
  used : ℕ → ℕ → Bool
  /-- The result of a lookup with suppress_ifgroup is suppressed. -/
  suppressed : ℕ → Bool

/-- A prefix selector is absent, of length zero, or contains the address. -/
def inPrefix (p : Option Prefix) (a : Option Addr) : Bool :=
  match p, a with
  | none, _ => true
  | some p, none => p.bits == 0
  | some p, some a => p.bits == 0 || p.contains a

def inRange (r : Option (ℕ × ℕ)) (v : ℕ) : Bool :=
  match r with
  | none => true
  | some (lo, hi) => lo ≤ v && v ≤ hi

/-- fib_rule_match: every selector matches, inverted where the rule says so. -/
def kernelMatches (ch : Choices) (n : ℕ) (r : Rule) (p : Packet) : Bool :=
  let m := [r.iifName == "" || r.iifName == p.iif,
    r.oifName == "" || (p.iif == "lo" && ch.oif n),
    inPrefix r.src p.src, inPrefix r.dst (some p.dst),
    (r.effectiveMark.1 ^^^ p.mark) &&& r.effectiveMark.2 == 0,
    r.ipProto.all fun v => v == 0 || v == p.proto,
    r.tos == 0 || r.tos == p.tos,
    r.l3Mdev.all fun v => v == 0 || p.l3,
    inRange r.ext.uid p.uid.toNat, inRange r.ext.sport p.sport.toNat,
    inRange r.ext.dport p.dport.toNat,
    r.ext.dscp.all fun d => p.tos >>> 2 == d,
    !(r.ext.other || r.bad || r.extraFlags != 0) || ch.selector n].all id
  m != r.invert

/-- The input interface of the packet may be the one a route asks for: the
overlay interface and lo (index 1) are known, any other is left open. -/
def iifDecision (s : State) (p : Packet) (iif : ℕ) (choice : Bool) : Bool :=
  if p.iif = s.spec.config.overlayIf ∧ s.overlayIdx ≠ 0 then iif == s.overlayIdx
  else if p.iif = "lo" then iif == 1
  else choice

/-- A route takes part in a lookup: it covers the destination, its TOS, source
and input interface match, and it is used although it may be down. -/
def kernelUses (s : State) (p : Packet) (choice : Bool) (rt : Route) : Bool :=
  rt.dst.any (·.contains p.dst) &&
  (rt.family == .v6 || rt.tos == 0 || rt.tos == p.tos) &&
  inPrefix rt.src p.src &&
  rt.iif.all (fun iif => iifDecision s p iif choice) &&
  (!rt.faulty || choice)

/-- What the route that was found answers: an error is never suppressed, another
result is when its prefix is too short or its device is of the group. -/
def kernelAnswer (r : Rule) (rt : Route) (suppressed : Bool) : Option Outcome :=
  match disposition rt with
  | none => none
  | some o =>
    if o.kind = .stopped then some o
    else if r.suppressPrefixLen.any (rt.len ≤ ·) then none
    else if r.suppressIfGroup.isSome && suppressed then none
    else some o

/-- The answer of a rule's lookup; `none` goes on to the next rule. -/
def kernelLookup (s : State) (ch : Choices) (n : ℕ) (r : Rule) (p : Packet) : Option Outcome :=
  if r.table = tableLocal then
    if s.isLocal p.f p.dst then some { kind := .loc, table := r.table } else none
  else if !s.known.contains r.table then
    if ch.answers n then some { kind := .viaTable, table := r.table } else none
  else
    let usable := (s.tableRoutes p.f r.table).zipIdx.filter fun x =>
      kernelUses s p (ch.used n x.2) x.1
    (firstMin (fun a b => routeLess (p.f == .v4) a.1 b.1) usable).bind fun x =>
      kernelAnswer r x.1 (ch.suppressed n)

/-- The run through the rules; `skip` is the target of a goto that was taken. -/
def kernelRun (s : State) (ch : Choices) (p : Packet) : Option ℕ → List Rule → Outcome
  | _, [] => { kind := .stopped }
  | skip, r :: later =>
    if skip.any (· != r.priority) then kernelRun s ch p skip later
    else if !kernelMatches ch later.length r p then kernelRun s ch p none later
    else if r.action = frActToTbl then
      match kernelLookup s ch later.length r p with
      | some o => o
      | none => kernelRun s ch p none later
    else if r.action = frActUnreachable ∨ r.action = frActProhibit ∨ r.action = frActBlackhole then
      { kind := .stopped }
    else if r.action = frActGoto then
      kernelRun s ch p (r.goto.filter fun t => later.any (·.priority == t)) later
    else kernelRun s ch p none later

def kernelWalk (s : State) (ch : Choices) (p : Packet) : Outcome := kernelRun s ch p none (s.rules p.f)

end Molebridge
