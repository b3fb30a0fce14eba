import Molebridge.Spec.Contract

/-! internal/rtnl, a request socket with its change subscription: the snapshot
(`takeContext`), the stable read of one family's rules (`rulesStable`) and the
test for changes of others (`foreignChange`).

The kernel and everybody else in it are part of the state. Others change the
kernel one change at a time: a change takes effect and holds the rtnl lock until
its notification is queued, as kernels before 6.18 do. What they do between two
steps of the code, which requests fail and when the deadline passes is given in
advance (`World.env`), one `Move` for each step, so that a statement about every
`World` is one about every interleaving. The barrier is acknowledged, so a drain
reads what is waiting and does not wait for more. -/

namespace Molebridge

inductive EventKind where
  | rule
  | route
  | link
  | addr
deriving DecidableEq

/-- One multicast notification; `err` says that it does not decode. -/
structure Event where
  kind : EventKind
  table : ℕ := 0
  err : Bool := false
  pid : ℕ := 0
deriving DecidableEq

/-- What the kernel holds: the rules of a family in priority order, the routes
table by table. -/
structure Kern where
  rules : Family → List Rule := fun _ => []
  routes : Family → ℕ → List Route := fun _ _ => []
  addrs : Family → List IfAddr := fun _ => []
  links : List Link := []
  rules_sorted : ∀ f, (rules f).Pairwise fun a b => a.priority ≤ b.priority
  routes_table : ∀ f t, ∀ r ∈ routes f t, r.table = t

namespace Kern

theorem no_routes (_ : Family) (t : ℕ) : ∀ r ∈ ([] : List Route), r.table = t := by simp

def wanted (tables : List ℕ) (f : Family) (k : Kern) : List Route := tables.dedup.flatMap (k.routes f)

/-- What a snapshot that reads the tables is to show. -/
def view (tables : List ℕ) (k : Kern) : Snapshot :=
  { rules := k.rules, routes := fun f => k.wanted tables f, links := k.links, addrs := k.addrs }

end Kern

/-- A change somebody makes. A route notification that decodes is of a change in
its table; the others may be of a change of anything. -/
structure Change where
  event : Event
  apply : Kern → Kern
  elsewhere : ∀ k, event.kind = .route → event.err = false →
    (apply k).rules = k.rules ∧ (apply k).addrs = k.addrs ∧ (apply k).links = k.links ∧
      ∀ f t, t ≠ event.table → (apply k).routes f t = k.routes f t

def relevantToSnapshot (tables : List ℕ) (e : Event) : Bool :=
  e.err || e.kind != .route || tables.contains e.table

/-! ### The subscription -/

/-- The queue of the subscription socket. When it is full a notification is
dropped and the reader is told once; until it has been read empty the socket is
congested, and what is dropped meanwhile is dropped without another error. -/
structure Sub where
  queue : List Event := []
  cap : ℕ
  overrun : Bool := false
  congested : Bool := false
deriving DecidableEq

inductive ReadResult where
  | events (l : List Event)
  | overrun
  | timeout
  | failed
deriving DecidableEq

namespace Sub

def full (s : Sub) : Bool := s.congested || s.cap ≤ s.queue.length

def notify (s : Sub) (e : Event) : Sub :=
  if s.full then { s with overrun := s.overrun || !s.congested, congested := true }
  else { s with queue := s.queue ++ [e] }

def poll (s : Sub) : ReadResult × Sub :=
  if s.overrun then (.overrun, { s with overrun := false, congested := s.congested && !s.queue.isEmpty })
  else match s.queue with
    | [] => (.timeout, { s with congested := false })
    | e :: rest => (.events [e], { s with queue := rest, congested := s.congested && !rest.isEmpty })

/-- Notifications are being dropped and no read will say so. -/
def silent (s : Sub) : Bool := s.congested && !s.overrun

end Sub

/-! ### The world -/

/-- What somebody else does. -/
inductive Act where
  | change (c : Change)
  | notify

/-- How a request ends: acknowledged, refused because what it adds is there or what
it deletes is not, interrupted, with the stream broken, or with another error. -/
inductive Fault where
  | done
  | exist
  | notExist
  | interrupted
  | stream
  | failed
deriving DecidableEq

/-- What happens around one step of the code: the others' acts, whether the
deadline passes, how the step's request ends and whether one that failed took
effect all the same, what a dump shows of what changed under it, the size of a
replaced subscription and the port id a replaced request socket gets. -/
structure Move where
  acts : List Act := []
  late : Bool := false
  fault : Fault := .done
  reached : Bool := false
  seen : Snapshot := {}
  cap : ℕ := 0
  pid : ℕ := 0

/-- Where the dumps of the last look started and ended in the list of changes,
and whether the subscription was silent when they started. -/
structure Dumps where
  first : ℕ := 0
  last : ℕ := 0
  silent : Bool := false

/-- The kernel, the others and a Conn. `past` are the changes that took effect so
far, each with the kernel after it; `dumps`, `quiet` (the kernel at the last
barrier), `read` (the notifications read, or thrown away with their subscription)
and `lost` (the kernel dropped one) are recorded for statements and read by
nothing. -/
structure World where
  boot : Kern
  past : List (Event × Kern) := []
  lock : Option Event := none
  sub : Option Sub := none
  pid : ℕ := 0
  late : Bool := false
  env : ℕ → Move
  tick : ℕ := 0
  dumps : Dumps := {}
  quiet : Kern := boot
  read : List Event := []
  lost : Bool := false

namespace World

def kernAt (w : World) (i : ℕ) : Kern := ((w.past.take i).getLast?.map (·.2)).getD w.boot

def kern (w : World) : Kern := (w.past.getLast?.map (·.2)).getD w.boot

def change (w : World) (c : Change) : World :=
  { w with past := w.past ++ [(c.event, c.apply w.kern)], lock := some c.event }

/-- The change under way queues its notification and releases the lock. -/
def release (w : World) (e : Event) : World :=
  { w with lock := none, sub := w.sub.map (·.notify e), lost := w.lost || w.sub.elim false Sub.full }

def notify (w : World) : World :=
  match w.lock with
  | none => w
  | some e => w.release e

def act (w : World) : Act → World
  | .notify => w.notify
  | .change c => match w.lock with
    | some _ => w
    | none => w.change c

def move (w : World) : Move := w.env w.tick

def acts (w : World) (l : List Act) : World := l.foldl act w

def clocked (w : World) (late : Bool) : World := { w with tick := w.tick + 1, late := w.late || late }

/-- One step's worth of what the others do. -/
def pass (w : World) : World := (w.acts w.move.acts).clocked w.move.late

def polled (w : World) (s : Sub) : World :=
  { w with sub := some s.poll.2,
           read := match s.poll.1 with
             | .events l => w.read ++ l
             | _ => w.read }

/-- Another subscription takes the old one's place, or none does: what was waiting
on the old one is gone. -/
def reopened (w : World) (cap : Option ℕ) : World :=
  { w with read := w.read ++ w.sub.elim [] (·.queue), sub := cap.map fun c => { cap := c } }

def marked (w : World) : World :=
  { w with dumps := { first := w.past.length, last := w.past.length,
                      silent := w.sub.elim false Sub.silent } }

/-- Another request socket takes the old one's place. -/
def redialed (w : World) : World := { w with pid := w.move.pid }

/-- A part of the kernel that stayed as it was while the others acted. -/
def steady {α : Type} [DecidableEq α] (part : Kern → α) (w : World) : Bool :=
  (List.range (w.move.acts.length + 1)).all fun i =>
    part (w.acts (w.move.acts.take i)).kern = part w.kern

end World

/-- The errors the code tells apart: out of time, notifications that cannot be
read, an interrupted dump, a replaced request socket, dumps that disagree, EEXIST,
a missing object, a refused deletion, a rule that was not read back, any other. -/
inductive RtErr where
  | deadline
  | observation
  | interrupted
  | stream
  | inconsistent
  | exist
  | notExist
  | unsafeDeletion
  | unconfirmed
  | failed
deriving DecidableEq

def Fault.err : Fault → Option RtErr
  | .done => none
  | .exist => some .exist
  | .notExist => some .notExist
  | .interrupted => some .interrupted
  | .stream => some .stream
  | .failed => some .failed

abbrev ConnM := StateM World

/-- The request's error, if it fails. A stream error replaces the request socket. -/
def requested (mv : Move) : ConnM (Option RtErr) := do
  if mv.fault = .stream then modify World.redialed
  return mv.fault.err

def expired : ConnM Bool := do
  modify World.pass
  return (← get).late

def readEvents : ConnM ReadResult := do
  let mv := (← get).move
  modify World.pass
  let w ← get
  match w.sub with
  | none => return .failed
  | some s =>
    if mv.fault = .done then do
      set (w.polled s)
      return s.poll.1
    else return .failed

/-- settleChurnFor; the loop has `n` reads left. -/
def settleChurnFor (report : Bool) (relevant : Event → Bool) : ℕ → Bool → ConnM (Except RtErr Bool)
  | 0, _ => return .ok report
  | n + 1, changed => do
    if ← expired then return .error .deadline
    else match ← readEvents with
      | .overrun => return .ok true
      | .timeout => return if ← expired then .error .deadline else .ok changed
      | .failed => return .error .observation
      | .events l =>
        if report && l.any relevant then return .ok true
        else settleChurnFor report relevant n (changed || l.any relevant)

def drainReads : ℕ := 256

def settleChurn (tables : List ℕ) (report : Bool) : ConnM (Except RtErr Bool) :=
  settleChurnFor report (relevantToSnapshot tables) drainReads false

def settleRuleChurn (report : Bool) : ConnM (Except RtErr Bool) :=
  settleChurnFor report (fun e => e.err || e.kind == .rule) drainReads false

def reopenChurn : ConnM Unit := do
  let mv := (← get).move
  modify World.pass
  modify fun w => w.reopened (if mv.fault = .done then some mv.cap else none)

/-- The barrier waits for the change under way, if there is one. -/
def barrier : ConnM (Option RtErr) := do
  let mv := (← get).move
  modify World.pass
  modify World.notify
  modify fun w => { w with quiet := w.kern }
  requested mv

/-! ### Dumps -/

/-- A dump takes no lock: it shows what stayed as it was while it ran, and may
show anything of what did not. -/
def dump {α : Type} [DecidableEq α] (part : Kern → α) (seen : Snapshot → α) :
    ConnM (Except RtErr α) := do
  let w ← get
  modify World.pass
  modify fun w => { w with dumps := { w.dumps with last := w.past.length } }
  match ← requested w.move with
  | some e => return .error e
  | none => return .ok (if w.steady part then part w.kern else seen w.move.seen)

def rulesOnce (f : Family) : ConnM (Except RtErr (List Rule)) :=
  dump (fun k => k.rules f) fun s => s.rules f

def routesOnce (tables : List ℕ) (f : Family) : ConnM (Except RtErr (List Route)) :=
  dump (Kern.wanted tables f) fun s => s.routes f

def addrsOnce (f : Family) : ConnM (Except RtErr (List IfAddr)) :=
  dump (fun k => k.addrs f) fun s => s.addrs f

def linksOnce : ConnM (Except RtErr (List Link)) := dump Kern.links Snapshot.links

/-- The body of the loop of `takeOnce` over the families. -/
def familyOnce (tables : List ℕ) (f : Family) :
    ConnM (Except RtErr (List Rule × List Route × List IfAddr)) := do
  match ← rulesOnce f with
  | .error e => return .error e
  | .ok rules => match ← routesOnce tables f with
    | .error e => return .error e
    | .ok routes => match ← addrsOnce f with
      | .error e => return .error e
      | .ok addrs => return .ok (rules, routes, addrs)

def byFamily {α : Type} (a b : α) : Family → α
  | .v4 => a
  | .v6 => b

def takeOnce (tables : List ℕ) : ConnM (Except RtErr Snapshot) := do
  modify World.marked
  match ← familyOnce tables .v4 with
  | .error e => return .error e
  | .ok (r4, t4, a4) => match ← familyOnce tables .v6 with
    | .error e => return .error e
    | .ok (r6, t6, a6) => match ← linksOnce with
      | .error e => return .error e
      | .ok links => return .ok { rules := byFamily r4 r6, routes := byFamily t4 t6,
                                  addrs := byFamily a4 a6, links := links }

/-- The second look of a snapshot: the rules of both families. -/
def takeRulesOnce : ConnM (Except RtErr (List Rule × List Rule)) := do
  match ← rulesOnce .v4 with
  | .error e => return .error e
  | .ok r4 => match ← rulesOnce .v6 with
    | .error e => return .error e
    | .ok r6 => return .ok (r4, r6)

/-- ruleIdentity: what the kernel compares to call two rules alike. -/
def ruleIdentity (r : Rule) : String :=
  toString r.priority ++ " [" ++ String.intercalate " " (r.itemTexts.filter (· ≠ "not")) ++
    "] proto " ++ toString (r.protocol.getD 0).toNat

def hasRepeats : List Rule → Bool
  | [] => false
  | r :: rest => rest.any (fun x => ruleIdentity x == ruleIdentity r) || hasRepeats rest

def repeatLooks : ℕ := 2

/-- confirmRepeats, with `n` looks left. -/
def confirmRepeats (s : Snapshot) : ℕ → ConnM (Except RtErr Bool)
  | 0 => return .ok true
  | n + 1 => do
    match ← takeRulesOnce with
    | .error e => return .error e
    | .ok (r4, r6) =>
      if s.rules .v4 = r4 ∧ s.rules .v6 = r6 then confirmRepeats s n else return .ok false

/-! ### TakeContext -/

/-- One attempt ends the call, or is followed by another with the last error and
what was seen. -/
inductive Attempt (α : Type) where
  | done (r : Except RtErr α)
  | again (last : RtErr) (seen : Option α)

/-- A look that failed: an interrupted dump and a replaced socket are tried again. -/
def failedLook {α : Type} (seen : Option α) : RtErr → Attempt α
  | .interrupted => .again .inconsistent seen
  | .stream => .again .stream seen
  | e => .done (.error e)

/-- A look without coverage can be taken but not vouched for. -/
def blindLook (tables : List ℕ) : ConnM (Attempt Snapshot) := do
  match ← takeOnce tables with
  | .ok s => return .again .observation (some s)
  | .error e => return failedLook none e

/-- The barrier and the drain behind it: no notification of a relevant change. -/
def settled (tables : List ℕ) (s : Snapshot) : ConnM (Attempt Snapshot) := do
  match ← barrier with
  | some .stream => return .again .stream (some s)
  | some e => return .done (.error e)
  | none => match ← settleChurn tables true with
    | .ok false => return if ← expired then .done (.error .deadline) else .done (.ok s)
    | .ok true => return .again .inconsistent (some s)
    | .error .observation => do
      reopenChurn
      return .again .observation (some s)
    | .error e => return .done (.error e)

/-- A look the subscription covers, and the evidence for it. -/
def coveredLook (tables : List ℕ) : ConnM (Attempt Snapshot) := do
  match ← takeOnce tables with
  | .error e => return failedLook none e
  | .ok s => match ← takeRulesOnce with
    | .error e => return failedLook (some s) e
    | .ok (r4, r6) =>
      if s.rules .v4 = r4 ∧ s.rules .v6 = r6 then
        if hasRepeats (s.rules .v4) || hasRepeats (s.rules .v6) then
          match ← confirmRepeats s repeatLooks with
          | .ok true => settled tables s
          | .ok false | .error .interrupted | .error .stream => return .again .inconsistent (some s)
          | .error e => return .done (.error e)
        else settled tables s
      else return .again .inconsistent (some s)

/-- The initial drain and the look, covered when there is a subscription. -/
def drainAndLook (tables : List ℕ) : ConnM (Attempt Snapshot) := do
  if (← get).sub.isNone then blindLook tables
  else match ← settleChurn tables false with
    | .ok _ => coveredLook tables
    | .error .observation => do
      reopenChurn
      blindLook tables
    | .error e => return .done (.error e)

def attempt (tables : List ℕ) : ConnM (Attempt Snapshot) := do
  if ← expired then return .done (.error .deadline)
  -- coverage was lost and not yet restored: try again now
  else if (← get).sub.isNone then do
    reopenChurn
    drainAndLook tables
  else drainAndLook tables

def maxSnapshotAttempts : ℕ := 8

/-- The loop of `TakeContext`, with `n` attempts left. -/
def takeLoop (tables : List ℕ) : ℕ → RtErr → Option Snapshot → ConnM (Except RtErr Snapshot)
  | 0, last, some s =>
    if last = .inconsistent ∨ last = .observation then do
      return if ← expired then .error .deadline else .ok { s with unstable := true }
    else return .error last
  | 0, last, none => return .error last
  | n + 1, _, lastSnap => do
    match ← attempt tables with
    | .done r => return r
    | .again last seen => takeLoop tables n last (seen <|> lastSnap)

def takeContext (tables : List ℕ) : ConnM (Except RtErr Snapshot) :=
  takeLoop tables maxSnapshotAttempts .failed none

/-! ### RulesStable -/

/-- More looks at one family that must all agree, `n` left. -/
def agreeing (f : Family) (first : List Rule) : ℕ → ConnM (Except RtErr Bool)
  | 0 => return .ok true
  | n + 1 => do
    match ← rulesOnce f with
    | .error e => return .error e
    | .ok more => if first = more then agreeing f first n else return .ok false

/-- The barrier and the drain behind it, when there is a subscription. -/
def settledRules (watched : Bool) (first : List Rule) : ConnM (Attempt (List Rule)) := do
  match ← (if watched then barrier else pure none) with
  | some e => return .done (.error e)
  | none => match ← (if watched then settleRuleChurn true else pure (.ok false)) with
    | .ok false => return if ← expired then .done (.error .deadline) else .done (.ok first)
    | .ok true => return .again .inconsistent (some first)
    | .error .observation => do
      reopenChurn
      return .again .observation (some first)
    | .error e => return .done (.error e)

/-- Two looks at one family that agree. -/
def rulesLook (f : Family) (watched : Bool) : ConnM (Attempt (List Rule)) := do
  match ← rulesOnce f with
  | .error e => return failedLook none e
  | .ok first => match ← rulesOnce f with
    | .error e => return failedLook none e
    | .ok second =>
      if first = second then
        match ← (if hasRepeats first then agreeing f first repeatLooks else pure (.ok true)) with
        | .error e => return .done (.error e)
        | .ok false => return .again .inconsistent (some first)
        | .ok true => settledRules watched first
      else return .again .inconsistent (some second)

def rulesAttempt (f : Family) : ConnM (Attempt (List Rule)) := do
  if ← expired then return .done (.error .deadline)
  else
    let watched := (← get).sub.isSome
    match ← (if watched then settleRuleChurn false else pure (.ok false)) with
    | .ok _ => rulesLook f watched
    | .error .observation => do
      reopenChurn
      return .again .observation none
    | .error e => return .done (.error e)

/-- The loop of `RulesStable`: the rules and whether the read is stable. -/
def rulesLoop (f : Family) : ℕ → List Rule → ConnM (Except RtErr (List Rule × Bool))
  | 0, rules => return .ok (rules, false)
  | n + 1, rules => do
    match ← rulesAttempt f with
    | .done (.ok first) => return .ok (first, true)
    | .done (.error e) => return .error e
    | .again _ seen => rulesLoop f n (seen.getD rules)

def rulesStable (f : Family) : ConnM (Except RtErr (List Rule × Bool)) :=
  rulesLoop f maxSnapshotAttempts []

/-! ### ForeignChange -/

/-- A notification that is not of a change the Conn made itself. -/
def foreignTo (tables : List ℕ) (own : ℕ) (e : Event) : Bool :=
  relevantToSnapshot tables e && (e.err || own == 0 || e.pid != own)

/-- The drain of `ForeignChange`, with `n` reads left. -/
def foreignLoop (tables : List ℕ) (own : ℕ) : ℕ → Bool → ConnM (Except RtErr Bool)
  | 0, _ => return .ok true
  | n + 1, changed => do
    if ← expired then return .error .deadline
    else match ← readEvents with
      | .overrun => return .ok true
      | .timeout => return if ← expired then .error .deadline else .ok changed
      | .failed => do
        reopenChurn
        return .ok true
      | .events l => foreignLoop tables own n (changed || l.any (foreignTo tables own))

def foreignChange (tables : List ℕ) : ConnM (Except RtErr Bool) := do
  if (← get).sub.isNone then return .ok true
  else if ← expired then return .error .deadline
  else match ← barrier with
    | some e => return .error e
    | none => foreignLoop tables (← get).pid drainReads false

end Molebridge
