import Molebridge.Lib.Stateful
import Molebridge.Spec.Conn

/-! What holds along the steps of a Conn holds along its calls: the dumps only
let time pass and mark what they did, the other calls read the subscription,
replace it and wait at the barrier too. -/

namespace Molebridge

def World.Others (w : World) (c : Change) : Prop := ∃ i, Act.change c ∈ (w.env i).acts

/-- The relation holds along what the others do. -/
structure Acts (R : World → World → Prop) : Prop extends Chains R where
  change : ∀ w c, w.Others c → w.lock = none → R w (w.change c)
  release : ∀ w e, w.lock = some e → R w (w.release e)
  clock : ∀ w b, R w (w.clocked b)

/-- The relation holds while the others act. -/
structure Passes (R : World → World → Prop) : Prop extends Chains R where
  pass : ∀ w, R w w.pass

namespace Acts

variable {R : World → World → Prop} (h : Acts R)

include h

theorem notify (w : World) : R w w.notify := by
  unfold World.notify
  split
  · exact h.refl w
  · exact h.release w _ ‹_›

omit h in
theorem env_act (w : World) (a : Act) : (w.act a).env = w.env := by
  unfold World.act World.notify
  split
  · split <;> rfl
  · split <;> rfl

omit h in
theorem env_acts (w : World) (l : List Act) : (w.acts l).env = w.env := by
  induction l generalizing w with
  | nil => rfl
  | cons a t ih => exact (ih _).trans (env_act w a)

theorem act (w : World) (a : Act) (ha : ∃ i, a ∈ (w.env i).acts) : R w (w.act a) := by
  cases a with
  | notify => exact h.notify w
  | change c =>
    unfold World.act
    dsimp only
    split
    · exact h.refl w
    · exact h.change w c ha ‹_›

theorem acts (w : World) (l : List Act) (hl : ∀ a ∈ l, ∃ i, a ∈ (w.env i).acts) : R w (w.acts l) := by
  induction l generalizing w with
  | nil => exact h.refl w
  | cons a t ih =>
    refine h.trans (h.act w a (hl a (.head _))) (ih (w.act a) fun b hb => ?_)
    rw [env_act]
    exact hl b (.tail a hb)

theorem passes : Passes R where
  toChains := h.toChains
  pass w := h.trans (h.acts w w.move.acts fun _ ha => ⟨w.tick, ha⟩) (h.clock _ _)

end Acts

theorem Passes.expired {R : World → World → Prop} (h : Passes R) : Along R expired :=
  h.bind (along_modify h.pass) fun _ => h.bind h.get fun _ => h.pure _

/-- The relation holds along what a drain does. -/
structure Drains (R : World → World → Prop) : Prop extends Passes R where
  poll : ∀ w s, w.sub = some s → R w (w.polled s)

namespace Drains

variable {R : World → World → Prop} (h : Drains R)

include h

theorem readEvents : Along R readEvents := by
  refine h.bind h.get fun w₀ => h.bind (along_modify h.pass) fun _ => fun w => ?_
  rw [bind_run, show (get : ConnM World) w = (w, w) from rfl]
  rcases hs : w.sub with - | s
  · exact h.refl w
  · split_ifs with hf
    · exact h.poll w s hs
    · exact h.refl w

theorem settleChurnFor (report : Bool) (relevant : Event → Bool) (n : ℕ) (changed : Bool) :
    Along R (settleChurnFor report relevant n changed) := by
  induction n generalizing changed with
  | zero => exact h.pure _
  | succ n ih =>
    refine h.bind h.expired fun late => along_ite (h.pure _) (h.bind h.readEvents fun r => ?_)
    cases r with
    | overrun => exact h.pure _
    | timeout => exact h.bind h.expired fun _ => h.pure _
    | failed => exact h.pure _
    | events l => exact along_ite (h.pure _) (ih _)

end Drains

/-- The relation holds along what a dump does. -/
structure Looks (R : World → World → Prop) : Prop extends Passes R where
  dumped : ∀ w, R w { w with dumps := { w.dumps with last := w.past.length } }
  redial : ∀ w, R w w.redialed

namespace Looks

variable {R : World → World → Prop} (h : Looks R)

include h

theorem requested (mv : Move) : Along R (requested mv) := by
  unfold Molebridge.requested
  split_ifs
  · exact h.bind (along_modify h.redial) fun _ => h.pure _
  · exact h.pure _

theorem dump {α : Type} [DecidableEq α] (part : Kern → α) (seen : Snapshot → α) :
    Along R (dump part seen) := by
  refine h.bind h.get fun w => h.bind (along_modify h.pass) fun _ =>
    h.bind (along_modify h.dumped) fun _ => h.bind (h.requested _) fun r => ?_
  cases r with
  | none => exact h.pure _
  | some e => exact h.pure _

theorem familyOnce (tables : List ℕ) (f : Family) : Along R (familyOnce tables f) := by
  refine h.bind (h.dump _ _) fun rules => ?_
  cases rules with
  | error e => exact h.pure _
  | ok rules =>
    refine h.bind (h.dump _ _) fun routes => ?_
    cases routes with
    | error e => exact h.pure _
    | ok routes =>
      refine h.bind (h.dump _ _) fun addrs => ?_
      cases addrs with
      | error e => exact h.pure _
      | ok addrs => exact h.pure _

theorem takeRulesOnce : Along R takeRulesOnce := by
  refine h.bind (h.dump _ _) fun r4 => ?_
  cases r4 with
  | error e => exact h.pure _
  | ok r4 =>
    refine h.bind (h.dump _ _) fun r6 => ?_
    cases r6 with
    | error e => exact h.pure _
    | ok r6 => exact h.pure _

theorem confirmRepeats (s : Snapshot) (n : ℕ) : Along R (confirmRepeats s n) := by
  induction n with
  | zero => exact h.pure _
  | succ n ih =>
    refine h.bind h.takeRulesOnce fun r => ?_
    cases r with
    | error e => exact h.pure _
    | ok r => exact along_ite ih (h.pure _)

theorem agreeing (f : Family) (first : List Rule) (n : ℕ) : Along R (agreeing f first n) := by
  induction n with
  | zero => exact h.pure _
  | succ n ih =>
    refine h.bind (h.dump _ _) fun r => ?_
    cases r with
    | error e => exact h.pure _
    | ok r => exact along_ite ih (h.pure _)

end Looks

/-- The relation holds along what a barrier does, too. -/
structure Waits (R : World → World → Prop) : Prop extends Looks R where
  notify : ∀ w, R w w.notify
  quiet : ∀ w, R w { w with quiet := w.kern }

theorem Waits.barrier {R : World → World → Prop} (h : Waits R) : Along R barrier :=
  h.bind h.get fun _ => h.bind (along_modify h.pass) fun _ => h.bind (along_modify h.notify)
    fun _ => h.bind (along_modify h.quiet) fun _ => h.requested _

/-- The relation holds along everything a Conn does but its own requests. -/
structure Reads (R : World → World → Prop) : Prop extends Waits R, Drains R where
  marked : ∀ w, R w w.marked
  reopen : ∀ w cap, R w (w.reopened cap)

namespace Reads

variable {R : World → World → Prop} (h : Reads R)

include h

theorem reopenChurn : Along R reopenChurn :=
  h.bind h.get fun _ => h.bind (along_modify h.pass) fun _ => along_modify fun w => h.reopen w _

theorem takeOnce (tables : List ℕ) : Along R (takeOnce tables) := by
  refine h.bind (along_modify h.marked) fun _ => h.bind (h.familyOnce tables .v4) fun r => ?_
  cases r with
  | error e => exact h.pure _
  | ok r =>
    refine h.bind (h.familyOnce tables .v6) fun r => ?_
    cases r with
    | error e => exact h.pure _
    | ok r =>
      refine h.bind (h.dump _ _) fun r => ?_
      cases r with
      | error e => exact h.pure _
      | ok r => exact h.pure _

theorem settled (tables : List ℕ) (s : Snapshot) : Along R (settled tables s) := by
  refine h.bind h.barrier fun r => ?_
  split
  · exact h.pure _
  · exact h.pure _
  · refine h.bind (h.settleChurnFor _ _ _ _) fun r => ?_
    split
    · exact h.bind h.expired fun _ => h.pure _
    · exact h.pure _
    · exact h.bind h.reopenChurn fun _ => h.pure _
    · exact h.pure _

theorem coveredLook (tables : List ℕ) : Along R (coveredLook tables) := by
  refine h.bind (h.takeOnce tables) fun r => ?_
  cases r with
  | error e => exact h.pure _
  | ok s =>
    refine h.bind h.takeRulesOnce fun r => ?_
    cases r with
    | error e => exact h.pure _
    | ok r =>
      refine along_ite (along_ite (h.bind (h.confirmRepeats _ _) fun r => ?_) (h.settled _ _)) (h.pure _)
      split
      · exact h.settled _ _
      · exact h.pure _
      · exact h.pure _
      · exact h.pure _
      · exact h.pure _

theorem blindLook (tables : List ℕ) : Along R (blindLook tables) := by
  refine h.bind (h.takeOnce tables) fun r => ?_
  cases r with
  | error e => exact h.pure _
  | ok s => exact h.pure _

theorem drainAndLook (tables : List ℕ) : Along R (drainAndLook tables) := by
  refine h.bind h.get fun w => along_ite (h.blindLook tables) ?_
  refine h.bind (h.settleChurnFor _ _ _ _) fun r => ?_
  split
  · exact h.coveredLook tables
  · exact h.bind h.reopenChurn fun _ => h.blindLook tables
  · exact h.pure _

theorem attempt (tables : List ℕ) : Along R (attempt tables) :=
  h.bind h.expired fun _ => along_ite (h.pure _) (h.bind h.get fun _ =>
    along_ite (h.bind h.reopenChurn fun _ => h.drainAndLook tables) (h.drainAndLook tables))

theorem takeLoop (tables : List ℕ) (n : ℕ) (last : RtErr) (seen : Option Snapshot) :
    Along R (takeLoop tables n last seen) := by
  induction n generalizing last seen with
  | zero =>
    cases seen with
    | none => exact h.pure _
    | some s => exact along_ite (h.bind h.expired fun _ => h.pure _) (h.pure _)
  | succ n ih =>
    refine h.bind (h.attempt tables) fun r => ?_
    cases r with
    | done r => exact h.pure _
    | again last' seen' => exact ih _ _

end Reads

/-! ### Calls that hold a model

The read-back of rules and the foreign-change test replace a subscription they have, and
restore none. -/

def World.Subscribed (w : World) : Prop := w.sub.isSome = true

def Stays (w w' : World) : Prop := w.Subscribed → w'.Subscribed

theorem stays_acts : Acts Stays where
  refl _ := id
  trans h h' := h' ∘ h
  change _ _ _ _ := id
  release w e _ h := by simpa [World.Subscribed, World.release] using h
  clock _ _ := id

theorem stays_waits : Waits Stays where
  toPasses := stays_acts.passes
  dumped _ := id
  redial _ := id
  notify := stays_acts.notify
  quiet _ := id

theorem stays_drains : Drains Stays where
  toPasses := stays_acts.passes
  poll _ _ _ _ := rfl

/-- The relation holds along what these calls do. -/
structure Renews (R : World → World → Prop) : Prop extends Waits R, Drains R where
  renew : ∀ w cap, w.Subscribed → R w (w.reopened cap)

theorem Reads.renews {R : World → World → Prop} (h : Reads R) : Renews R :=
  { h.toWaits, h.toDrains with renew := fun w cap _ => h.reopen w cap }

namespace Renews

variable {R : World → World → Prop} (h : Renews R)

include h

theorem reopenChurn : AlongIf World.Subscribed R reopenChurn :=
  h.bindIf h.get stays_acts.get fun _ => h.bindIf (along_modify h.pass) (along_modify stays_waits.pass)
    fun _ w hw => h.renew w _ hw

theorem settledRules (first : List Rule) : AlongIf World.Subscribed R (settledRules true first) := by
  refine h.bindIf h.barrier stays_waits.barrier fun r => ?_
  cases r with
  | some e => exact (h.pure _).alongIf _
  | none =>
    refine h.bindIf (h.settleChurnFor _ _ _ _) (stays_drains.settleChurnFor _ _ _ _) fun r => ?_
    split
    · exact (h.bind h.expired fun _ => h.pure _).alongIf _
    · exact (h.pure _).alongIf _
    · exact fun w hw => h.trans (h.reopenChurn w hw) (h.refl _)
    · exact (h.pure _).alongIf _

theorem settledRules_unwatched (first : List Rule) : Along R (Molebridge.settledRules false first) := by
  have hrun : Along R (do
      return if ← Molebridge.expired then .done (.error .deadline) else .done (.ok first) :
        ConnM (Attempt (List Rule))) := h.bind h.expired fun _ => h.pure _
  exact hrun

theorem rulesLook (f : Family) (watched : Bool) :
    AlongIf (fun w => watched = true → w.Subscribed) R (rulesLook f watched) := by
  have hstays : Looks fun w w' : World => (watched = true → w.Subscribed) → (watched = true → w'.Subscribed) :=
    ⟨⟨⟨fun _ => id, fun h h' => h' ∘ h⟩, fun w hw ht => stays_waits.pass w (hw ht)⟩, fun _ => id, fun _ => id⟩
  refine h.bindIf (h.dump _ _) (hstays.dump _ _) fun r => ?_
  cases r with
  | error e => exact (h.pure _).alongIf _
  | ok first =>
    refine h.bindIf (h.dump _ _) (hstays.dump _ _) fun r => ?_
    cases r with
    | error e => exact (h.pure _).alongIf _
    | ok second =>
      refine alongIf_ite (h.bindIf (along_ite (h.agreeing _ _ _) (h.pure _))
        (along_ite (hstays.agreeing _ _ _) (hstays.pure _)) fun r => ?_) ((h.pure _).alongIf _)
      split
      · exact (h.pure _).alongIf _
      · exact (h.pure _).alongIf _
      · cases watched with
        | true => exact fun w hw => h.settledRules _ w (hw rfl)
        | false => exact (h.settledRules_unwatched _).alongIf _

theorem rulesAttempt (f : Family) : Along R (rulesAttempt f) := by
  refine h.bind h.expired fun _ => along_ite (h.pure _) fun w => ?_
  rw [bind_run, show (get : ConnM World) w = (w, w) from rfl]
  -- what the attempt takes for its subscription is there
  cases hsub : w.sub.isSome with
  | false => exact h.rulesLook f false w nofun
  | true =>
    refine h.bindIf (P := World.Subscribed) (h.settleChurnFor _ _ _ _) (stays_drains.settleChurnFor _ _ _ _)
      (fun r => ?_) w hsub
    split
    · exact fun w hw => h.rulesLook f true w fun _ => hw
    · exact fun w hw => h.trans (h.reopenChurn w hw) (h.refl _)
    · exact (h.pure _).alongIf _

theorem rulesLoop (f : Family) (n : ℕ) (rules : List Rule) : Along R (rulesLoop f n rules) := by
  induction n generalizing rules with
  | zero => exact h.pure _
  | succ n ih =>
    refine h.bind (h.rulesAttempt f) fun r => ?_
    split
    · exact h.pure _
    · exact h.pure _
    · exact ih _

theorem foreignLoop (tables : List ℕ) (own n : ℕ) (changed : Bool) :
    AlongIf World.Subscribed R (foreignLoop tables own n changed) := by
  induction n generalizing changed with
  | zero => exact (h.pure _).alongIf _
  | succ n ih =>
    refine h.bindIf h.expired stays_waits.expired fun late => alongIf_ite ((h.pure _).alongIf _)
      (h.bindIf h.readEvents stays_drains.readEvents fun r => ?_)
    cases r with
    | overrun => exact (h.pure _).alongIf _
    | timeout => exact (h.bind h.expired fun _ => h.pure _).alongIf _
    | failed => exact fun w hw => h.trans (h.reopenChurn w hw) (h.refl _)
    | events l => exact ih _

theorem foreignChange (tables : List ℕ) : Along R (foreignChange tables) := by
  intro w
  change R w ((if w.sub.isNone = true then _ else _ : ConnM (Except RtErr Bool)) w).2
  split_ifs with hnone
  · exact h.refl w
  refine h.bindIf (P := World.Subscribed) h.expired stays_waits.expired (fun late => ?_) w
    (by simpa [World.Subscribed, Option.isSome_iff_ne_none] using hnone)
  split_ifs
  · exact (h.pure _).alongIf _
  refine h.bindIf h.barrier stays_waits.barrier fun r => ?_
  cases r with
  | some e => exact (h.pure _).alongIf _
  | none => exact fun w hw => h.foreignLoop _ _ _ _ w hw

end Renews

end Molebridge
