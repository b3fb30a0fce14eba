import Molebridge.Proofs.Calm

/-! The control loop refines the attempt's machine: every pass, however it ends, is a
sequence of its moves. -/

namespace Molebridge.Applier

variable {α β : Type} {env : Env} {P : World → Prop} {target : Selection} {why : Admission}

variable {g : Attempt → Attempt} {Q : World → Prop} {quiet : List Event} {outcome : ApplyOutcome}

/-! ### Steps -/

def Steady (P : World → Prop) : Prop := ∀ w w', Calm w w' → P w → P w'

variable {x : AppM α} {f : Finding} {mutated : ℚ} {repair : Bool}

theorem Calmly.leads (hx : Calmly x) (hP : Steady P) : Leads Moves P x fun _ => P := fun w hw =>
  ⟨(hx w trivial).1.1, fun _ _ => hP _ _ (hx w trivial).1 hw⟩

theorem Calmly.ends (hx : Calmly x) : Leads Moves P x fun _ _ => True := fun w _ =>
  ⟨(hx w trivial).1.1, fun _ _ => trivial⟩

theorem leads_memory : Leads Moves P memory fun m w => P w ∧ m = w.m :=
  leads_bind chains_moves (leads_get chains_moves) fun _ => leads_pure chains_moves fun _ h => ⟨h.1, by rw [h.2]⟩

theorem leads_now : Leads Moves P now fun t w => P w ∧ t = w.clock :=
  leads_bind chains_moves (leads_get chains_moves) fun _ => leads_pure chains_moves fun _ h => ⟨h.1, by rw [h.2]⟩

theorem leads_setAttempt
    (hmove : ∀ w, P w → Move w.view { w.view with attempt := g w.m.attempt })
    (hpost : ∀ w, P w → Q { w with m := { w.m with attempt := g w.m.attempt } }) :
    Leads Moves P (setAttempt g) fun _ => Q :=
  Leads.modify fun w hw => ⟨.single (hmove w hw), hpost w hw⟩

theorem leads_trace {e : Event} (hmove : ∀ w, P w → Move w.view { w.view with trace := e :: w.trace })
    (hpost : ∀ w, P w → Q { w with trace := e :: w.trace }) : Leads Moves P (trace e) fun _ => Q :=
  Leads.modify fun w hw => ⟨.single (hmove w hw), hpost w hw⟩

theorem leads_setMemory {g : Memory → Memory} (hP : Steady P)
    (hg : ∀ m, (g m).attempt = m.attempt ∧ (g m).target = m.target ∧ (g m).measurement = m.measurement) :
    Leads Moves P (setMemory g) fun _ => P :=
  (calm_setMemory hg).leads hP

theorem leads_deferring {Q : α → World → Prop} {g : Memory → Memory} (hx : Leads Moves P x Q)
    (hg : ∀ m, (g m).attempt = m.attempt ∧ (g m).target = m.target ∧ (g m).measurement = m.measurement)
    (hQ : ∀ a, Steady (Q a)) : Leads Moves P (deferring x g) Q := by
  intro w hw
  obtain ⟨hmove, hpost⟩ := hx w hw
  have hcalm : Calm (x.run w).2 { (x.run w).2 with m := g (x.run w).2.m } := (calm_setMemory hg _ trivial).1
  exact ⟨hmove.trans hcalm.1, fun a ha => hQ a _ _ hcalm (hpost a ha)⟩

theorem steady_attempt (C : Attempt → Prop) : Steady fun w => C w.m.attempt := fun w w' h hw => by
  show C w'.m.attempt
  rwa [h.2.attempt]

/-- What the machine does not depend on does not change it. -/
def Coarse (P : World → Prop) : Prop :=
  ∀ (w : World) (a : Attempt), SameCourse w.m.attempt a → P w → P { w with m := { w.m with attempt := a } }

theorem leads_touch (hP : Coarse P) (hg : ∀ a, SameCourse a (g a)) :
    Leads Moves P (setAttempt g) fun _ => P :=
  leads_setAttempt (fun _ _ => .touch (hg _)) fun w hw => hP w _ (hg _) hw

/-! ### What an attempt becomes -/

theorem leads_settle : Leads Moves P settle fun _ _ => True :=
  leads_setAttempt (fun _ _ => .settle ⟨rfl, rfl⟩ rfl rfl) fun _ _ => trivial

theorem leads_markUnverified : Leads Moves P markUnverified fun _ _ => True := fun _ _ =>
  ⟨.single (.unverify ⟨rfl, rfl⟩ rfl rfl), fun _ _ => trivial⟩

theorem leads_scheduleRecheck : Leads Moves (fun w => w.m.attempt.state = .unverified) scheduleRecheck fun _ _ => True :=
  fun _ h => ⟨.single (.unverify ⟨rfl, rfl⟩ h rfl), fun _ _ => trivial⟩

def Attempting (w : World) : Prop := w.m.attempt.state = .attempting

theorem steady_attempting : Steady Attempting := steady_attempt (·.state = .attempting)

theorem leads_failMutation {message : String} {certainty : Option Certainty} :
    Leads Moves Attempting (failMutation message certainty) fun _ _ => True := fun w h =>
  ⟨.single (.fail ⟨rfl, rfl⟩ h rfl rfl rfl (add_le_add_right (le_backoff _) w.clock)), fun _ _ => trivial⟩

theorem leads_takeGeneration (hS : Steady P) (hC : Coarse P) : Leads Moves P (takeGeneration env) fun _ => P := by
  refine leads_bind chains_moves ((calm_ask _).leads hS) fun generation => ?_
  split_ifs
  · exact leads_touch hC fun _ => ⟨⟨rfl, rfl⟩, rfl, rfl, rfl⟩
  · exact (calm_pure _).leads hS

theorem calm_conclude : Calmly (do
    saveAttempt env
    setNextHealth
    emit env f false) :=
  calm_bind calm_saveAttempt fun _ => calm_bind calm_setNextHealth fun _ => calm_emit

/-! ### The periodic check -/

theorem leads_noteGeneration : Leads Moves (fun _ => True) (noteGeneration env) fun _ _ => True := by
  refine leads_bind chains_moves calm_memory.ends fun m => ?_
  split_ifs
  · refine leads_bind chains_moves (leads_takeGeneration (fun _ _ _ => id) fun _ _ _ => id) fun _ => ?_
    refine leads_bind chains_moves calm_memory.ends fun m => ?_
    split_ifs
    · exact calm_saveAttempt.ends
    · exact (calm_pure _).ends
  · exact (calm_pure _).ends

theorem leads_judgeAttempt : Leads Moves P (judgeAttempt env f) fun _ _ => True := by
  refine leads_bind chains_moves leads_memory fun m => ?_
  cases m.target with
  | none => exact (calm_pure _).ends
  | some target =>
    dsimp only
    split_ifs with hheld hok hverified hlive hunverified
    · exact (calm_pure _).ends
    · exact calm_recordSelection.ends
    · exact leads_bind chains_moves leads_settle fun _ =>
        (calm_bind calm_saveAttempt fun _ => calm_recordSelection).ends
    · refine leads_bind chains_moves leads_markUnverified fun _ => ?_
      refine leads_bind chains_moves (leads_touch (fun _ _ _ => id) fun _ => ⟨⟨rfl, rfl⟩, rfl, rfl, rfl⟩) fun _ => ?_
      exact calm_saveAttempt.ends
    · refine leads_bind chains_moves (leads_scheduleRecheck.weaken ?_) fun _ => calm_saveAttempt.ends
      rintro w ⟨-, rfl⟩
      exact hunverified
    · exact (calm_pure _).ends

theorem leads_concludeCheck : Leads Moves P (concludeCheck env f) fun _ _ => True :=
  leads_bind chains_moves leads_judgeAttempt fun _ => leads_bind chains_moves leads_noteGeneration fun _ =>
    (calm_bind calm_setNextHealth fun _ => calm_emit).ends

/-! ### The verification of a switch -/

theorem leads_verifyLoop {deadline : ℚ} (fuel : ℕ) (last : Option Finding) :
    Leads Moves Attempting (verifyLoop env target deadline fuel last) fun r w => r.isRight = true → Attempting w := by
  induction fuel generalizing last with
  | zero => exact leads_pure chains_moves fun w hw _ => hw
  | succ fuel ih =>
    refine leads_bind chains_moves (calm_now.leads steady_attempting) fun t => ?_
    split_ifs
    · exact leads_pure chains_moves fun w hw _ => hw
    refine leads_bind chains_moves (calm_inspection.leads steady_attempting) fun f => ?_
    have hended : Leads Moves (fun _ => True) (do
        setNextHealth
        return .inl (← emit env f false)) fun (r : Members ⊕ Option Finding) w => r.isRight = true → Attempting w :=
      leads_bind chains_moves calm_setNextHealth.ends fun _ => leads_bind chains_moves calm_emit.ends fun _ =>
        leads_pure chains_moves fun _ _ h => nomatch h
    split_ifs
    · exact leads_bind chains_moves leads_settle fun _ => leads_bind chains_moves calm_saveAttempt.ends fun _ =>
        leads_bind chains_moves calm_recordSelection.ends fun _ =>
          leads_bind chains_moves calm_recordSelection.ends fun _ => hended
    · exact leads_bind chains_moves leads_failMutation fun _ =>
        leads_bind chains_moves calm_saveAttempt.ends fun _ => hended
    · refine leads_bind chains_moves (calm_emit.leads steady_attempting) fun _ =>
        leads_bind chains_moves ((calm_ask _).leads steady_attempting) fun canceled => ?_
      split_ifs
      · exact leads_throw chains_moves _
      · exact leads_bind chains_moves (calm_sleep.leads steady_attempting) fun _ => ih _

theorem leads_judgeSwitch : Leads Moves Attempting (judgeSwitch env target f) fun _ _ => True := by
  unfold judgeSwitch
  split_ifs
  · exact leads_bind chains_moves calm_recordSelection.ends fun _ =>
      leads_bind chains_moves leads_settle fun _ => calm_recordSelection.ends
  · exact leads_bind chains_moves calm_recordSelection.ends fun _ => leads_markUnverified
  · exact leads_failMutation

theorem leads_concludeSwitch : Leads Moves Attempting (concludeSwitch env target f) fun _ _ => True :=
  leads_bind chains_moves leads_judgeSwitch fun _ => calm_conclude.ends

theorem leads_verify : Leads Moves Attempting (verify env target) fun _ _ => True := by
  refine leads_bind chains_moves (calm_memory.leads steady_attempting) fun m => ?_
  refine leads_bind chains_moves (calm_now.leads steady_attempting) fun t => ?_
  refine leads_bind chains_moves (leads_setMemory steady_attempting fun _ => ⟨rfl, rfl, rfl⟩) fun _ => ?_
  refine leads_bind chains_moves (leads_deferring (leads_verifyLoop _ _) (fun _ => ⟨rfl, rfl, rfl⟩) ?_) fun r => ?_
  · exact fun r w w' hcalm hw hr => steady_attempting w w' hcalm (hw hr)
  · rcases r with record | _ | f
    · exact (calm_pure _).ends
    · refine Leads.weaken ?_ fun w hw => hw rfl
      exact leads_bind chains_moves (calm_inspection.leads steady_attempting) fun f => leads_concludeSwitch
    · exact leads_concludeSwitch.weaken fun w hw => hw rfl

/-! ### The trace of a pass -/

theorem admission_quiet (hq : ∀ e ∈ quiet, e.quiet = true) (trace : List Event) :
    admission (quiet ++ trace) = admission trace := by
  induction quiet with
  | nil => rfl
  | cons e quiet ih =>
    have he : e.quiet = true := hq e (.head _)
    have hrest : admission (quiet ++ trace) = admission trace := ih fun e h => hq e (.tail _ h)
    cases e <;> first | exact hrest | cases he

theorem currentPass_cons {e : Event} (he : e.begins = false) (trace : List Event) :
    currentPass (e :: trace) = e :: currentPass trace := by
  simp [currentPass, he]

theorem currentPass_quiet (hq : ∀ e ∈ quiet, e.quiet = true) (trace : List Event) :
    currentPass (quiet ++ trace) = quiet ++ currentPass trace := by
  induction quiet with
  | nil => rfl
  | cons e quiet ih =>
    have he : e.begins = false := by
      have := hq e (.head _)
      cases e <;> first | rfl | cases this
    rw [List.cons_append, currentPass_cons he, ih fun e h => hq e (.tail _ h), List.cons_append]

theorem AskedNow.later {trace trace' : List Event} (h : AskedNow trace)
    (hpass : ∃ new, currentPass trace' = new ++ currentPass trace) : AskedNow trace' := by
  obtain ⟨_, hnew⟩ := hpass
  unfold AskedNow at h ⊢
  rw [hnew, List.any_append, h, Bool.or_true]

theorem InspectedFirst.later {server : String} {trace : List Event} (h : InspectedFirst server trace)
    {new : List Event} (hpass : currentPass (new ++ trace) = new ++ currentPass trace) :
    InspectedFirst server (new ++ trace) := by
  have hmem {e : Event} (he : e ∈ currentPass trace) : e ∈ currentPass (new ++ trace) :=
    hpass ▸ List.mem_append_right _ he
  cases h with
  | afterGate inspected =>
    obtain ⟨f, later, earlier, hsplit, hgate, hok, hlive⟩ := inspected
    refine .afterGate ⟨f, new ++ later, earlier, ?_, hgate, hok, fun h => hmem (hlive h)⟩
    rw [hpass, hsplit, List.append_assoc]
  | silent f t reused seen silent recent lapse not_ok =>
    exact .silent f t (hmem reused) (List.mem_append_right _ seen) silent recent (hmem lapse) not_ok

/-! ### The mutation -/

/-- The call ended so, and the attempt is not yet what that makes of it. -/
def Called (outcome : ApplyOutcome) (w : World) : Prop :=
  Attempting w ∧ ∃ call, LastCall w.trace call ∧ call.outcome = outcome

theorem steady_called : Steady (Called outcome) := by
  rintro w w' hcalm ⟨hattempting, call, ⟨q, rest, htrace, hq⟩, hcall⟩
  obtain ⟨q', htrace', hq'⟩ := hcalm.2.trace
  refine ⟨steady_attempting w w' hcalm hattempting, call, ⟨q' ++ q, rest, ?_, fun e he => ?_⟩, hcall⟩
  · rw [htrace', htrace, List.append_assoc]
  · exact (List.mem_append.1 he).elim (hq' e) (hq e)

theorem leads_rejectCredentials :
    Leads Moves (Called .credentialRejected) (rejectCredentials env target) fun _ _ => True := by
  refine leads_bind chains_moves (calm_memory.leads steady_called) fun m => ?_
  refine leads_bind chains_moves (calm_releaseSignature.leads steady_called) fun release => ?_
  refine leads_bind chains_moves (leads_setAttempt (Q := fun _ => True) ?_ fun _ _ => trivial) fun _ =>
    (calm_bind calm_saveAttempt fun _ => calm_bind calm_setNextHealth fun _ => calm_inspect).ends
  rintro w ⟨hattempting, _, hcall, houtcome⟩
  exact .reject ⟨rfl, rfl⟩ hcall houtcome hattempting rfl rfl rfl

theorem leads_failed {certainty : Certainty} :
    Leads Moves Attempting (concludeApply.failed env certainty) fun _ _ => True :=
  leads_bind chains_moves (calm_memory.leads steady_attempting) fun _ =>
    leads_bind chains_moves leads_failMutation fun _ => leads_bind chains_moves calm_saveAttempt.ends fun _ =>
      leads_bind chains_moves calm_inspection.ends fun _ => leads_concludeCheck

theorem leads_concludeApply :
    Leads Moves (Called outcome) (concludeApply env target outcome) fun _ _ => True := by
  cases outcome with
  | done => exact leads_verify.weaken fun _ hw => hw.1
  | credentialRejected => exact leads_rejectCredentials
  | refused | failed => exact leads_failed.weaken fun _ hw => hw.1
  | io | canceled | died => exact leads_throw chains_moves _

structure Cleared (target : Selection) (w : World) : Prop where
  key : w.m.attempt.targetKey = target.key
  effective : targetKey w.m.target = target.key
  admitted : (admission w.trace).isSome = true
  inspected : AskedNow w.trace ∨ InspectedFirst target.server w.trace

theorem steady_cleared : Steady (Cleared target) := by
  intro w w' hcalm hw
  obtain ⟨quiet, htrace, hq⟩ := hcalm.2.trace
  have hpass := currentPass_quiet hq w.trace
  refine ⟨by rw [hcalm.2.attempt, hw.key], by rw [hcalm.2.target, hw.effective], ?_, ?_⟩
  · rw [htrace, admission_quiet hq]
    exact hw.admitted
  · rw [htrace]
    exact hw.inspected.imp (·.later ⟨quiet, hpass⟩) (·.later hpass)

theorem coarse_cleared : Coarse (Cleared target) := fun _ _ ha hw =>
  ⟨ha.1.1.trans hw.key, hw.effective, hw.admitted, hw.inspected⟩

structure Mutating (target : Selection) (mutated : ℚ) (w : World) : Prop where
  cleared : Cleared target w
  attempting : Attempting w
  next : w.m.attempt.nextAction = none
  last : w.m.attempt.lastMutationAt = some mutated
  past : mutated ≤ w.clock

theorem steady_mutating : Steady (Mutating target mutated) := fun w w' hcalm hw =>
  ⟨steady_cleared w w' hcalm hw.cleared, steady_attempting w w' hcalm hw.attempting,
    by rw [hcalm.2.attempt, hw.next], by rw [hcalm.2.attempt, hw.last], hw.past.trans hcalm.2.clock⟩

theorem coarse_mutating : Coarse (Mutating target mutated) := fun w a hsame hw =>
  ⟨coarse_cleared w a hsame hw.cleared, hsame.2.1.trans hw.attempting, hsame.2.2.1.trans hw.next,
    hsame.1.2.trans hw.last, hw.past⟩

theorem leads_applyRelay :
    Leads Moves (Mutating target mutated) (applyRelay env target mutated) Called := by
  intro w hw
  let call : Application :=
    { key := target.key, server := target.server, mutated, started := w.clock, outcome := env.apply w.calls }
  have happly : Move w.view { w.view with trace := .applied call :: w.trace } :=
    .apply call hw.cleared.key.symm (hw.cleared.effective.trans hw.cleared.key.symm) hw.attempting hw.next hw.last rfl
      hw.past hw.cleared.admitted hw.cleared.inspected
  have hlater : w.clock ≤ w.clock + env.lag w.calls := by linarith [env.lag_nonneg w.calls]
  refine ⟨.tail (.single happly) (.wait hlater), fun outcome houtcome => ?_⟩
  exact ⟨hw.attempting, call, ⟨[], w.trace, rfl, by simp⟩, Except.ok.inj houtcome⟩

theorem leads_mutate : Leads Moves (Cleared target) (mutate env target) fun _ _ => True := by
  refine leads_bind chains_moves (calm_current.leads steady_cleared) fun server => ?_
  cases server with
  | none =>
    refine leads_bind chains_moves leads_memory fun m => ?_
    have htrace : Leads Moves (fun w => Cleared target w ∧ m = w.m) (trace (.stuck m.attempt))
        fun _ w => (admission w.trace).isSome = true ∧ w.trace.head? = some (.stuck w.m.attempt) := by
      refine leads_trace ?_ ?_
      · rintro w ⟨-, rfl⟩
        exact .look
      · rintro w ⟨hw, rfl⟩
        exact ⟨hw.admitted, rfl⟩
    refine leads_bind chains_moves htrace fun _ => ?_
    refine leads_bind chains_moves (leads_setAttempt (Q := fun _ => True) ?_ fun _ _ => trivial) fun _ =>
      (calm_bind calm_saveAttempt fun _ => calm_inspect).ends
    exact fun w hw => .stuck hw.1 ⟨rfl, rfl⟩ hw.2 rfl rfl rfl
  | some server =>
    refine leads_bind chains_moves (calm_recordSelection.leads steady_cleared) fun _ => ?_
    refine leads_bind chains_moves leads_now fun mutated => ?_
    refine leads_bind chains_moves (leads_setAttempt (Q := Mutating target mutated) ?_ ?_) fun _ => ?_
    · rintro w ⟨hw, rfl⟩
      exact .mutate hw.admitted rfl rfl rfl rfl
    · rintro w ⟨hw, rfl⟩
      exact ⟨⟨hw.key, hw.effective, hw.admitted, hw.inspected⟩, rfl, rfl, rfl, le_rfl⟩
    · refine leads_bind chains_moves (leads_takeGeneration steady_mutating coarse_mutating) fun _ => ?_
      refine leads_bind chains_moves (calm_saveAttempt.leads steady_mutating) fun _ => ?_
      refine leads_bind chains_moves (calm_memory.leads steady_mutating) fun m => ?_
      refine leads_bind chains_moves (calm_publishRecord.leads steady_mutating) fun _ => ?_
      exact leads_bind chains_moves leads_applyRelay fun _ => leads_concludeApply

/-! ### The pipeline -/

def Seen (v : View) : Prop := ∀ f, v.measurement = some f → .inspected f ∈ v.trace

theorem Seen.move {v v' : View} (hmove : Move v v') (h : Seen v) : Seen v' := by
  intro f hf
  cases hmove with
  | inspect g =>
    obtain rfl : g = f := Option.some.inj hf
    exact .head _
  | wait | touch | settle | unverify | fail | hold | stuck | reject | renew | mutate => exact h f hf
  | pass | publish | save | look | trigger | gate | reuse | apply => exact .tail _ (h f hf)

theorem keeps_of_move {I : View → Prop} (hkeep : ∀ {v v'}, Move v v' → I v → I v') {v v' : View}
    (hmoves : Relation.ReflTransGen Move v v') (h : I v) : I v' := by
  induction hmoves with
  | refl => exact h
  | tail _ hmove ih => exact hkeep hmove ih

theorem mem_currentPass_of_admission {trace : List Event} (h : admission trace = some why) :
    .admitted why ∈ currentPass trace := by
  fun_induction admission trace with
  | case1 => cases h
  | case2 w rest =>
    obtain rfl : w = why := Option.some.inj h
    exact .head _
  | case3 | case4 | case5 => cases h
  | case6 e rest hadmitted hbooted hpass happlied ih =>
    have he : e.begins = false := by cases e <;> grind [Event.begins]
    rw [currentPass_cons he]
    exact .tail _ (ih h)

/-- A pass admitted so runs for the target. -/
structure Running (why : Admission) (target : Selection) (w : World) : Prop where
  key : w.m.attempt.targetKey = target.key
  effective : targetKey w.m.target = target.key
  admitted : admission w.trace = some why
  seen : Seen w.view

theorem steady_running : Steady (Running why target) := by
  intro w w' hcalm hw
  obtain ⟨_, htrace, hq⟩ := hcalm.2.trace
  refine ⟨by rw [hcalm.2.attempt, hw.key], by rw [hcalm.2.target, hw.effective], ?_, keeps_of_move Seen.move hcalm.1 hw.seen⟩
  rw [htrace, admission_quiet hq, hw.admitted]

theorem coarse_running : Coarse (Running why target) := fun _ _ ha hw =>
  ⟨ha.1.1.trans hw.key, hw.effective, hw.admitted, hw.seen⟩

theorem Running.cleared {w : World} (hw : Running why target w)
    (hinspected : AskedNow w.trace ∨ InspectedFirst target.server w.trace) : Cleared target w :=
  ⟨hw.key, hw.effective, by rw [hw.admitted]; rfl, hinspected⟩

theorem leads_noteRejection {hold : Hold} : Leads Moves P (noteRejection env target hold) fun _ _ => True := by
  unfold noteRejection
  cases hold.why with
  | none => exact (calm_pure _).ends
  | some why =>
    refine leads_bind chains_moves calm_releaseSignature.ends fun release => ?_
    exact leads_touch (fun _ _ _ => id) fun _ => ⟨⟨rfl, rfl⟩, rfl, rfl, rfl⟩

theorem leads_holdAttempt {hold : Hold} :
    Leads Moves (Running why target) (holdAttempt env target hold) fun _ _ => True := by
  refine leads_bind chains_moves (leads_setAttempt (Q := fun _ => True) ?_ fun _ _ => trivial) fun _ => ?_
  · intro w hw
    refine .hold ?_ ⟨rfl, rfl⟩ ?_ rfl
    · show (admission w.trace).isSome = true
      rw [hw.admitted]
      rfl
    · unfold Hold.state
      split_ifs
      · exact .inr rfl
      · exact .inl rfl
  · exact leads_bind chains_moves leads_noteRejection fun _ =>
      (calm_bind calm_saveAttempt fun _ => calm_bind calm_setNextHealth fun _ => calm_inspect).ends

/-- Should the finding let a mutation go ahead, it is inspected first. -/
def Reinspected (why : Admission) (target : Selection) (f : Finding) (w : World) : Prop :=
  Running why target w ∧ (¬ (f.server = target.server ∧ f.ok = true) → (f.server = target.server → why = .lapse) →
    InspectedFirst target.server w.trace)

theorem leads_reinspected (hrepair : repair = true → why = .lapse) :
    Leads Moves (Reinspected why target f) (reinspected env target repair f) fun _ _ => True := by
  have hcleared {w : World} (hw : Reinspected why target f w) (hok : ¬ (f.server = target.server ∧ f.ok = true))
      (hlive : f.server = target.server → why = .lapse) : Cleared target w :=
    hw.1.cleared (.inr (hw.2 hok hlive))
  unfold reinspected
  by_cases hlive : f.server = target.server
  · rw [if_pos hlive]
    by_cases hok : f.ok = true
    · rw [if_pos hok]
      exact leads_bind chains_moves leads_settle fun _ => (calm_bind calm_saveAttempt fun _ =>
        calm_bind calm_recordSelection fun _ => calm_bind calm_setNextHealth fun _ => calm_emit).ends
    rw [if_neg hok]
    cases repair with
    | false =>
      exact leads_bind chains_moves calm_memory.ends fun m => leads_bind chains_moves calm_now.ends fun t =>
        leads_bind chains_moves leads_markUnverified fun _ => calm_conclude.ends
    | true =>
      refine Leads.weaken ?_ fun w hw => hcleared hw (fun h => hok h.2) fun _ => hrepair rfl
      refine leads_bind chains_moves (calm_memory.leads steady_cleared) fun m => ?_
      refine leads_bind chains_moves (calm_now.leads steady_cleared) fun t => ?_
      by_cases hrest : (!(true && handshakeStale m f t) && !(true && f.silent)) = true
      · rw [if_pos hrest]
        exact leads_bind chains_moves leads_markUnverified fun _ => calm_conclude.ends
      · rw [if_neg hrest]
        refine leads_bind chains_moves (leads_touch coarse_cleared fun _ => ⟨⟨rfl, rfl⟩, rfl, rfl, rfl⟩) fun _ => ?_
        refine leads_bind chains_moves ((calm_ask _).leads steady_cleared) fun wall => ?_
        refine leads_bind chains_moves (leads_setMemory steady_cleared fun _ => ⟨rfl, rfl, rfl⟩) fun _ => ?_
        exact leads_deferring leads_mutate (fun _ => ⟨rfl, rfl, rfl⟩) fun _ _ _ _ => id
  · rw [if_neg hlive]
    exact leads_mutate.weaken fun w hw => hcleared hw (fun h => hlive h.1) fun h => absurd h hlive

theorem leads_inspection :
    Leads Moves (fun w => Running why target w ∧ .gatePassed ∈ currentPass w.trace) (inspection env false)
      (Reinspected why target) := by
  have hsteady : Steady fun w => Running why target w ∧ .gatePassed ∈ currentPass w.trace := by
    intro w w' hcalm hw
    obtain ⟨_, htrace, hq⟩ := hcalm.2.trace
    refine ⟨steady_running w w' hcalm hw.1, ?_⟩
    rw [htrace, currentPass_quiet hq]
    exact List.mem_append_right _ hw.2
  refine leads_bind chains_moves (calm_now.leads hsteady) fun t => ?_
  refine leads_bind chains_moves ((calm_ask _).leads hsteady) fun r => ?_
  refine leads_bind chains_moves (calm_memory.leads hsteady) fun m => ?_
  have hremember {f : Finding} : Leads Moves (fun w => Running why target w ∧ .gatePassed ∈ currentPass w.trace)
      (remember f) fun _ => Reinspected why target f := by
    rintro w ⟨hrunning, hgate⟩
    refine ⟨.single (.inspect f), fun _ _ => ⟨?_, fun hok hlive => ?_⟩⟩
    · exact ⟨hrunning.key, hrunning.effective, hrunning.admitted, hrunning.seen.move (.inspect f)⟩
    · have hpass := currentPass_cons (e := .inspected f) rfl w.trace
      refine .afterGate ⟨f, [], currentPass w.trace, hpass, hgate, hok, fun h => ?_⟩
      have hmem := List.mem_cons_of_mem (.inspected f) (mem_currentPass_of_admission hrunning.admitted)
      rwa [← hpass, hlive h] at hmem
  exact leads_bind chains_moves hremember fun _ => leads_pure chains_moves fun _ hw => hw

theorem reusable_eq_some {m : Memory} {t : ℚ} (h : reusable m repair t = some f) :
    m.measurement = some f ∧ repair = true ∧ f.silent = true ∧ t - f.time ≤ silentReuseSec := by
  unfold reusable at h
  simpa [and_assoc] using h

theorem leads_runPipeline {source : Source} {reinspect : Bool} (hrepair : repair = true → why = .lapse)
    (hasked : (reinspect || repair) = false → why = .newTarget true ∨ why = .pending true) :
    Leads Moves (Running why target) (runPipeline env target source reinspect repair) fun _ _ => True := by
  refine leads_bind chains_moves (leads_touch coarse_running fun _ => ⟨⟨rfl, rfl⟩, rfl, rfl, rfl⟩) fun _ => ?_
  refine leads_bind chains_moves (calm_gate.leads steady_running) fun hold => ?_
  cases hold with
  | some hold => exact leads_holdAttempt
  | none =>
    have hgate : Leads Moves (Running why target) (trace .gatePassed)
        fun _ w => Running why target w ∧ .gatePassed ∈ currentPass w.trace :=
      leads_trace (fun _ _ => .gate) fun w hw =>
        ⟨⟨hw.key, hw.effective, hw.admitted, hw.seen.move .gate⟩, by
          exact .head _⟩
    refine leads_bind chains_moves hgate fun _ => ?_
    have hcoarse : Coarse fun w => Running why target w ∧ .gatePassed ∈ currentPass w.trace := fun w a ha hw =>
      ⟨coarse_running w a ha hw.1, hw.2⟩
    refine leads_bind chains_moves (leads_touch hcoarse fun _ => ⟨⟨rfl, rfl⟩, rfl, rfl, rfl⟩) fun _ => ?_
    split_ifs with hmode
    · refine leads_bind chains_moves leads_now fun t => leads_bind chains_moves leads_memory fun m => ?_
      cases hreuse : reusable m repair t with
      | some f => 
        refine leads_bind chains_moves (leads_trace ?_ ?_) fun _ => leads_reinspected hrepair
        · rintro w ⟨⟨-, rfl⟩, rfl⟩
          exact .reuse f (reusable_eq_some hreuse).1
        · rintro w ⟨⟨⟨hrunning, -⟩, rfl⟩, rfl⟩
          obtain ⟨hmeasured, hmode, hsilent, hrecent⟩ := reusable_eq_some hreuse
          refine ⟨⟨hrunning.key, hrunning.effective, hrunning.admitted, hrunning.seen.move (.reuse f hmeasured)⟩,
            fun hok _ => ?_⟩
          have hpass := currentPass_cons (e := .reused f w.clock) rfl w.trace
          have hmem := List.mem_cons_of_mem (.reused f w.clock) (mem_currentPass_of_admission hrunning.admitted)
          rw [← hpass, hrepair hmode] at hmem
          exact .silent f w.clock (hpass ▸ (.head _)) (.tail _ (hrunning.seen f hmeasured))
            hsilent hrecent hmem hok
      | none =>
        refine leads_bind chains_moves (leads_inspection.weaken fun w hw => hw.1.1) fun f => leads_reinspected hrepair
    · refine leads_mutate.weaken fun w hw => hw.1.cleared (.inl ?_)
      have hmem := mem_currentPass_of_admission hw.1.admitted
      refine List.any_eq_true.2 ⟨.admitted why, hmem, ?_⟩
      rcases hasked (by simpa using hmode) with rfl | rfl <;> rfl

end Molebridge.Applier
