import Molebridge.Proofs.PipelineMoves

/-! What a pass admits, and the whole pass. A process's run is a sequence of the machine's
moves, and a history one of its turns. -/

namespace Molebridge.Applier

variable {env : Env} {P : World → Prop} {target : Selection} {why : Admission} {source : Source} {a : Attempt} {t : ℚ}

variable {live : String} {guard : Bool} {I : View → Prop}

/-! ### Admission -/

def OnTarget (w : World) : Prop := targetKey w.m.target = w.m.attempt.targetKey ∧ Seen w.view

theorem steady_onTarget : Steady OnTarget := fun w w' hcalm hw =>
  ⟨by rw [hcalm.2.target, hcalm.2.attempt, hw.1], keeps_of_move Seen.move hcalm.1 hw.2⟩

/-- The trigger's pass may run now. -/
def Admitting (why : Admission) (target : Selection) (w : World) : Prop :=
  OnTarget w ∧ w.m.target = some target ∧ w.m.attempt.state ≠ .attempting ∧
    ∃ t ≤ w.clock, Admissible w.m.attempt t why

theorem leads_admitted :
    Leads Moves (Admitting why target) (admitted env why target source) fun r w => r = none → OnTarget w := by
  have htrace : Leads Moves (Admitting why target) (trace (.admitted why)) fun _ => Running why target := by
    refine leads_trace ?_ ?_
    · rintro w ⟨⟨hkey, -⟩, -, hrest, t, hpast, hadmissible⟩
      exact .trigger why hpast hadmissible hkey hrest
    · rintro w ⟨⟨hkey, hseen⟩, htarget, -⟩
      have hown : targetKey w.m.target = target.key := by rw [htarget]; rfl
      exact ⟨hkey.symm.trans hown, hown, rfl, fun f hf => .tail _ (hseen f hf)⟩
  refine leads_bind chains_moves htrace fun _ => leads_bind chains_moves (leads_runPipeline ?_ ?_) fun _ =>
    leads_pure chains_moves fun _ _ h => nomatch h
  · exact beq_iff_eq.1
  · cases why with
    | newTarget asked | pending asked => cases asked <;> simp
    | _ => simp

/-- The attempt and the target are these, at a time that is past. -/
structure Deciding (a : Attempt) (target : Selection) (t : ℚ) (w : World) : Prop where
  attempt : w.m.attempt = a
  target : w.m.target = some target
  past : t ≤ w.clock
  own : OnTarget w

theorem steady_deciding : Steady (Deciding a target t) := fun w w' hcalm hw =>
  ⟨hcalm.2.attempt.trans hw.attempt, hcalm.2.target.trans hw.target, hw.past.trans hcalm.2.clock,
    steady_onTarget w w' hcalm hw.own⟩

theorem leads_decide (hadmissible : Admissible a t why) (hrest : a.state ≠ .attempting) :
    Leads Moves (Deciding a target t) (admitted env why target source) fun r w => r = none → OnTarget w := by
  refine leads_admitted.weaken fun w hw => ⟨hw.own, hw.target, ?_, t, hw.past, ?_⟩
  · rwa [hw.attempt]
  · rwa [hw.attempt]

theorem leads_decline :
    Leads Moves (Deciding a target t) (pure none : AppM (Option Members)) fun r w => r = none → OnTarget w :=
  leads_pure chains_moves fun _ hw _ => hw.own

theorem leads_attempt : Leads Moves (Deciding a target t) memory fun m w => Deciding a target t w ∧ m.attempt = a :=
  leads_memory.mono fun m w hw => ⟨hw.1, by rw [hw.2, hw.1.attempt]⟩

theorem admissible_of_lapseRepairDue {m : Memory} (h : lapseRepairDue m live t = true) :
    Admissible m.attempt t .lapse ∧ m.attempt.state ≠ .attempting := by
  unfold lapseRepairDue at h
  simp only [Bool.and_eq_true] at h
  obtain ⟨⟨-, hrest⟩, hpaced⟩ := h
  refine ⟨?_, fun hattempting => ?_⟩
  · unfold Admissible
    cases hlast : m.attempt.lastMutationAt with
    | none => rfl
    | some last =>
      rw [hlast] at hpaced
      exact hpaced
  · rw [hattempting] at hrest
    cases hrest

theorem leads_admitDrift (hguard : guard = true → a.guardPassed t = true) (hrest : a.state ≠ .attempting) :
    Leads Moves (Deciding a target t) (admitDrift env target t guard live) fun r w => r = none → OnTarget w := by
  refine leads_bind chains_moves leads_attempt fun m => Leads.assuming fun hm => ?_
  by_cases hlive : live ≠ ""
  · rw [if_pos hlive]
    refine leads_bind chains_moves (leads_setMemory steady_deciding fun _ => ⟨rfl, rfl, rfl⟩) fun _ => ?_
    split_ifs with h
    · exact leads_decide (hguard h.2.2) hrest
    · exact leads_decline
  · rw [if_neg hlive]
    cases m.unidentifiedSince with
    | none =>
      exact leads_bind chains_moves (leads_setMemory steady_deciding fun _ => ⟨rfl, rfl, rfl⟩) fun _ => leads_decline
    | some since =>
      dsimp only
      split_ifs with h
      · refine leads_bind chains_moves (leads_setMemory steady_deciding fun _ => ⟨rfl, rfl, rfl⟩) fun _ => ?_
        exact leads_decide (hguard h.2.2) hrest
      · exact leads_decline

theorem leads_admitLive {keys : List String} (hguard : guard = true → a.guardPassed t = true)
    (hrest : a.state ≠ .attempting) :
    Leads Moves (Deciding a target t) (admitLive env target t guard keys) fun r w => r = none → OnTarget w := by
  refine leads_bind chains_moves leads_attempt fun m => Leads.assuming ?_
  rintro rfl
  by_cases hdue : m.attempt.nextAction = some .reapply ∧ m.attempt.nextActionAt.any (· ≤ t) = true
  · rw [if_pos hdue]
    exact leads_decide hdue hrest
  rw [if_neg hdue]
  by_cases hkeys : keys ≠ []
  · rw [if_pos hkeys]
    refine leads_bind chains_moves ((calm_ask _).leads steady_deciding) fun wall => ?_
    split_ifs
    · exact leads_bind chains_moves (leads_setMemory steady_deciding fun _ => ⟨rfl, rfl, rfl⟩) fun _ => leads_decline
    refine leads_bind chains_moves ((calm_ask _).leads steady_deciding) fun serverFor => ?_
    cases serverFor keys with
    | none => exact leads_decline
    | some live =>
      refine leads_bind chains_moves leads_attempt fun m' => Leads.assuming fun hm' => ?_
      split_ifs with hlapse
      · refine leads_decide ?_ hrest
        rw [← hm']
        exact (admissible_of_lapseRepairDue (Bool.and_eq_true_iff.1 hlapse).1).1
      · exact leads_admitDrift hguard hrest
  · rw [if_neg hkeys]
    exact leads_admitDrift hguard hrest

theorem leads_admitPeers (hrest : a.state ≠ .attempting) :
    Leads Moves (Deciding a target t) (admitPeers env target t) fun r w => r = none → OnTarget w := by
  refine leads_bind chains_moves ((calm_ask _).leads steady_deciding) fun keys => ?_
  cases keys with
  | none => exact leads_decline
  | some keys =>
    refine leads_bind chains_moves leads_attempt fun m => Leads.assuming ?_
    rintro rfl
    dsimp only
    split_ifs with hkeys
    · refine leads_bind chains_moves ((calm_ask _).leads steady_deciding) fun generation => ?_
      split_ifs with hguard
      · exact leads_decide (Bool.and_eq_true_iff.1 hguard).1 hrest
      · exact leads_admitLive id hrest
    · exact leads_admitLive id hrest

theorem leads_start {target : Option Selection} :
    Leads Moves (fun w => targetKey target ≠ w.m.attempt.targetKey ∧ w.m.target = target ∧ Seen w.view)
      (start env target) fun r w => r = none → OnTarget w := by
  have hsteady : Steady fun w => targetKey target ≠ w.m.attempt.targetKey ∧ w.m.target = target ∧ Seen w.view :=
    fun w w' hcalm hw => ⟨by rw [hcalm.2.attempt]; exact hw.1, hcalm.2.target.trans hw.2.1,
      keeps_of_move Seen.move hcalm.1 hw.2.2⟩
  -- The new attempt is for the effective target, and mutated nothing yet.
  have hrenew {g : Memory → Attempt} (hg : ∀ m, (g m).targetKey = targetKey target ∧
      (g m).lastMutationAt = none ∧ (g m).state = .idle ∧ (g m).nextAction = none) :
      Leads Moves (fun w => targetKey target ≠ w.m.attempt.targetKey ∧ w.m.target = target ∧ Seen w.view)
        (setMemory fun m => { m with attempt := g m })
        fun _ w => OnTarget w ∧ w.m.target = target ∧ w.m.attempt.lastMutationAt = none ∧ w.m.attempt.state = .idle := by
    refine Leads.modify fun w hw => ?_
    obtain ⟨hchanged, htarget, hseen⟩ := hw
    obtain ⟨hkey, hlast, hstate, hnext⟩ := hg w.m
    subst htarget
    exact ⟨.single (.renew hchanged hkey hlast hstate hnext), ⟨hkey.symm, hseen⟩, rfl, hlast, hstate⟩
  refine leads_bind chains_moves (calm_memory.leads hsteady) fun m => ?_
  refine leads_bind chains_moves (leads_setMemory hsteady fun _ => ⟨rfl, rfl, rfl⟩) fun _ => ?_
  cases target with
  | none =>
    refine leads_bind chains_moves (hrenew fun _ => ⟨rfl, rfl, rfl, rfl⟩) fun _ => ?_
    refine Leads.weaken ?_ fun w hw => hw.1
    refine leads_bind chains_moves (calm_saveAttempt.leads steady_onTarget) fun _ => ?_
    refine leads_bind chains_moves (leads_setMemory steady_onTarget fun _ => ⟨rfl, rfl, rfl⟩) fun _ => ?_
    exact leads_pure chains_moves fun _ hw _ => hw
  | some target =>
    refine leads_bind chains_moves (calm_askedNow.leads hsteady) fun asked => ?_
    refine leads_bind chains_moves (hrenew fun _ => ⟨rfl, rfl, rfl, rfl⟩) fun _ => ?_
    refine leads_admitted.weaken fun w hw => ⟨hw.1, hw.2.1, ?_, w.clock, le_rfl, hw.2.2.1⟩
    rw [hw.2.2.2]
    decide

theorem leads_admitTarget : Leads Moves (fun w => Seen w.view) (admitTarget env) fun r w => r = none → OnTarget w := by
  refine leads_bind chains_moves leads_memory fun m => leads_bind chains_moves leads_now fun t => ?_
  by_cases hchanged : targetKey m.target ≠ m.attempt.targetKey
  · rw [if_pos hchanged]
    refine leads_start.weaken ?_
    rintro w ⟨⟨hseen, rfl⟩, -⟩
    exact ⟨hchanged, rfl, hseen⟩
  rw [if_neg hchanged]
  cases htarget : m.target with
  | none =>
    refine leads_pure chains_moves ?_
    rintro w ⟨⟨hseen, rfl⟩, -⟩ -
    exact ⟨not_not.1 hchanged, hseen⟩
  | some target =>
    refine Leads.weaken (P := Deciding m.attempt target t) ?_ ?_
    swap
    · rintro w ⟨⟨hseen, rfl⟩, rfl⟩
      exact ⟨rfl, htarget, le_rfl, not_not.1 hchanged, hseen⟩
    cases hstate : m.attempt.state with
    | attempting => exact leads_decline
    | pending =>
      refine leads_bind chains_moves (calm_gate.leads steady_deciding) fun hold => ?_
      cases hold with
      | some hold => exact leads_decline
      | none =>
        refine leads_bind chains_moves (calm_askedNow.leads steady_deciding) fun asked => ?_
        exact leads_decide hstate (by rw [hstate]; decide)
    | rejected =>
      refine leads_bind chains_moves (calm_liftedBy.leads steady_deciding) fun release => ?_
      split_ifs
      · exact leads_decide hstate (by rw [hstate]; decide)
      · exact leads_decline
    | idle | unverified | failed => exact leads_admitPeers (by rw [hstate]; decide)

/-! ### One pass -/

theorem leads_check : Leads Moves OnTarget (check env) fun _ _ => True := by
  refine leads_bind chains_moves (calm_inspection.leads steady_onTarget) fun f => ?_
  refine leads_bind chains_moves leads_memory fun m => ?_
  have hconclude {P : World → Prop} : Leads Moves P (do return some (← concludeCheck env f)) fun _ _ => True :=
    leads_bind chains_moves leads_concludeCheck fun _ => (calm_pure _).ends
  cases htarget : m.target with
  | none => exact hconclude
  | some target =>
    refine leads_bind chains_moves leads_now fun t => ?_
    split_ifs with hlapse
    · refine (leads_admitted.weaken ?_).mono fun _ _ _ => trivial
      rintro w ⟨⟨hown, rfl⟩, rfl⟩
      obtain ⟨hadmissible, hrest⟩ := admissible_of_lapseRepairDue (Bool.and_eq_true_iff.1 hlapse).2
      exact ⟨hown, htarget, hrest, w.clock, le_rfl, hadmissible⟩
    · exact hconclude

theorem leads_judgeInterrupted {m : Memory} {f : Finding} :
    Leads Moves Attempting (judgeInterrupted env m f) fun _ _ => True := by
  unfold judgeInterrupted
  split_ifs
  · exact leads_bind chains_moves leads_settle fun _ => calm_recordSelection.ends
  · exact leads_markUnverified
  · exact leads_failMutation

theorem leads_resume : Leads Moves (fun w => Seen w.view) (resume env) fun r w => r = none → Seen w.view := by
  refine leads_bind chains_moves leads_memory fun m => ?_
  by_cases hstate : m.attempt.state ≠ .attempting
  · rw [if_pos hstate]
    exact leads_pure chains_moves fun w hw _ => hw.1
  rw [if_neg hstate]
  refine Leads.weaken (P := Attempting) ?_ ?_
  swap
  · rintro w ⟨-, rfl⟩
    exact not_not.1 hstate
  refine leads_bind chains_moves (leads_setMemory steady_attempting fun _ => ⟨rfl, rfl, rfl⟩) fun _ => ?_
  refine leads_bind chains_moves (calm_inspection.leads steady_attempting) fun f => ?_
  refine leads_bind chains_moves leads_judgeInterrupted fun _ => ?_
  exact leads_bind chains_moves calm_saveAttempt.ends fun _ => leads_bind chains_moves calm_setNextHealth.ends fun _ =>
    leads_bind chains_moves calm_emit.ends fun _ => leads_pure chains_moves fun _ _ h => nomatch h

theorem leads_resumeFirst : Leads Moves (fun w => Seen w.view) (resumeFirst env) fun r w => r = none → Seen w.view := by
  have hsteady : Steady fun w => Seen w.view := fun w w' hcalm => keeps_of_move Seen.move hcalm.1
  refine leads_bind chains_moves (calm_memory.leads hsteady) fun m => ?_
  split_ifs
  · exact leads_bind chains_moves (leads_setMemory hsteady fun _ => ⟨rfl, rfl, rfl⟩) fun _ => leads_resume
  · exact leads_pure chains_moves fun _ hw _ => hw

theorem calm_maintainCatalog : Calmly (maintainCatalog env) := by
  refine calm_bind (calm_ask _) fun maintained => ?_
  rcases maintained with message | ⟨-, -⟩
  · exact calm_throw _
  · exact calm_setMemory fun _ => ⟨rfl, rfl, rfl⟩

theorem leads_tick : Leads Moves (fun w => Seen w.view) (tick env) fun _ _ => True := by
  have hsteady : Steady fun w => Seen w.view := fun w w' hcalm => keeps_of_move Seen.move hcalm.1
  refine leads_bind chains_moves (calm_maintainCatalog.leads hsteady) fun _ => ?_
  refine leads_bind chains_moves (calm_resolve.leads hsteady) fun target => ?_
  have hbegin : Leads Moves (fun w => Seen w.view) (beginPass target) fun _ w => Seen w.view :=
    Leads.modify fun w hw => ⟨.single (.pass target), hw.move (.pass target)⟩
  refine leads_bind chains_moves hbegin fun _ => leads_bind chains_moves leads_resumeFirst fun resumed => ?_
  cases resumed with
  | some record => exact (calm_pure _).ends
  | none =>
    refine leads_bind chains_moves (leads_admitTarget.weaken fun w hw => hw rfl) fun admitted => ?_
    cases admitted with
    | some record => exact (calm_pure _).ends
    | none =>
      refine Leads.weaken ?_ fun w hw => hw rfl
      refine leads_bind chains_moves (calm_watchStall.leads steady_onTarget) fun _ => ?_
      refine leads_bind chains_moves (calm_memory.leads steady_onTarget) fun m => ?_
      refine leads_bind chains_moves (calm_now.leads steady_onTarget) fun t => ?_
      split_ifs
      · exact leads_check
      · exact (calm_pure _).ends

/-! ### Histories -/

theorem moves_tick {w : World} (hseen : Seen w.view) : Moves w (w.tick env) := by
  have hmoves := (@leads_tick env w hseen).1
  unfold World.tick
  rcases hrun : (Applier.tick env).run w with ⟨⟨(_ | _ | _)⟩ | _, _⟩ <;>
  · rw [hrun] at hmoves
    exact hmoves

theorem moves_step {w : World} (hseen : Seen w.view) : Moves w (w.step env .tick) := by
  unfold World.step
  split_ifs
  · exact moves_tick hseen
  · exact .refl

theorem seen_boot (w : World) (b : Boot) : Seen (w.boot b).view := fun _ h => nomatch h

theorem run_keeps {b : Boot} {saved : Option Attempt} {passes : ℕ}
    (hmove : ∀ {v v'}, Move v v' → I v → I v') (hstart : I (run env b saved 0).view) :
    I (run env b saved passes).view := by
  have hboth : I (run env b saved passes).view ∧ Seen (run env b saved passes).view := by
    induction passes with
    | zero => exact ⟨hstart, seen_boot _ b⟩
    | succ passes ih =>
      have hstep := @moves_step env _ ih.2
      rw [run, Function.iterate_succ_apply']
      exact ⟨keeps_of_move hmove hstep ih.1, keeps_of_move Seen.move hstep ih.2⟩
  exact hboth.1

theorem history_keeps {b : Boot} {steps : List Step} (hturn : ∀ {v v'}, Turn v v' → I v → I v')
    (hstart : I (history env b []).view) : I (history env b steps).view := by
  have hmove {v v' : View} (h : Move v v') : I v → I v' := hturn (.move h)
  have hsteps (w : World) (hw : I w.view) (hseen : Seen w.view) : I (steps.foldl (World.step env) w).view := by
    induction steps generalizing w with
    | nil => exact hw
    | cons s steps ih =>
      cases s with
      | boot b => exact ih (w.boot b) (hturn (.boot b.bootId b.clock) hw) (seen_boot w b)
      | tick => exact ih _ (keeps_of_move hmove (moves_step hseen) hw) (keeps_of_move Seen.move (moves_step hseen) hseen)
  exact hsteps _ hstart (seen_boot _ b)

end Molebridge.Applier
