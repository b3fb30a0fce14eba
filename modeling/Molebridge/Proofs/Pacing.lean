import Molebridge.Proofs.Inspections

/-! How ApplyRelay calls are paced while the target stays the same. -/

namespace Molebridge.Applier

/-- A pass with another target is none of the key's. -/
def Event.keeps (key : String) : Event → Bool
  | .pass k => k == key
  | _ => true

/-- The call was made, and the target has been its since. -/
def Live (a : Application) : List Event → Prop
  | [] => False
  | e :: rest => e = .applied a ∨ (e.keeps a.key = true ∧ Live a rest)

variable {a call : Application}

theorem live_of_split {later before : List Event} (h : ∀ e ∈ later, e.keeps a.key = true) :
    Live a (later ++ .applied a :: before) := by
  induction later with
  | nil => exact .inl rfl
  | cons e later ih =>
    exact .inr ⟨h e List.mem_cons_self, ih fun e he => h e (List.mem_cons_of_mem _ he)⟩

variable {trace : List Event}

theorem LastCall.live (h : LastCall trace call) : Live call trace := by
  obtain ⟨_, -, rfl, hq⟩ := h
  refine live_of_split fun e he => ?_
  have := hq e he
  cases e <;> first | rfl | exact nomatch this

theorem Live.before_last (h : Live a trace) (hlast : LastCall trace call) :
    a = call ∨ ∃ later rest, trace = later ++ .applied call :: rest ∧ Live a rest := by
  obtain ⟨quiet, rest, rfl, hq⟩ := hlast
  suffices a = call ∨ Live a rest from this.imp_right fun h => ⟨quiet, rest, rfl, h⟩
  induction quiet with
  | nil =>
    rcases h with heq | ⟨-, h⟩
    · exact .inl (Event.applied.inj heq).symm
    · exact .inr h
  | cons e quiet ih =>
    rcases h with rfl | ⟨-, h⟩
    · exact nomatch hq (.applied a) List.mem_cons_self
    · exact ih (fun e he => hq e (List.mem_cons_of_mem _ he)) h

/-- Enough time since a call for a pass that is admitted so. -/
def Waited (a : Application) (why : Admission) (t : ℚ) : Prop :=
  (a.outcome ≠ .credentialRejected → a.mutated + 60 ≤ t) ∧ (why = .reconverge → a.mutated + reapplyGuardSec ≤ t)

theorem Waited.mono {why : Admission} {t t' : ℚ} (h : Waited a why t) (ht : t ≤ t') : Waited a why t' :=
  ⟨fun ha => (h.1 ha).trans ht, fun hw => (h.2 hw).trans ht⟩

def Paced : List Event → Prop
  | [] => True
  | e :: rest => (∀ call, e = .applied call → ∀ a, Live a rest → ∃ why, admission rest = some why ∧ Waited a why call.mutated) ∧
      Paced rest

theorem Paced.at_call {later rest : List Event} (h : Paced (later ++ .applied call :: rest)) (ha : Live a rest) : ∃ why, admission rest = some why ∧ Waited a why call.mutated := by
  induction later with
  | nil => exact h.1 call rfl a ha
  | cons e later ih => exact ih h.2

structure Pacing (a : Application) (v : View) : Prop where
  key : v.attempt.targetKey = a.key
  target : targetKey v.target = a.key
  last : ∃ l, v.attempt.lastMutationAt = some l ∧ a.mutated ≤ l ∧ l ≤ v.clock
  due : a.outcome ≠ .credentialRejected → v.attempt.nextAction = some .reapply →
    ∀ d, v.attempt.nextActionAt = some d → a.mutated + 60 ≤ d
  held : a.outcome ≠ .credentialRejected → v.attempt.state = .pending ∨ v.attempt.state = .rejected →
    a.mutated + 60 ≤ v.clock
  admitted : ∀ why, admission v.trace = some why → Waited a why v.clock
  begun : v.attempt.state = .attempting → ∀ why, admission v.trace = some why →
    ∀ l, v.attempt.lastMutationAt = some l → Waited a why l

namespace Pacing

variable {a : Application} {v v' : View} {b : Attempt}

theorem mutated_le (h : Pacing a v) : a.mutated ≤ v.clock := by
  obtain ⟨l, -, hl, hclock⟩ := h.last
  exact hl.trans hclock

theorem event (h : Pacing a v) (hadmission : admission trace = admission v.trace ∨ admission trace = none) :
    Pacing a { v with trace } where
  key := h.key
  target := h.target
  last := h.last
  due := h.due
  held := h.held
  admitted why hwhy := by
    rcases hadmission with heq | hnone
    · exact h.admitted why (heq ▸ hwhy)
    · exact nomatch hnone.symm.trans hwhy
  begun hstate why hwhy := by
    rcases hadmission with heq | hnone
    · exact h.begun hstate why (heq ▸ hwhy)
    · exact nomatch hnone.symm.trans hwhy

theorem attempt (h : Pacing a v) (same : SameTarget v.attempt b)
    (hdue : a.outcome ≠ .credentialRejected → b.nextAction = some .reapply → ∀ d, b.nextActionAt = some d → a.mutated + 60 ≤ d)
    (hheld : a.outcome ≠ .credentialRejected → b.state = .pending ∨ b.state = .rejected → a.mutated + 60 ≤ v.clock)
    (hbegun : b.state = .attempting → v.attempt.state = .attempting) : Pacing a { v with attempt := b } where
  key := same.1.trans h.key
  target := h.target
  last := by
    obtain ⟨l, hl, hle⟩ := h.last
    exact ⟨l, same.2.trans hl, hle⟩
  due := hdue
  held := hheld
  admitted := h.admitted
  begun hstate why hwhy l hl := h.begun (hbegun hstate) why hwhy l (same.2.symm.trans hl)

theorem waited (h : Pacing a v) {why : Admission} {t : ℚ} (past : t ≤ v.clock) (hwhy : Admissible v.attempt t why) :
    Waited a why v.clock := by
  obtain ⟨l, hl, _, -⟩ := h.last
  cases why with
  | newTarget => exact nomatch hl.symm.trans hwhy
  | pending => exact ⟨fun ha => h.held ha (.inl hwhy), fun h => nomatch h⟩
  | released => exact ⟨fun ha => h.held ha (.inr hwhy), fun h => nomatch h⟩
  | reconverge =>
    have hguard : reapplyGuardSec ≤ t - l := by simpa [Admissible, Attempt.guardPassed, hl] using hwhy
    have hminute : 60 ≤ reapplyGuardSec := by norm_num [reapplyGuardSec]
    exact ⟨fun _ => by linarith, fun _ => by linarith⟩
  | due =>
    obtain ⟨hnext, hdue⟩ := hwhy
    cases hd : v.attempt.nextActionAt with
    | none => simp [hd] at hdue
    | some d =>
      have hreached : d ≤ t := by simpa [hd] using hdue
      exact ⟨fun ha => (h.due ha hnext d hd).trans (hreached.trans past), fun h => nomatch h⟩
  | lapse =>
    have hbackoff : l + backoff v.attempt.backoffStep ≤ t := by simpa [Admissible, hl] using hwhy
    exact ⟨fun _ => by linarith [le_backoff v.attempt.backoffStep], fun h => nomatch h⟩

theorem move (hmove : Move v v') (hpaced : Paced v.trace) (hall : ∀ a, Live a v.trace → Pacing a v)
    (hlive : Live a v'.trace) : Pacing a v' := by
  have h : Live a v.trace → Pacing a v := hall a
  cases hmove with
  | wait later =>
    have h := h hlive
    exact { h with
      last := by
        obtain ⟨l, hl, hle, hclock⟩ := h.last
        exact ⟨l, hl, hle, hclock.trans later⟩
      held := fun ha hstate => (h.held ha hstate).trans later
      admitted := fun why hwhy => (h.admitted why hwhy).mono later }
  | pass target =>
    obtain ⟨hkey, hlive⟩ := hlive.resolve_left nofun
    exact { (h hlive).event (.inr rfl) with target := beq_iff_eq.1 hkey }
  | inspect | publish | save | look | gate | reuse =>
    exact { (h (hlive.resolve_left fun h => nomatch h).2).event (.inl rfl) with }
  | touch same =>
    have h := h hlive
    exact h.attempt same.1 (by rw [same.2.2.1, same.2.2.2]; exact h.due) (by rw [same.2.1]; exact h.held)
      (by rw [same.2.1]; exact id)
  | settle same state next | unverify same state next =>
    exact (h hlive).attempt same (by simp [next]) (by simp [state]) (by simp [state])
  | fail same attempting state next at_ paced =>
    refine (h hlive).attempt same (fun _ _ d hd => ?_) (by simp [state]) (by simp [state])
    obtain rfl : _ = d := Option.some.inj (at_.symm.trans hd)
    linarith [(h hlive).mutated_le]
  | hold admitted same state next =>
    obtain ⟨why, hwhy⟩ := Option.isSome_iff_exists.1 admitted
    refine (h hlive).attempt same (by simp [next]) (fun ha _ => ((h hlive).admitted why hwhy).1 ha) ?_
    rcases state with state | state <;> simp [state]
  | stuck admitted same looked state next at_ =>
    obtain ⟨why, hwhy⟩ := Option.isSome_iff_exists.1 admitted
    exact (h hlive).attempt same (by rw [next, at_]; exact (h hlive).due)
      (fun ha _ => ((h hlive).admitted why hwhy).1 ha) (by simp [state])
  | reject same called refused attempting state next at_ =>
    refine (h hlive).attempt same (by rw [next, at_]; exact (h hlive).due) (fun ha _ => ?_) (by simp [state])
    -- The refused call is another one, made a minute or more after this one.
    rcases hlive.before_last called with rfl | ⟨_, _, htrace, hbefore⟩
    · exact absurd refused ha
    · obtain ⟨why, -, hwaited⟩ := (htrace ▸ hpaced).at_call hbefore
      exact (hwaited.1 ha).trans (hall _ called.live).mutated_le
  | renew changed key last state next => exact absurd ((h hlive).target.trans (h hlive).key.symm) changed
  | trigger why past admissible key resting =>
    have h := h (hlive.resolve_left fun h => nomatch h).2
    exact { h with
      admitted := fun why' hwhy' => by
        obtain rfl : why = why' := Option.some.inj hwhy'
        exact h.waited past admissible
      begun := fun hstate => absurd hstate resting }
  | mutate admitted key last state next =>
    have h := h hlive
    exact { h with
      key := key.trans h.key
      last := ⟨v.clock, last, h.mutated_le, le_rfl⟩
      due := fun _ hnext => nomatch next.symm.trans hnext
      held := fun _ hstate => by simp [state] at hstate
      begun := fun _ why hwhy l hl => by
        obtain rfl : v.clock = l := Option.some.inj (last.symm.trans hl)
        exact h.admitted why hwhy }
  | apply call key target attempting next recorded begun past admitted inspected =>
    rcases hlive with heq | ⟨-, hlive⟩
    · obtain rfl : call = a := Event.applied.inj heq
      exact {
        key := key.symm
        target := target.trans key.symm
        last := ⟨call.mutated, recorded, le_rfl, past⟩
        due := fun _ hnext => nomatch next.symm.trans hnext
        held := fun _ hstate => by simp [attempting] at hstate
        admitted := fun _ hwhy => nomatch hwhy
        begun := fun _ _ hwhy => nomatch hwhy }
    · exact (h hlive).event (.inr rfl)

end Pacing

/-! ### Runs -/

/-- Every call waited, what is live paces what comes, and a call starts once its time is
recorded. -/
structure WellPaced (v : View) : Prop where
  paced : Paced v.trace
  live : ∀ a, Live a v.trace → Pacing a v
  recorded : ∀ a, .applied a ∈ v.trace → a.mutated ≤ a.started

theorem WellPaced.event {v v' : View} {e : Event} (h : WellPaced v) (hmove : Move v v') (htrace : v'.trace = e :: v.trace)
    (he : ∀ a, e ≠ .applied a) : WellPaced v' where
  paced := htrace ▸ ⟨fun call hcall => absurd hcall (he call), h.paced⟩
  live _ hlive := Pacing.move hmove h.paced h.live hlive
  recorded a ha := h.recorded a ((List.mem_cons.1 (htrace ▸ ha)).resolve_left fun heq => he a heq.symm)

theorem WellPaced.move {v v' : View} (hmove : Move v v') (h : WellPaced v) : WellPaced v' := by
  cases hmove' : hmove with
  | wait | touch | settle | unverify | fail | hold | stuck | reject | renew | mutate =>
    exact ⟨h.paced, fun a hlive => Pacing.move hmove h.paced h.live hlive, h.recorded⟩
  | pass | inspect | publish | save | look | trigger | gate | reuse => exact h.event hmove rfl fun _ h => nomatch h
  | apply call key target attempting next recorded begun past admitted inspected =>
    obtain ⟨why, hwhy⟩ := Option.isSome_iff_exists.1 admitted
    refine ⟨⟨fun call' hcall a ha => ?_, h.paced⟩, fun a hlive => Pacing.move hmove h.paced h.live hlive, fun a ha => ?_⟩
    · obtain rfl : call = call' := Event.applied.inj hcall
      exact ⟨why, hwhy, (h.live a ha).begun attempting why hwhy call.mutated recorded⟩
    · rcases List.mem_cons.1 ha with heq | ha
      · obtain rfl : a = call := Event.applied.inj heq
        exact past.trans_eq begun.symm
      · exact h.recorded a ha

/-- In a process's run, of two ApplyRelay calls between which the target's key does not
change, the second's time is recorded a minute or more after the first's, unless the
first was refused the login; a reconvergence's, 90 seconds or more. A call starts no
earlier than its time is recorded. -/
theorem applications_paced (env : Env) (b : Boot) (saved : Option Attempt) (passes : ℕ) (later between before : List Event)
    (first second : Application)
    (calls : (run env b saved passes).trace = later ++ .applied second :: (between ++ .applied first :: before))
    (same : ∀ key, .pass key ∈ between → key = first.key) :
    (first.outcome ≠ .credentialRejected → first.mutated + 60 ≤ second.mutated) ∧
      (admission (between ++ .applied first :: before) = some .reconverge →
        first.mutated + reapplyGuardSec ≤ second.mutated) ∧ second.mutated ≤ second.started := by
  have hstart : WellPaced (run env b saved 0).view :=
    ⟨⟨(fun _ h => nomatch h), trivial⟩, fun a ha => ((ha.resolve_left fun h => nomatch h).2).elim,
      fun a ha => nomatch (List.mem_singleton.1 ha : Event.applied a = .booted)⟩
  have hpaced : WellPaced (run env b saved passes).view := run_keeps WellPaced.move hstart
  have hlive : Live first (between ++ .applied first :: before) := by
    refine live_of_split fun e he => ?_
    cases e with
    | pass key => exact beq_iff_eq.2 (same key he)
    | _ => rfl
  have htrace : Paced (later ++ .applied second :: (between ++ .applied first :: before)) := calls ▸ hpaced.paced
  obtain ⟨why, hwhy, hwaited⟩ := htrace.at_call hlive
  refine ⟨hwaited.1, fun hreconverge => hwaited.2 (Option.some.inj (hwhy.symm.trans hreconverge)), hpaced.recorded second ?_⟩
  show _ ∈ (run env b saved passes).trace
  rw [calls]
  exact List.mem_append_right _ List.mem_cons_self

/-! ### A repair after a slow publication -/

def silentRun : World := run silentTunnel (configuredExit "pia" "de" pia_known) none 3

def switchCall : Application := ⟨"configured:de", "de", 0, 10, .done⟩

theorem silentRun_calls : silentRun.trace = [] ++ .applied repairCall ::
    ((silentRun.trace.drop 1).take 11 ++ .applied switchCall :: (silentRun.trace.drop 1).drop 12) := by
  rw [← split_at_call 11 (by decide +kernel)]
  exact split_at_call 0 (by decide +kernel)

theorem silentRun_same (key : String) (h : .pass key ∈ (silentRun.trace.drop 1).take 11) : key = switchCall.key := by
  have hall : ((silentRun.trace.drop 1).take 11).all (Event.keeps switchCall.key) = true := by decide +kernel
  exact beq_iff_eq.1 (List.all_eq_true.1 hall _ h)

/-- The repair's time is a minute after the switch's. -/
theorem applications_paced_silent : switchCall.mutated + 60 ≤ repairCall.mutated :=
  (applications_paced silentTunnel (configuredExit "pia" "de" pia_known) none 3 [] _ _ switchCall repairCall
    silentRun_calls silentRun_same).1 (by decide)

/-- But the two calls start 50 seconds apart: the switch's waited for its publication. -/
theorem calls_closer_than_a_minute :
    silentRun.trace = [] ++ .applied repairCall ::
        ((silentRun.trace.drop 1).take 11 ++ .applied switchCall :: (silentRun.trace.drop 1).drop 12) ∧
      ((silentRun.trace.drop 1).take 11).all (Event.keeps switchCall.key) = true ∧
      switchCall.outcome ≠ .credentialRejected ∧ repairCall.started < switchCall.started + 60 :=
  ⟨silentRun_calls, by decide +kernel, by decide, by decide +kernel⟩

end Molebridge.Applier
