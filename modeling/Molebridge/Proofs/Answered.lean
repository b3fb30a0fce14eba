import Mathlib.Tactic
import Molebridge.Lib.Interleaving
import Molebridge.Spec.Mutator

/-! Every operation that enters the owner's queue in time is answered. -/

namespace Molebridge.Mutator

variable {s s' : State} {queueLen : ℕ} {cancelable : ℕ → Bool}

variable {i : ℕ} {owner : Owner}

/-- A step that enters nothing into the queue of an owner that has exited. -/
def TimelyStep (queueLen : ℕ) (cancelable : ℕ → Bool) (s s' : State) : Prop :=
  Step queueLen cancelable s s' ∧ (s.owner = .exited → s'.queue = s.queue)

def Owner.Has (i : ℕ) (owner : Owner) : Prop :=
  owner = .received i ∨ owner = .starting (.op i) ∨ owner = .executing (.op i)

/-- What an answer says: the operation was executed, or closed, or its context was done. -/
def Answer.Fits (s : State) (i : ℕ) : Answer → Prop
  | .ended _ => .started (.op i) ∈ s.log
  | .closed => s.closing = true
  | .canceled => s.canceled i = true

structure Answering (s : State) : Prop where
  entered : ∀ i, .entered i ∈ s.log → i ∈ s.queue ∨ s.owner.Has i ∨ s.answer i ≠ none
  waits : ∀ i, s.doCall i = .answering → .entered i ∈ s.log
  fits : ∀ i a, s.answer i = some a → a.Fits s i
  executes : ∀ i, s.owner = .executing (.op i) → .started (.op i) ∈ s.log
  stops : s.stop = true → s.closing = true
  closes : s.closeCall = .closing → s.closing = true
  drains : s.owner = .draining ∨ s.owner = .exited → s.stop = true

namespace Answering

theorem init : Answering {} where
  entered _ h := nomatch h
  waits _ h := nomatch h
  fits _ _ h := nomatch h
  executes _ h := nomatch h
  stops h := nomatch h
  closes h := nomatch h
  drains h := by rcases h with h | h <;> cases h

theorem setDo (h : Answering s) {c : DoCall} (hc : c ≠ .answering) : Answering (s.setDo i c) := by
  refine ⟨h.entered, fun j hj => ?_, h.fits, h.executes, h.stops, h.closes, h.drains⟩
  by_cases hji : j = i
  · subst hji
    exact absurd (State.setDo_same.symm.trans hj) hc
  · exact h.waits j ((State.setDo_other hji).symm.trans hj)

theorem doing (h : Answering s) (hstep : DoStep queueLen cancelable s s') : Answering s' := by
  cases hstep with
  | call | refused | checked | stopped | given | gaveUp => exact h.setDo nofun
  | enter i entering room =>
    refine ⟨fun j hj => ?_, fun j hj => ?_, fun j a ha => ?_, fun j hj => .tail _ (h.executes j hj), h.stops,
      h.closes, h.drains⟩
    · rcases List.mem_cons.1 hj with heq | hj
      · obtain rfl : j = i := Event.entered.inj heq
        exact .inl (List.mem_append_right _ (.head _))
      · exact (h.entered j hj).imp_left (List.mem_append_left _)
    · by_cases hji : j = i
      · exact hji ▸ (.head _)
      · exact .tail _ (h.waits j ((State.setDo_other hji).symm.trans hj))
    · cases a with
      | ended error => exact .tail _ (h.fits j _ ha)
      | closed | canceled => exact h.fits j _ ha
  | cancel i can =>
    refine ⟨h.entered, h.waits, fun j a ha => ?_, h.executes, h.stops, h.closes, h.drains⟩
    cases a with
    | canceled => exact update_true (h.fits j _ ha)
    | ended error => exact h.fits j _ ha
    | closed => exact h.fits j _ ha

theorem reconciling (h : Answering s) (hstep : ReconcileStep s s') : Answering s' := by
  cases hstep with
  | swap i =>
    refine ⟨fun j hj => h.entered j (by simpa using hj), fun j hj => .tail _ (h.waits j hj), fun j a ha => ?_,
      fun j hj => .tail _ (h.executes j hj), h.stops, h.closes, h.drains⟩
    cases a with
    | ended error => exact .tail _ (h.fits j _ ha)
    | closed | canceled => exact h.fits j _ ha
  | call | refused | checked | store | send =>
    exact ⟨h.entered, h.waits, h.fits, h.executes, h.stops, h.closes, h.drains⟩

theorem closing (h : Answering s) (hstep : CloseStep s s') : Answering s' := by
  cases hstep with
  | call uncalled =>
    refine ⟨h.entered, h.waits, fun j a ha => ?_, h.executes, fun _ => rfl, fun _ => rfl, h.drains⟩
    cases a with
    | closed => rfl
    | ended error => exact h.fits j _ ha
    | canceled => exact h.fits j _ ha
  | close closing =>
    have hclosing : s.closing = true := h.closes closing
    exact ⟨h.entered, h.waits, h.fits, h.executes, fun _ => hclosing, nofun, fun _ => rfl⟩
  | join => exact ⟨h.entered, h.waits, h.fits, h.executes, h.stops, nofun, h.drains⟩

theorem send (h : Answering s) {a : Answer} {queue : List ℕ} (ha : a.Fits s i)
    (hentered : ∀ j, j ≠ i → (j ∈ s.queue → j ∈ queue) ∧ ¬ s.owner.Has j)
    (hexecutes : ∀ j, owner ≠ .executing (.op j)) (hdrains : owner = .draining ∨ owner = .exited → s.stop = true) :
    Answering { s.send i a with owner, queue } := by
  refine ⟨fun j hj => ?_, h.waits, fun j b hb => ?_, fun j hj => absurd hj (hexecutes j), h.stops, h.closes, hdrains⟩
  · by_cases hji : j = i
    · exact .inr (.inr (by rw [hji]; exact fun hnone => nomatch State.send_same.symm.trans hnone))
    · obtain ⟨hqueue, hhas⟩ := hentered j hji
      rcases h.entered j hj with hin | hin | hin
      · exact .inl (hqueue hin)
      · exact absurd hin hhas
      · exact .inr (.inr (by rwa [show _ = s.answer j from State.send_other hji]))
  · have hfits : b.Fits s j := by
      by_cases hji : j = i
      · subst hji
        obtain rfl : a = b := Option.some.inj (State.send_same.symm.trans hb)
        exact ha
      · exact h.fits j b ((State.send_other hji).symm.trans hb)
    cases b <;> exact hfits

theorem goes (h : Answering s) {wake pending : Bool} (hhas : ∀ i, s.owner.Has i → owner.Has i)
    (hexecutes : ∀ i, owner ≠ .executing (.op i)) (hdrains : owner = .draining ∨ owner = .exited → s.stop = true) :
    Answering { s with owner, wake, pending } := by
  refine ⟨fun i hi => ?_, h.waits, fun i a ha => ?_, fun i hi => absurd hi (hexecutes i), h.stops, h.closes, hdrains⟩
  · exact (h.entered i hi).imp_right fun h => h.imp_left (hhas i)
  · have hfits := h.fits i a ha
    cases a <;> exact hfits

theorem owning (h : Answering s) (hstep : OwnerStep s s') : Answering s' := by
  cases hstep with
  | stop waiting stop => exact h.goes (by simp [waiting, Owner.Has]) nofun (fun _ => stop)
  | wake waiting => exact h.goes (by simp [waiting, Owner.Has]) nofun (by simp)
  | receivedOpen i received => exact h.goes (by simp [received, Owner.Has]) nofun (by simp)
  | wokenClosing woken | wokenOpen woken => exact h.goes (by simp [woken, Owner.Has]) nofun (by simp)
  | exit draining => exact h.goes (by simp [draining, Owner.Has]) nofun (fun _ => h.drains (.inl draining))
  | swap swapping =>
    refine h.goes (by simp [swapping, Owner.Has]) (fun i => ?_) (fun howner => ?_)
    · split_ifs <;> nofun
    · split_ifs at howner <;> simp at howner
  | receivedClosing i received closing =>
    refine h.send closing (fun j hji => ⟨id, ?_⟩) nofun (by simp)
    simpa [received, Owner.Has] using hji.symm
  | skip i starting canceled =>
    refine h.send canceled (fun j hji => ⟨id, ?_⟩) nofun (by simp)
    simpa [starting, Owner.Has] using hji.symm
  | drain i rest draining queue =>
    have hclosing : s.closing = true := h.stops (h.drains (.inl draining))
    refine h.send hclosing (fun j hji => ⟨fun hj => ?_, by simp [draining, Owner.Has]⟩) ?_ ?_
    · exact (List.mem_cons.1 (queue ▸ hj)).resolve_left hji
    · exact fun _ => by simp [State.send, draining]
    · exact fun _ => h.drains (.inl draining)
  | receive i rest waiting queue =>
    refine ⟨fun j hj => ?_, h.waits, h.fits, nofun, h.stops, h.closes, by simp⟩
    rcases h.entered j hj with hin | hin | hin
    · rcases List.mem_cons.1 (queue ▸ hin) with rfl | hin
      · exact .inr (.inl (.inl rfl))
      · exact .inl hin
    · simp [waiting, Owner.Has] at hin
    · exact .inr (.inr hin)
  | start task starting live =>
    refine ⟨fun j hj => ?_, fun j hj => .tail _ (h.waits j hj), fun j a ha => ?_, fun j hj => ?_, h.stops,
      h.closes, by simp⟩
    · refine (h.entered j (by simpa using hj)).imp_right fun hin => hin.imp_left fun hhas => ?_
      simpa [starting, Owner.Has] using hhas
    · cases a with
      | ended error => exact .tail _ (h.fits j _ ha)
      | closed | canceled => exact h.fits j _ ha
    · obtain rfl : task = .op j := by simpa using hj
      exact .head _
  | finish task error running => exact ⟨h.entered, h.waits, h.fits, h.executes, h.stops, h.closes, h.drains⟩
  | result task error executing result =>
    cases task with
    | op i =>
      refine h.send (h.executes i executing) (fun j hji => ⟨id, ?_⟩) nofun (by simp)
      simpa [executing, Owner.Has] using hji.symm
    | pass reason => exact h.goes (by simp [executing, Owner.Has]) nofun (by simp)

theorem of_step (h : Answering s) (hstep : Step queueLen cancelable s s') : Answering s' := by
  cases hstep with
  | doing step => exact h.doing step
  | reconciling step => exact h.reconciling step
  | closing step => exact h.closing step
  | owning step => exact h.owning step

end Answering

theorem DoStep.owner_eq (h : DoStep queueLen cancelable s s') : s'.owner = s.owner := by
  cases h <;> rfl

theorem ReconcileStep.owner_eq (h : ReconcileStep s s') : s'.owner = s.owner ∧ s'.queue = s.queue := by
  cases h <;> exact ⟨rfl, rfl⟩

theorem CloseStep.owner_eq (h : CloseStep s s') : s'.owner = s.owner ∧ s'.queue = s.queue := by
  cases h <;> exact ⟨rfl, rfl⟩

theorem OwnerStep.queue_of_exited (h : OwnerStep s s') (hexited : s'.owner = .exited) :
    s'.queue = [] ∨ s.owner = .exited := by
  cases h with
  | exit draining queue => exact .inl queue
  | finish => exact .inr hexited
  | drain i rest draining => exact nomatch draining.symm.trans hexited
  | swap => split_ifs at hexited
  | _ => cases hexited

theorem TimelyStep.queue_of_exited (h : TimelyStep queueLen cancelable s s') (hs : s.owner = .exited → s.queue = [])
    (hexited : s'.owner = .exited) : s'.queue = [] := by
  obtain ⟨hstep, htimely⟩ := h
  by_cases hbefore : s.owner = .exited
  · rw [htimely hbefore, hs hbefore]
  · cases hstep with
    | doing step => exact absurd (step.owner_eq ▸ hexited) hbefore
    | reconciling step | closing step => exact absurd (step.owner_eq.1 ▸ hexited) hbefore
    | owning step => exact (step.queue_of_exited hexited).resolve_right hbefore

theorem Step.canceled (hstep : Step queueLen cancelable s s') (h : ∀ i, s.canceled i = true → cancelable i = true) :
    ∀ i, s'.canceled i = true → cancelable i = true := by
  cases hstep with
  | doing step =>
    cases step with
    | cancel i can =>
      intro j hj
      by_cases hji : j = i
      · exact hji ▸ can
      · exact h j ((Function.update_of_ne hji ..).symm.trans hj)
    | _ => exact h
  | reconciling step | closing step => cases step <;> exact h
  | owning step =>
    cases step with
    | result task => cases task <;> exact h
    | _ => exact h

/-- Whatever the interleaving of Do calls with Close and the owner, as long as nothing enters
the queue of an owner that has exited: an operation that entered is still queued or in the
owner's hand, or was executed and answered, or answered ErrClosed, or skipped for its own
context, which one without a deadline never is; once the owner has exited each was answered,
and no Do call waits for an answer that was not sent. -/
theorem operations_answered (queueLen : ℕ) (cancelable : ℕ → Bool) (s : State)
    (reached : Relation.ReflTransGen (TimelyStep queueLen cancelable) {} s) :
    (∀ i, .entered i ∈ s.log → i ∈ s.queue ∨ s.owner.Has i ∨ ∃ a, s.answer i = some a ∧ a.Fits s i) ∧
      (∀ i, cancelable i = false → s.answer i ≠ some .canceled) ∧
      (s.owner = .exited →
        (∀ i, .entered i ∈ s.log → ∃ a, s.answer i = some a ∧ a.Fits s i) ∧
          ∀ i, s.doCall i = .answering → s.answer i ≠ none) := by
  have h : Answering s := keeps_of_step (fun hstep h => h.of_step hstep.1) reached .init
  have hqueue : s.owner = .exited → s.queue = [] :=
    keeps_of_step (I := fun s => s.owner = .exited → s.queue = []) (fun hstep hs => hstep.queue_of_exited hs) reached nofun
  have hanswered : ∀ i, .entered i ∈ s.log → s.owner = .exited → s.answer i ≠ none := by
    intro i hi hexited
    rcases h.entered i hi with hin | hhas | hanswer
    · simp [hqueue hexited] at hin
    · simp [hexited, Owner.Has] at hhas
    · exact hanswer
  have hcanceled : ∀ i, s.canceled i = true → cancelable i = true :=
    keeps_of_step (I := fun s => ∀ i, s.canceled i = true → cancelable i = true) (fun hstep => hstep.1.canceled) reached nofun
  refine ⟨fun i hi => ?_, fun i hcan ha => ?_, fun hexited =>
    ⟨fun i hi => ?_, fun i hi => hanswered i (h.waits i hi) hexited⟩⟩
  · refine (h.entered i hi).imp_right fun hin => hin.imp_right fun hanswer => ?_
    obtain ⟨a, ha⟩ := Option.ne_none_iff_exists'.1 hanswer
    exact ⟨a, ha, h.fits i a ha⟩
  · exact nomatch hcan.symm.trans (hcanceled i (h.fits i _ ha))
  · obtain ⟨a, ha⟩ := Option.ne_none_iff_exists'.1 (hanswered i hi hexited)
    exact ⟨a, ha, h.fits i a ha⟩

/-- An operation in the queue when Close is called. -/
theorem operations_answered_closed : ∃ s, Relation.ReflTransGen (TimelyStep 64 fun _ => false) {} s ∧
    s.owner = .exited ∧ s.doCall 0 = .answering ∧ s.answer 0 = some .closed ∧ s.answer 0 ≠ none := by
  have h : Relation.ReflTransGen (TimelyStep 64 fun _ => false) {} _ := .single ⟨.doing (.call 0 rfl), nofun⟩
  have h := h.tail ⟨.doing (.checked 0 rfl rfl), nofun⟩
  have h := h.tail ⟨.doing (.enter 0 rfl (by decide)), nofun⟩
  have h := h.tail ⟨.closing (.call rfl), nofun⟩
  have h := h.tail ⟨.closing (.close rfl), nofun⟩
  have h := h.tail ⟨.owning (.stop rfl rfl), nofun⟩
  have h := h.tail ⟨.owning (.drain 0 [] rfl rfl), nofun⟩
  have h := h.tail ⟨.owning (.exit rfl rfl), nofun⟩
  exact ⟨_, h, rfl, rfl, rfl, ((operations_answered 64 (fun _ => false) _ h).2.2 rfl).2 0 rfl⟩

structure Abandoned (i : ℕ) (s : State) : Prop where
  exited : s.owner = .exited
  waits : s.doCall i = .answering
  unanswered : s.answer i = none
  live : s.canceled i = false

theorem Abandoned.setDo {j : ℕ} (h : Abandoned i s) {c : DoCall} (hij : i ≠ j) : Abandoned i (s.setDo j c) :=
  ⟨h.exited, (State.setDo_other hij).trans h.waits, h.unanswered, h.live⟩

theorem Abandoned.doing (h : Abandoned i s) (hcan : cancelable i = false)
    (hstep : DoStep queueLen cancelable s s') : Abandoned i s' := by
  -- The call itself has no step left: nothing was sent, and its context is not done.
  have hother {j : ℕ} {c : DoCall} (hj : s.doCall j = c) (hc : c ≠ .answering) : i ≠ j := by
    rintro rfl
    exact hc (hj.symm.trans h.waits)
  cases hstep with
  | call j hj | refused j hj | checked j hj | stopped j hj => exact h.setDo (hother hj nofun)
  | enter j hj =>
    have h' := h.setDo (c := .answering) (hother hj nofun)
    exact ⟨h'.exited, h'.waits, h'.unanswered, h'.live⟩
  | given j a _ sent =>
    refine h.setDo ?_
    rintro rfl
    exact nomatch sent.symm.trans h.unanswered
  | gaveUp j _ canceled =>
    refine h.setDo ?_
    rintro rfl
    exact nomatch canceled.symm.trans h.live
  | cancel j can =>
    refine ⟨h.exited, h.waits, h.unanswered, ?_⟩
    have hij : i ≠ j := by
      rintro rfl
      exact nomatch can.symm.trans hcan
    exact (Function.update_of_ne hij ..).trans h.live

theorem Abandoned.step (hcan : cancelable i = false) (hstep : Step queueLen cancelable s s')
    (h : Abandoned i s) : Abandoned i s' := by
  cases hstep with
  | doing step => exact h.doing hcan step
  | reconciling step | closing step => cases step <;> exact ⟨h.exited, h.waits, h.unanswered, h.live⟩
  | owning step =>
    cases step with
    | finish => exact ⟨h.exited, h.waits, h.unanswered, h.live⟩
    | stop hs | receive _ _ hs | wake hs | receivedClosing _ hs | receivedOpen _ hs | wokenClosing hs | wokenOpen hs
    | swap hs | skip _ hs | start _ hs | result _ _ hs | drain _ _ hs | exit hs => exact nomatch hs.symm.trans h.exited

/-- A Do call that saw no Close enters its operation after the owner has drained the queue
and exited, and waits for good. -/
theorem operation_abandoned : ∃ s, Relation.ReflTransGen (Step 64 fun _ => false) {} s ∧ s.owner = .exited ∧
    .entered 0 ∈ s.log ∧ ∀ s', Relation.ReflTransGen (Step 64 fun _ => false) s s' →
      s'.doCall 0 = .answering ∧ s'.answer 0 = none := by
  have h : Relation.ReflTransGen (Step 64 fun _ => false) {} _ := .single (.doing (.call 0 rfl))
  have h := h.tail (.doing (.checked 0 rfl rfl))
  have h := h.tail (.closing (.call rfl))
  have h := h.tail (.closing (.close rfl))
  have h := h.tail (.owning (.stop rfl rfl))
  have h := h.tail (.owning (.exit rfl rfl))
  have h := h.tail (.doing (.enter 0 rfl (by decide)))
  refine ⟨_, h, rfl, (.head _), fun s' hs' => ?_⟩
  have habandoned : Abandoned 0 s' := keeps_of_step (Abandoned.step rfl) hs' ⟨rfl, rfl, rfl, rfl⟩
  exact ⟨habandoned.waits, habandoned.unanswered⟩

end Molebridge.Mutator
