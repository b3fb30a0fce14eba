import Mathlib.Tactic
import Molebridge.Lib.Interleaving
import Molebridge.Spec.Mutator

/-! The owner executes one task at a time and serves every request for a pass. -/

namespace Molebridge.Mutator

variable {s s' : State} {queueLen : ℕ} {cancelable : ℕ → Bool}

def unserved : List Event → Bool
  | [] => false
  | .recorded _ :: _ => true
  | .started (.pass _) :: _ => false
  | _ :: rest => unserved rest

theorem started_of_served {later before : List Event} {i : ℕ} (h : unserved (later ++ .recorded i :: before) = false) :
    ∃ reason, .started (.pass reason) ∈ later := by
  induction later with
  | nil => cases h
  | cons e later ih =>
    rcases e with j | j | (j | reason)
    · obtain ⟨reason, hmem⟩ := ih h
      exact ⟨reason, .tail _ hmem⟩
    · cases h
    · obtain ⟨reason, hmem⟩ := ih h
      exact ⟨reason, .tail _ hmem⟩
    · exact ⟨reason, (.head _)⟩

structure Serving (s : State) : Prop where
  executing : ∀ task, s.owner = .executing task → s.running = [task] ∨ s.running = [] ∧ s.result ≠ none
  unheard : s.running ≠ [] → s.result = none
  resting : (∀ task, s.owner ≠ .executing task) → s.running = []
  /-- The wake of a request is in its channel or on its way there, or the owner has it. -/
  owed : s.closing = false → s.pending = true →
    s.wake = true ∨ s.owner = .woken ∨ s.owner = .swapping ∨ ∃ i, s.reconcileCall i = .sending
  served : unserved s.log = true → s.pending = true ∨ ∃ reason, s.owner = .starting (.pass reason)
  running : s.closeCall = .uncalled → s.closing = false

namespace Serving

theorem init : Serving {} where
  executing _ h := nomatch h
  unheard h := absurd rfl h
  resting _ := rfl
  owed _ h := nomatch h
  served h := nomatch h
  running _ := rfl

theorem doing (h : Serving s) (hstep : DoStep queueLen cancelable s s') : Serving s' := by
  cases hstep <;> exact ⟨h.executing, h.unheard, h.resting, h.owed, h.served, h.running⟩

theorem closing (h : Serving s) (hstep : CloseStep s s') : Serving s' := by
  cases hstep with
  | call => exact ⟨h.executing, h.unheard, h.resting, nofun, h.served, nofun⟩
  | close | join => exact ⟨h.executing, h.unheard, h.resting, h.owed, h.served, nofun⟩

theorem setReconcile (h : Serving s) {i : ℕ} {c : ReconcileCall} (hcall : s.reconcileCall i ≠ .sending) :
    Serving (s.setReconcile i c) := by
  refine ⟨h.executing, h.unheard, h.resting, fun hopen hpending => ?_, h.served, h.running⟩
  rcases h.owed hopen hpending with hwake | hwoken | hswapping | ⟨j, hj⟩
  · exact .inl hwake
  · exact .inr (.inl hwoken)
  · exact .inr (.inr (.inl hswapping))
  · have hne : j ≠ i := fun heq => hcall (heq ▸ hj)
    exact .inr (.inr (.inr ⟨j, (Function.update_of_ne hne _ _).trans hj⟩))

theorem reconciling (h : Serving s) (hstep : ReconcileStep s s') : Serving s' := by
  cases hstep with
  | call i reason uncalled => exact h.setReconcile (by simp [uncalled])
  | refused i reason checking | checked i reason checking => exact h.setReconcile (by simp [checking])
  | store i reason storing =>
    have h' : Serving (s.setReconcile i .swapping) := h.setReconcile (by simp [storing])
    exact ⟨h'.executing, h'.unheard, h'.resting, h'.owed, h'.served, h'.running⟩
  | swap i swapping =>
    have h' : Serving (s.setReconcile i (if s.pending then .returned else .sending)) :=
      h.setReconcile (by simp [swapping])
    refine ⟨h'.executing, h'.unheard, h'.resting, fun hopen _ => ?_, fun _ => .inl rfl, h'.running⟩
    -- Whoever set the flag owes the wake: this call, or the one it found pending.
    cases hpending : s.pending with
    | true =>
      have howed := h'.owed hopen hpending
      rwa [hpending] at howed
    | false => exact .inr (.inr (.inr ⟨i, Function.update_self i _ _⟩))
  | send i sending => exact ⟨h.executing, h.unheard, h.resting, fun _ _ => .inl rfl, h.served, h.running⟩

theorem goes (h : Serving s) {owner : Owner} {queue : List ℕ} {answer : ℕ → Option Answer} (hidle : s.running = [])
    (hnew : ∀ task, owner ≠ .executing task) (hstarting : ∀ reason, s.owner ≠ .starting (.pass reason))
    (howed : s.closing = false → owner = .woken ∨ owner = .swapping ∨ s.owner ≠ .woken ∧ s.owner ≠ .swapping) :
    Serving { s with owner, queue, answer } := by
  refine ⟨fun task htask => absurd htask (hnew task), fun hne => absurd hidle hne, fun _ => hidle, fun hopen hpending => ?_,
    fun hunserved => ?_, h.running⟩
  · rcases howed hopen with hwoken | hswapping | ⟨hwoken, hswapping⟩
    · exact .inr (.inl hwoken)
    · exact .inr (.inr (.inl hswapping))
    · rcases h.owed hopen hpending with hwake | hwoken' | hswapping' | hsending
      · exact .inl hwake
      · exact absurd hwoken' hwoken
      · exact absurd hswapping' hswapping
      · exact .inr (.inr (.inr hsending))
  · rcases h.served hunserved with hpending | ⟨reason, hreason⟩
    · exact .inl hpending
    · exact absurd hreason (hstarting reason)

theorem owning (h : Serving s) (hstep : OwnerStep s s') : Serving s' := by
  cases hstep with
  | stop waiting | receive i rest waiting =>
    exact h.goes (h.resting (by simp [waiting])) nofun (by simp [waiting]) (by simp [waiting])
  | receivedClosing i received | receivedOpen i received =>
    exact h.goes (h.resting (by simp [received])) nofun (by simp [received]) (by simp [received])
  | wokenClosing woken closing =>
    exact h.goes (h.resting (by simp [woken])) nofun (by simp [woken]) (by simp [closing])
  | wokenOpen woken => exact h.goes (h.resting (by simp [woken])) nofun (by simp [woken]) (by simp)
  | skip i starting => exact h.goes (h.resting (by simp [starting])) nofun (by simp [starting]) (by simp [starting])
  | drain i rest draining =>
    exact h.goes (h.resting (by simp [draining])) (fun _ => by simp [State.send, draining]) (by simp [draining])
      (by simp [draining])
  | exit draining => exact h.goes (h.resting (by simp [draining])) nofun (by simp [draining]) (by simp [draining])
  | wake waiting =>
    have hidle : s.running = [] := h.resting (by simp [waiting])
    exact ⟨nofun, fun hne => absurd hidle hne, fun _ => hidle, fun _ _ => .inr (.inl rfl),
      fun hunserved => (h.served hunserved).imp_right (by simp [waiting]), h.running⟩
  | swap swapping =>
    have hidle : s.running = [] := h.resting (by simp [swapping])
    refine ⟨fun task htask => ?_, fun hne => absurd hidle hne, fun _ => hidle, nofun, fun hunserved => .inr ?_, h.running⟩
    · split_ifs at htask
    · have hpending : s.pending = true := (h.served hunserved).resolve_right (by simp [swapping])
      exact ⟨s.reason.getD "event", by rw [hpending]; rfl⟩
  | start task starting =>
    have hidle : s.running = [] := h.resting (by simp [starting])
    refine ⟨fun task' htask => .inl ?_, fun _ => rfl, fun hne => absurd rfl (hne task), fun hopen hpending => ?_,
      fun hunserved => ?_, h.running⟩
    · obtain rfl : task = task' := Owner.executing.inj htask
      rw [hidle]
    · rcases h.owed hopen hpending with hwake | hwoken | hswapping | hsending
      · exact .inl hwake
      · exact nomatch starting.symm.trans hwoken
      · exact nomatch starting.symm.trans hswapping
      · exact .inr (.inr (.inr hsending))
    · cases task with
      | pass reason => cases hunserved
      | op i => exact (h.served hunserved).imp_right (by simp [starting])
  | finish task error running =>
    obtain ⟨task', htask⟩ : ∃ task', s.owner = .executing task' := by
      by_contra hne
      rw [h.resting fun task' htask => hne ⟨task', htask⟩] at running
      cases running
    have hone : s.running = [task'] := (h.executing task' htask).resolve_right fun hnone => by
      rw [hnone.1] at running
      cases running
    obtain rfl : task = task' := List.mem_singleton.1 (hone ▸ running)
    have hnone : s.running.erase task = [] := by rw [hone, List.erase_cons_head]
    exact ⟨fun _ _ => .inr ⟨hnone, nofun⟩, fun hne => absurd hnone hne, fun _ => hnone, h.owed, h.served, h.running⟩
  | result task error executing result =>
    have hidle : s.running = [] := by
      by_contra hne
      exact nomatch (h.unheard hne).symm.trans result
    cases task with
    | op | pass => exact h.goes hidle nofun (by simp [executing]) (by simp [executing])

theorem step (hstep : Step queueLen cancelable s s') (h : Serving s) : Serving s' := by
  cases hstep with
  | doing hstep => exact h.doing hstep
  | reconciling hstep => exact h.reconciling hstep
  | closing hstep => exact h.closing hstep
  | owning hstep => exact h.owning hstep

theorem running_le_one (h : Serving s) : s.running.length ≤ 1 := by
  by_cases hexecuting : ∃ task, s.owner = .executing task
  · obtain ⟨task, htask⟩ := hexecuting
    rcases h.executing task htask with hone | ⟨hnone, -⟩
    · rw [hone, List.length_singleton]
    · rw [hnone]
      exact Nat.zero_le _
  · rw [h.resting fun task htask => hexecuting ⟨task, htask⟩]
    exact Nat.zero_le _

end Serving

/-- Whatever the interleaving of Do, Reconcile and Close calls with the owner: one
operation or pass executes at a time, and where the owner waits with its wake channel
empty, every Reconcile call made has returned and Close has not been called, no request is
pending and a pass started after each request was recorded. -/
theorem requests_served (queueLen : ℕ) (cancelable : ℕ → Bool) (s : State)
    (reached : Relation.ReflTransGen (Step queueLen cancelable) {} s) :
    s.running.length ≤ 1 ∧
      (s.owner = .waiting → s.wake = false →
        (∀ i, s.reconcileCall i = .uncalled ∨ s.reconcileCall i = .returned) → s.closeCall = .uncalled →
          s.pending = false ∧ ∀ later i before, s.log = later ++ .recorded i :: before →
            ∃ reason, .started (.pass reason) ∈ later) := by
  have h : Serving s := keeps_of_step Serving.step reached .init
  refine ⟨h.running_le_one, fun hwaiting hwake hreturned huncalled => ?_⟩
  have hpending : s.pending = false := by
    by_contra hne
    rcases h.owed (h.running huncalled) (by simpa using hne) with hwake' | hwoken | hswapping | ⟨i, hsending⟩
    · exact nomatch hwake.symm.trans hwake'
    · exact nomatch hwaiting.symm.trans hwoken
    · exact nomatch hwaiting.symm.trans hswapping
    · rcases hreturned i with hcall | hcall <;> exact nomatch hcall.symm.trans hsending
  refine ⟨hpending, fun later i before hlog => @started_of_served later before i ?_⟩
  rw [← hlog]
  by_contra hne
  rcases h.served (by simpa using hne) with hpending' | ⟨reason, hstarting⟩
  · exact nomatch hpending.symm.trans hpending'
  · exact nomatch hwaiting.symm.trans hstarting

/-- A Reconcile call, from its request to the end of its pass. -/
theorem requests_served_once : ∃ s, Relation.ReflTransGen (Step 64 fun _ => false) {} s ∧
    s.log = [.started (.pass "up"), .recorded 0] ∧ s.running.length ≤ 1 ∧ s.pending = false := by
  have h : Relation.ReflTransGen (Step 64 fun _ => false) {} _ := .single (.reconciling (.call 0 "up" rfl))
  have h := h.tail (.reconciling (.checked 0 "up" rfl rfl))
  have h := h.tail (.reconciling (.store 0 "up" rfl))
  have h := h.tail (.reconciling (.swap 0 rfl))
  have h := h.tail (.reconciling (.send 0 rfl))
  have h := h.tail (.owning (.wake rfl rfl))
  have h := h.tail (.owning (.wokenOpen rfl rfl))
  have h := h.tail (.owning (.swap rfl))
  have h := h.tail (.owning (.start (.pass "up") rfl nofun))
  have h := h.tail (.owning (.finish (.pass "up") "" (.head _)))
  have h := h.tail (.owning (.result (.pass "up") "" rfl rfl))
  obtain ⟨hone, hserved⟩ := requests_served 64 (fun _ => false) _ h
  refine ⟨_, h, rfl, hone, (hserved rfl rfl (fun i => ?_) rfl).1⟩
  by_cases hi : i = 0
  · subst hi
    exact .inr rfl
  · simp [State.setReconcile, State.deliver, hi]

end Molebridge.Mutator
