import Molebridge.Proofs.PassMoves

/-! The next action an attempt announces, at every save. -/

namespace Molebridge.Applier

variable {v v' : View}

/-- A failed attempt is applied again at a time, an unverified one is checked again, and
nothing else is to come. -/
structure Announces (a : Attempt) : Prop where
  reapply : (a.nextAction = some .reapply ∧ a.nextActionAt.isSome = true) ↔ a.state = .failed
  recheck : a.nextAction = some .recheck ↔ a.state = .unverified
  rest : a.state ∈ [.idle, .pending, .rejected, .attempting] → a.nextAction = none

variable {a b : Attempt}

theorem announces_of_none (hstate : a.state ≠ .failed ∧ a.state ≠ .unverified) (hnext : a.nextAction = none) :
    Announces a where
  reapply := by simp [hnext, hstate.1]
  recheck := by simp [hnext, hstate.2]
  rest _ := hnext

theorem announces_unverified (hstate : a.state = .unverified) (hnext : a.nextAction = some .recheck) : Announces a where
  reapply := by simp [hstate, hnext]
  recheck := by simp [hstate, hnext]
  rest h := by simp [hstate] at h

theorem announces_failed (hstate : a.state = .failed) (hnext : a.nextAction = some .reapply)
    (hdue : a.nextActionAt.isSome = true) : Announces a where
  reapply := by simp [hstate, hnext, hdue]
  recheck := by simp [hstate, hnext]
  rest h := by simp [hstate] at h

theorem Announces.same (h : Announces a) (hstate : b.state = a.state) (hnext : b.nextAction = a.nextAction)
    (hat : b.nextActionAt = a.nextActionAt) : Announces b := by
  obtain ⟨hreapply, hrecheck, hrest⟩ := h
  rw [← hstate, ← hnext, ← hat] at hreapply
  rw [← hstate, ← hnext] at hrecheck hrest
  exact ⟨hreapply, hrecheck, hrest⟩

theorem Announces.load {saved : Option Attempt} (h : ∀ a ∈ saved, Announces a) (bootId : String) (now : ℚ) :
    Announces (.load saved bootId now) := by
  rcases saved with - | a
  · exact announces_of_none ⟨nofun, nofun⟩ rfl
  have ha : Announces a := h a rfl
  by_cases hboot : a.bootId = bootId
  · rwa [show Attempt.load (some a) bootId now = a from if_pos hboot]
  rw [show Attempt.load (some a) bootId now = _ from if_neg hboot]
  by_cases hfailed : a.state = .failed
  · have hnext : a.nextAction = some .reapply := (ha.reapply.2 hfailed).1
    exact announces_failed hfailed hnext (by simp [hnext])
  by_cases hunverified : a.state = .unverified
  · exact announces_unverified hunverified (ha.recheck.2 hunverified)
  have hrest : a.state ∈ [.idle, .pending, .rejected, .attempting] := by
    cases hstate : a.state <;> simp_all
  exact announces_of_none ⟨hfailed, hunverified⟩ (ha.rest hrest)

/-- What is kept and saved is announced, as long as no look at the peers failed in the
middle of a mutation with an action still to come. -/
def Announcing (v : View) : Prop :=
  (∀ a, .stuck a ∈ v.trace → a.nextAction = none) →
    Announces v.attempt ∧ (∀ a ∈ v.file, Announces a) ∧ ∀ a, .saved a ∈ v.trace → Announces a

theorem Announcing.attempt (h : Announcing v) (ha : Announces v.attempt → Announces a) :
    Announcing { v with attempt := a } := fun hstuck => ⟨ha (h hstuck).1, (h hstuck).2⟩

theorem Announcing.event {e : Event} (h : Announcing v) (htrace : v'.trace = e :: v.trace)
    (hattempt : v'.attempt = v.attempt) (hfile : v'.file = v.file) (he : ∀ a, e ≠ .saved a) : Announcing v' := by
  unfold Announcing
  rw [htrace, hattempt, hfile]
  intro hstuck
  obtain ⟨hattempt, hfile, hsaved⟩ := h fun a ha => hstuck a (.tail _ ha)
  exact ⟨hattempt, hfile, fun a ha => hsaved a ((List.mem_cons.1 ha).resolve_left fun h => he a h.symm)⟩

theorem Announcing.move (hmove : Move v v') (h : Announcing v) : Announcing v' := by
  cases hmove with
  | wait => exact h
  | pass | inspect | publish | look | trigger | gate | reuse | apply => exact h.event rfl rfl rfl fun _ h => nomatch h
  | save =>
    intro hstuck
    obtain ⟨hattempt, hfile, hsaved⟩ := h fun a ha => hstuck a (.tail _ ha)
    refine ⟨hattempt, fun a ha => ?_, fun a ha => ?_⟩
    · obtain rfl : v.attempt = a := Option.some.inj ha
      exact hattempt
    · rcases List.mem_cons.1 ha with heq | ha
      · obtain rfl : a = v.attempt := Event.saved.inj heq
        exact hattempt
      · exact hsaved a ha
  | touch same => exact h.attempt fun ha => ha.same same.2.1 same.2.2.1 same.2.2.2
  | settle _ state next | renew _ _ _ state next | mutate _ _ _ state next =>
    exact h.attempt fun _ => announces_of_none (by simp [state]) next
  | unverify _ state next => exact h.attempt fun _ => announces_unverified state next
  | fail _ _ state next at_ => exact h.attempt fun _ => announces_failed state next (by rw [at_, Option.isSome_some])
  | hold _ _ state next =>
    refine h.attempt fun _ => announces_of_none ?_ next
    rcases state with state | state <;> simp [state]
  | reject _ _ _ attempting state next at_ =>
    exact h.attempt fun ha => announces_of_none (by simp [state]) (next.trans (ha.rest (by simp [attempting])))
  | stuck _ _ looked state next =>
    -- The failed look stands in the trace with the attempt as it was.
    intro hstuck
    have hnone : v.attempt.nextAction = none := hstuck v.attempt (List.mem_of_mem_head? looked)
    obtain ⟨-, hfile, hsaved⟩ := h hstuck
    exact ⟨announces_of_none (by simp [state]) (next.trans hnone), hfile, hsaved⟩

theorem Announcing.turn (hturn : Turn v v') (h : Announcing v) : Announcing v' := by
  cases hturn with
  | move moved => exact h.move moved
  | boot bootId t =>
    intro hstuck
    obtain ⟨-, hfile, hsaved⟩ := h fun a ha => hstuck a (.tail _ ha)
    exact ⟨Announces.load hfile bootId t, hfile, fun a ha => hsaved a ((List.mem_cons.1 ha).resolve_left fun h => nomatch h)⟩

/-- In a history where no mutation's own look at the peers failed while the attempt had an
action to come, every attempt that was saved announces the right one. -/
theorem saved_announces (env : Env) (boot : Boot) (steps : List Step)
    (unstuck : ∀ a, .stuck a ∈ (history env boot steps).trace → a.nextAction = none) (a : Attempt)
    (saved : .saved a ∈ (history env boot steps).trace) : Announces a := by
  have hstart : Announcing (history env boot []).view := by
    intro _
    refine ⟨@Announces.load none (fun _ h => nomatch h) boot.bootId boot.clock, (fun _ h => nomatch h), fun a ha => ?_⟩
    exact nomatch (List.mem_singleton.1 ha : Event.saved a = .booted)
  have hannouncing : Announcing (history env boot steps).view := history_keeps Announcing.turn hstart
  exact (hannouncing unstuck).2.2 a saved

/-! ### A mutation that cannot read the peers -/

def Event.savedAttempt : Event → Option Attempt
  | .saved a => some a
  | _ => none

theorem mem_of_savedAttempt {events : List Event} (h : a ∈ events.filterMap Event.savedAttempt) : .saved a ∈ events := by
  obtain ⟨e, he, hsaved⟩ := List.mem_filterMap.1 h
  cases e <;> simp only [Event.savedAttempt, Option.some.injEq, reduceCtorEq] at hsaved
  exact hsaved ▸ he

def Event.isStuck : Event → Bool
  | .stuck _ => true
  | _ => false

/-- ApplyRelay fails, and a minute later the peers can be read up to the gate, but not by
the mutation. -/
def unreadablePeers : Env :=
  { answering "se-sto-wg-001" with
    lag := fun n => if n = 20 then 60 else 0
    lag_nonneg := fun n => by split_ifs <;> norm_num
    peers := fun n => if 26 < n then none else some ["key"]
    reading := fun _ => confirmedReading ""
    apply := fun _ => .failed }

def unreadableHistory (steps : List Step) : World :=
  history unreadablePeers (configuredExit "mullvad" "se-sto-wg-001" mullvad_known) steps

/-- After the first pass the attempt is failed, to be applied again. -/
theorem saved_announces_failed :
    Announces (unreadableHistory [.tick]).m.attempt ∧ (unreadableHistory [.tick]).m.attempt.state = .failed := by
  refine ⟨saved_announces unreadablePeers (configuredExit "mullvad" "se-sto-wg-001" mullvad_known) [.tick]
    (fun a ha => ?_) _ (mem_of_savedAttempt (by decide +kernel)), by decide +kernel⟩
  have hnone : ((unreadableHistory [.tick]).trace.any Event.isStuck) = false := by decide +kernel
  exact absurd (List.any_eq_true.2 ⟨_, ha, rfl⟩) (ne_of_eq_of_ne hnone Bool.false_ne_true)

/-- After the second it is saved as pending, still to be applied again. -/
theorem saved_pending_reapply :
    let a := (unreadableHistory [.tick, .tick]).m.attempt
    .saved a ∈ (unreadableHistory [.tick, .tick]).trace ∧ a.state = .pending ∧ a.nextAction = some .reapply ∧
      ¬ Announces a :=
  ⟨mem_of_savedAttempt (by decide +kernel), by decide +kernel, by decide +kernel,
    fun h => absurd (h.rest (by decide +kernel)) (by decide +kernel)⟩

end Molebridge.Applier
