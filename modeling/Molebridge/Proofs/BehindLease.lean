import Mathlib.Tactic
import Molebridge.Lib.Interleaving
import Molebridge.Spec.Supervisor
import Molebridge.Proofs.LeaseRuns

/-! NetBird starts only behind a held lease: what one event can do, and what every run of
the supervisor's loop keeps of it. -/

namespace Molebridge.Exit

variable {s s' : Supervisor} {gen : String} {r : Reads} {e : SupEvent}

variable {t : Turn} {earlier later : List Turn}

/-- What a message of this generation says about readiness. -/
def SupEvent.readiness (gen : String) : SupEvent → Option Bool
  | .worker (.ready g) => if g = gen then some true else none
  | .worker (.unready g _) => if g = gen then some false else none
  | _ => none

def Turn.readiness (gen : String) : Turn → Option Bool
  | .handled e _ _ _ _ => e.readiness gen
  | .stopping => none

/-- What the last ready or unready message said; none if there was none. -/
def lastReadiness (gen : String) (log : List Turn) : Option Bool := log.findSome? (Turn.readiness gen)

/-- The reading of the clock that decides what a message does. -/
def WorkerMsg.decided (r : Reads) : WorkerMsg → ℤ
  | .renew _ => r.judged
  | .status _ _ _ => r.judged
  | _ => r.held

def Output.Acts : Output → Prop
  | .started _ => True
  | .full _ => True
  | _ => False

def Stopped (nb : Option NbManager) : Prop := ∀ m, nb = some m → m.active = true → m.stopping = true ∨ m.closed = true

structure Handles (s : Supervisor) (r : Reads) (e : SupEvent) (v : Handled) : Prop where
  gen : v.1.gen = s.gen
  stopping : v.1.stopping = s.stopping
  revoked : v.1.lease.revoked = s.lease.revoked
  wants : v.2.2.1 = "" → v.1.wantNB = true → (e.readiness s.gen).getD s.wantNB = true
  starts : ∀ n, .started n ∈ v.2.1 → s.stopping = false ∧ v.2.2.1 = "" ∧ v.1.wantNB = true ∧ v.1.lease.held r.held = true
  due : ∀ m, e = .worker m → s.lease.revoked = false → ∀ o ∈ v.2.1, o.Acts →
    r.lapsed < s.lease.deadline ∧ m.decided r < s.lease.deadline
  stopped : v.2.2.1 = "" → (∀ n, .started n ∉ v.2.1) → e.readiness s.gen = some false ∨ Stopped s.nb → Stopped v.1.nb

theorem Handles.idle {out : List Output} {reason detail : String} {lease : Lease} (hlease : lease.revoked = s.lease.revoked)
    (hout : ∀ o ∈ out, ¬ o.Acts) (he : reason = "" → e.readiness s.gen = none) :
    Handles s r e ({ s with lease }, out, reason, detail) where
  gen := rfl
  stopping := rfl
  revoked := hlease
  wants hreason hwants := by rwa [he hreason]
  starts n hn := absurd trivial (hout _ hn)
  due _ _ _ o ho hacts := absurd hacts (hout o ho)
  stopped hreason _ hor := hor.resolve_left (by simp [he hreason])

theorem maybeStartNetBird_cases (s : Supervisor) (r : Reads) :
    s.maybeStartNetBird r = (s, []) ∨ ∃ nb out, s.nb = some nb ∧ s.stopping = false ∧ s.wantNB = true ∧
      s.lease.held r.held = true ∧ nb.isActive = false ∧
      s.maybeStartNetBird r = ({ s with nb := some nb.start }, .started (nb.launch + 1) :: out) ∧ ∀ o ∈ out, ¬ o.Acts := by
  unfold Supervisor.maybeStartNetBird
  split
  · exact .inl rfl
  · rename_i nb hnb
    split_ifs with hguard hrefuses
    · exact .inl rfl
    · exact .inl rfl
    · simp only [Bool.or_eq_true, Bool.not_eq_true', not_or, Bool.not_eq_true, Bool.not_eq_false] at hguard
      obtain ⟨⟨⟨hstopping, hwants⟩, hheld⟩, hactive⟩ := hguard
      exact .inr ⟨nb, _, hnb, hstopping, hwants, hheld, hactive, rfl, by simp [Output.Acts]⟩

theorem Handles.tries {s₁ : Supervisor} (before : List Output) (hgen : s₁.gen = s.gen) (hstopping : s₁.stopping = s.stopping)
    (hnb : s₁.nb = s.nb) (hrevoked : s₁.lease.revoked = s.lease.revoked) (hbefore : ∀ o ∈ before, ¬ o.Acts)
    (hwants : s₁.wantNB = true → (e.readiness s.gen).getD s.wantNB = true) (he : e.readiness s.gen ≠ some false)
    (hdue : ∀ m, e = .worker m → s.lease.revoked = false → s₁.lease.held r.held = true →
      r.lapsed < s.lease.deadline ∧ m.decided r < s.lease.deadline) :
    Handles s r e ((s₁.maybeStartNetBird r).1, before ++ (s₁.maybeStartNetBird r).2, "", "") := by
  rcases maybeStartNetBird_cases s₁ r with heq | ⟨nb, _, -, hrunning, hwant, hheld, -, heq, -⟩
  · rw [heq]
    refine ⟨hgen, hstopping, hrevoked, fun _ => hwants, fun n hn => ?_, fun _ _ _ o ho hacts => ?_, fun _ _ hor => ?_⟩
    · simp only [List.append_nil] at hn
      exact absurd trivial (hbefore _ hn)
    · simp only [List.append_nil] at ho
      exact absurd hacts (hbefore o ho)
    · rw [hnb]
      exact hor.resolve_left he
  · rw [heq]
    refine ⟨hgen, hstopping, hrevoked, fun _ => hwants, fun n _ => ⟨hstopping ▸ hrunning, rfl, hwant, hheld⟩, ?_, ?_⟩
    · exact fun m hm hlive _ _ _ => hdue m hm hlive hheld
    · exact fun _ hnone _ => absurd (by simp) (hnone (nb.launch + 1))

theorem stop_stopping (m : NbManager) (hactive : m.stop.active = true) : m.stop.stopping = true := by
  unfold NbManager.stop at hactive ⊢
  split_ifs at hactive ⊢ with hidle
  · simpa [hactive] using hidle
  · rfl

theorem handleNB_handles (s : Supervisor) (ev : NbEvent) (r : Reads) : Handles s r (.nb ev) (s.handleNB ev r) := by
  have hidle {out : List Output} {reason detail : String} (hout : ∀ o ∈ out, ¬ o.Acts) :
      Handles s r (.nb ev) (s, out, reason, detail) := .idle rfl hout fun _ => rfl
  unfold Supervisor.handleNB
  split
  · exact hidle (by simp)
  · split_ifs
    · exact hidle (by simp)
    · cases ev.kind with
      | started | failed => exact hidle (by simp [Output.Acts])
      | exited => exact hidle (by simp)
      | stopped =>
        exact Handles.tries [_] rfl rfl rfl rfl (by simp [Output.Acts]) id nofun nofun

theorem handleMsg_handles (s : Supervisor) (r : Reads) (m : WorkerMsg) (hlapsed : s.lease.hasLapsed r.lapsed = false) :
    Handles s r (.worker m) (s.handleMsg r m) := by
  have hlive (hrevoked : s.lease.revoked = false) : r.lapsed < s.lease.deadline := by
    simp only [Lease.hasLapsed, hrevoked, Bool.not_false, Bool.true_and, Bool.or_eq_false_iff, decide_eq_false_iff_not,
      not_le] at hlapsed
    exact hlapsed.2
  cases m with
  | renew m =>
    simp only [Supervisor.handleMsg]
    split
    · rename_i reason lease haccept
      rw [Lease.accept_error haccept]
      exact .idle (by simp) (by simp) fun _ => rfl
    · rename_i expiry lease haccept
      obtain ⟨-, -, hjudged, -, -, -, -, rfl⟩ := Lease.accept_ok haccept
      refine Handles.tries [_] rfl rfl rfl rfl (by simp [Output.Acts]) id (by simp [SupEvent.readiness]) ?_
      rintro _ ⟨rfl⟩ hrevoked -
      exact ⟨hlive hrevoked, hjudged⟩
  | ready g =>
    simp only [Supervisor.handleMsg]
    split_ifs with hgen
    · exact .idle rfl (by simp) fun _ => by simp [SupEvent.readiness, hgen]
    · have hready : SupEvent.readiness s.gen (.worker (.ready g)) = some true := by
        simp [SupEvent.readiness, not_not.1 hgen]
      refine Handles.tries [] rfl rfl rfl rfl (by simp) (fun _ => by simp [hready]) (by simp [hready]) ?_
      rintro _ ⟨rfl⟩ hrevoked hheld
      simp only [Lease.held, Bool.and_eq_true, decide_eq_true_eq] at hheld
      exact ⟨hlive hrevoked, hheld.2⟩
  | unready g reason =>
    simp only [Supervisor.handleMsg]
    split_ifs with hgen
    · exact .idle rfl (by simp) fun _ => by simp [SupEvent.readiness, hgen]
    · refine ⟨rfl, rfl, rfl, by simp [Supervisor.stopNetBird], by simp, by simp, fun _ _ _ => ?_⟩
      intro m hm hactive
      obtain ⟨nb, -, rfl⟩ := Option.map_eq_some_iff.1 hm
      exact .inl (stop_stopping nb hactive)
  | status g seq record =>
    simp only [Supervisor.handleMsg]
    split
    · rename_i lease haccept
      rw [Lease.acceptStatus_false haccept]
      exact .idle (by simp) (by simp) fun _ => rfl
    · rename_i lease haccept
      obtain ⟨-, -, hjudged, -, -, rfl⟩ := Lease.acceptStatus_true haccept
      split
      · exact .idle rfl (by simp) (by simp)
      · refine ⟨rfl, rfl, rfl, fun _ => id, fun n hn => ?_, ?_, fun _ _ hor => hor.resolve_left (by simp [SupEvent.readiness])⟩
        · simp at hn
        · rintro _ ⟨rfl⟩ hrevoked - - -
          exact ⟨hlive hrevoked, hjudged⟩
  | log g level text => exact .idle rfl (by simp) fun _ => rfl

theorem NbStep.stopped {m m' : NbManager} (h : NbStep m m') (hm : m.active = true → m.stopping = true ∨ m.closed = true) :
    m'.active = true → m'.stopping = true ∨ m'.closed = true := by
  cases h with
  | launch step => cases step <;> exact hm
  | stop step =>
    cases step with
    | finish => exact nofun
    | _ => exact hm
  | proc step => cases step <;> exact hm
  | alive => exact hm

theorem handle_handles (s : Supervisor) (r : Reads) (e : SupEvent) : Handles s r e (s.handle r e) := by
  cases e with
  | violation | workerGone => exact .idle rfl (by simp) fun _ => rfl
  | nb ev => exact handleNB_handles s ev r
  | worker m =>
    simp only [Supervisor.handle]
    split_ifs with hlapsed
    · exact .idle rfl (by simp) (by simp)
    · exact handleMsg_handles s r m (by simpa using hlapsed)

theorem lastReadiness_cons (gen : String) (t : Turn) (log : List Turn) :
    lastReadiness gen (t :: log) = (t.readiness gen <|> lastReadiness gen log) := by
  unfold lastReadiness
  rw [List.findSome?_cons]
  cases t.readiness gen <;> rfl

/-- What a turn of the loop did, with the turns before it. -/
def Turn.Sound (gen : String) (earlier : List Turn) : Turn → Prop
  | .stopping => True
  | .handled e r before after out =>
    (∀ n, .started n ∈ out → .stopping ∉ earlier ∧ after.held r.held = true ∧
      (e.readiness gen <|> lastReadiness gen earlier) = some true) ∧
    ∀ m, e = .worker m → before.deadline ≤ r.lapsed ∨ before.deadline ≤ m.decided r → ∀ o ∈ out, ¬ o.Acts

def AllSound (gen : String) : List Turn → Prop
  | [] => True
  | t :: earlier => t.Sound gen earlier ∧ AllSound gen earlier

structure Guarded (gen : String) (s : Supervisor) : Prop where
  current : s.gen = gen
  began : .stopping ∈ s.log → s.stopping = true
  live : s.stopping = false → s.lease.revoked = false
  wants : s.wantNB = true → lastReadiness gen s.log = some true
  stopped : lastReadiness gen s.log = some false ∨ s.stopping = true → Stopped s.nb
  sound : AllSound gen s.log

namespace Guarded

theorem init (settings : ExitSettings) (lease : Lease) (gen : String) (now : ℤ) (starting : Members) :
    Guarded gen (.init settings lease gen now starting) where
  current := rfl
  began h := nomatch h
  live _ := rfl
  wants h := nomatch h
  stopped h := by rcases h with h | h <;> cases h
  sound := trivial

theorem stopped_close (nb : Option NbManager) : Stopped (nb.map NbManager.close) := by
  intro m hm _
  obtain ⟨-, -, rfl⟩ := Option.map_eq_some_iff.1 hm
  exact .inr rfl

theorem stopSequence (hgen : s.gen = gen) (hsound : AllSound gen s.log) (requested : Bool) (wall : ℤ) :
    Guarded gen (s.stopSequence requested wall) where
  current := hgen
  began _ := rfl
  live h := nomatch h
  wants h := nomatch h
  stopped _ := stopped_close s.nb
  sound := ⟨trivial, hsound⟩

theorem readiness_of_wants (h : Guarded gen s) (hwants : (e.readiness s.gen).getD s.wantNB = true) :
    (e.readiness gen <|> lastReadiness gen s.log) = some true := by
  rw [h.current] at hwants
  cases he : e.readiness gen with
  | none =>
    rw [he] at hwants
    exact h.wants hwants
  | some b =>
    rw [he] at hwants
    exact congrArg some hwants

theorem turn_sound (h : Guarded gen s) (hrunning : s.stopping = false) (e : SupEvent) (r : Reads) :
    Turn.Sound gen s.log (.handled e r s.lease (s.handle r e).1.lease (s.handle r e).2.1) := by
  have hhandles := handle_handles s r e
  refine ⟨fun n hn => ?_, fun m hm hlate o ho hacts => ?_⟩
  · obtain ⟨-, hreason, hwants, hheld⟩ := hhandles.starts n hn
    refine ⟨fun hbegan => ?_, hheld, h.readiness_of_wants (hhandles.wants hreason hwants)⟩
    exact nomatch hrunning.symm.trans (h.began hbegan)
  · obtain ⟨_, _⟩ := hhandles.due m hm (h.live hrunning) o ho hacts
    rcases hlate with hlate | hlate <;> omega

theorem turn (h : Guarded gen s) (hrunning : s.stopping = false) (e : SupEvent) (r : Reads) (wall : ℤ) :
    Guarded gen (s.turn e r wall) := by
  have hhandles := handle_handles s r e
  have hsound := h.turn_sound hrunning e r
  have hgen : (s.handle r e).1.gen = gen := hhandles.gen.trans h.current
  unfold Supervisor.turn
  dsimp only
  split_ifs with hreason
  · refine stopSequence ?_ ?_ false wall
    · exact hgen
    · exact ⟨hsound, h.sound⟩
  · replace hreason := not_not.1 hreason
    have hstopping : (s.handle r e).1.stopping = false := hhandles.stopping.trans hrunning
    refine ⟨hgen, fun hbegan => ?_, fun _ => hhandles.revoked.trans (h.live hrunning), fun hwants => ?_, fun hor => ?_,
      ⟨hsound, h.sound⟩⟩
    · exact nomatch hrunning.symm.trans (h.began (by simpa using hbegan))
    · rw [lastReadiness_cons]
      exact h.readiness_of_wants (hhandles.wants hreason hwants)
    · have hlast := hor.resolve_right (by simp [hstopping])
      rw [lastReadiness_cons] at hlast
      change (e.readiness gen <|> lastReadiness gen s.log) = some false at hlast
      refine hhandles.stopped hreason (fun n hn => ?_) ?_
      · exact nomatch hlast.symm.trans (hsound.1 n hn).2.2
      · rw [h.current]
        cases he : e.readiness gen with
        | none =>
          rw [he] at hlast
          exact .inr (h.stopped (.inl hlast))
        | some b =>
          rw [he] at hlast
          exact .inl hlast

theorem step (hstep : SupStep s s') (h : Guarded gen s) : Guarded gen s' := by
  cases hstep with
  | event e r wall running => exact h.turn running e r wall
  | requested wall => exact stopSequence h.current h.sound true wall
  | lapsed now wall => exact stopSequence h.current h.sound false wall
  | tick => exact ⟨h.current, h.began, h.live, h.wants, h.stopped, h.sound⟩
  | manager nb step =>
    refine ⟨h.current, h.began, h.live, h.wants, fun hor m hm => ?_, h.sound⟩
    cases hm
    exact step.stopped (h.stopped hor _ nb)
  | writer => exact ⟨h.current, h.began, h.live, h.wants, h.stopped, h.sound⟩

end Guarded

def Turn.Starts : Turn → Prop
  | .handled _ _ _ _ out => ∃ n, .started n ∈ out
  | .stopping => False

theorem AllSound.at_turn (h : AllSound gen (later ++ t :: earlier)) :
    t.Sound gen earlier := by
  induction later with
  | nil => exact h.1
  | cons _ _ ih => exact ih h.2

theorem Turn.Sound.started (h : t.Sound gen earlier) (ht : t.Starts) :
    lastReadiness gen (t :: earlier) = some true := by
  cases t with
  | stopping => exact ht.elim
  | handled e r before after out =>
    obtain ⟨n, hn⟩ := ht
    rw [lastReadiness_cons]
    exact (h.1 n hn).2.2

theorem lastReadiness_unready (ht : t.readiness gen = some false)
    (hlater : ∀ t ∈ later, t.readiness gen ≠ some true) : lastReadiness gen (later ++ t :: earlier) = some false := by
  induction later with
  | nil => rw [List.nil_append, lastReadiness_cons, ht]; rfl
  | cons x later ih =>
    rw [List.cons_append, lastReadiness_cons, ih fun t ht => hlater t (.tail _ ht)]
    have hx := hlater x (.head _)
    rcases hread : x.readiness gen with _ | _ | _
    · rfl
    · rfl
    · exact absurd hread hx

/-- In every run of the supervisor's loop, with the manager's goroutines beside it: a launch
starts at a turn before the stop sequence, at which the lease has just answered that it is
held and the last ready or unready message of the generation is a ready; from an unready
message to the next ready no launch starts and the one that is active is being stopped; and
a message of the worker that is handled at or after the lease's deadline starts nothing and
hands nothing to the publisher. -/
theorem netbird_behind_lease (settings : ExitSettings) (lease : Lease) (gen : String) (now : ℤ) (starting : Members)
    (s : Supervisor) (reached : Relation.ReflTransGen SupStep (.init settings lease gen now starting) s)
    (later earlier : List Turn) (e : SupEvent) (r : Reads) (before after : Lease) (out : List Output)
    (hlog : s.log = later ++ .handled e r before after out :: earlier) :
    (∀ n, .started n ∈ out → .stopping ∉ earlier ∧ after.held r.held = true ∧
      lastReadiness gen (.handled e r before after out :: earlier) = some true) ∧
    (e.readiness gen = some false → (∀ t ∈ later, t.readiness gen ≠ some true) →
      (∀ t ∈ later, ¬ t.Starts) ∧ Stopped s.nb) ∧
    (∀ m, e = .worker m → before.deadline ≤ r.lapsed ∨ before.deadline ≤ m.decided r → ∀ o ∈ out, ¬ o.Acts) := by
  have h : Guarded gen s := keeps_of_step Guarded.step reached (.init settings lease gen now starting)
  have hsound := h.sound
  rw [hlog] at hsound
  have hturn := hsound.at_turn
  refine ⟨fun n hn => ?_, fun hunready hlater => ⟨fun t ht hstarts => ?_, ?_⟩, hturn.2⟩
  · obtain ⟨hbefore, hheld, -⟩ := hturn.1 n hn
    exact ⟨hbefore, hheld, hturn.started ⟨n, hn⟩⟩
  · have hfalse : Turn.readiness gen (.handled e r before after out) = some false := hunready
    obtain ⟨newer, older, rfl⟩ := List.append_of_mem ht
    rw [List.append_assoc, List.cons_append] at hsound
    have hready := hsound.at_turn.started hstarts
    rw [← List.cons_append, lastReadiness_unready hfalse] at hready
    · cases hready
    · exact fun x hx => hlater x (List.mem_append_right _ hx)
  · exact h.stopped (.inl (hlog ▸ lastReadiness_unready hunready hlater))

/-- A native overlay exit whose worker has two seconds on the clock. -/
def watchedSupervisor : Supervisor :=
  .init { kind := .overlay, provider := "mullvad", server := "se-sto-wg-001", portForward := false, known := mullvad_known }
    watcherLease "g" second []

def atTwoSeconds : Reads := ⟨2 * second, 2 * second, 2 * second, 0, 2 * second⟩

/-- A renewal, a ready message that starts a launch and an unready one that stops it. -/
theorem netbird_behind_lease_flip : ∃ s, Relation.ReflTransGen SupStep watchedSupervisor s ∧
    (∃ unready before after out earlier, s.log = unready :: .handled (.worker (.ready "g")) atTwoSeconds before after out :: earlier ∧
      .started 1 ∈ out ∧ after.held (2 * second) = true) ∧ (∃ m, s.nb = some m ∧ m.active = true) ∧ Stopped s.nb := by
  have h : Relation.ReflTransGen SupStep watchedSupervisor _ := .single (.event (.worker (.renew (watcherMsg 1))) atTwoSeconds 0 rfl)
  have h := h.tail (.event (.worker (.ready "g")) atTwoSeconds 0 rfl)
  have h := h.tail (.event (.worker (.unready "g" "")) atTwoSeconds 0 rfl)
  refine ⟨_, h, ⟨_, _, _, _, _, rfl, (.head _), ?_⟩, ⟨_, rfl, rfl⟩, ?_⟩
  · exact ((netbird_behind_lease _ _ "g" _ _ _ h [_] _ _ _ _ _ _ rfl).1 1 (.head _)).2.1
  · exact ((netbird_behind_lease _ _ "g" _ _ _ h [] _ _ _ _ _ _ rfl).2.1 rfl (by simp)).2

end Molebridge.Exit
