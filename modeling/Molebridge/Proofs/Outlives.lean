import Mathlib.Tactic
import Molebridge.Lib.Interleaving
import Molebridge.Spec.NbManager

/-! No NetBird process outlives a stop: what Alive has not seen was admitted after it looked,
and after Close, or for a cancelled launch, nothing is admitted. -/

namespace Molebridge.Exit

open NbManager

variable {m m' : NbManager}

variable {n : ℕ} {l : Launch}

namespace NbManager

theorem setRun_same : (m.setRun n l).run n = l := Function.update_self ..

theorem setRun_other {k : ℕ} (h : k ≠ n) : (m.setRun n l).run k = m.run k := Function.update_of_ne h ..

end NbManager

@[simp] theorem Stage.failed_inFlight (stage : Stage) : ¬ stage.failed.InFlight := by
  cases stage <;> simp [Stage.failed, Launch.InFlight]

@[simp] theorem Stage.left_inFlight (stage : Stage) (p : Option ℕ) : ¬ (stage.left p).InFlight := by
  cases p <;> cases stage <;> simp [Stage.left, Stage.failed, Stage.spawned, Launch.InFlight]

/-- What a step keeps of the contexts, the processes and the creations in flight. -/
structure Later (m m' : NbManager) : Prop where
  closed : m.closed = true → m'.closed = true
  cancelled : ∀ n, m.cancelled n = true → m'.cancelled n = true
  reaped : ∀ p < m.created, m.reaped p = true → m'.reaped p = true
  emptied : ∀ p < m.created, m.emptied p = true → m'.emptied p = true
  launchOf : ∀ p < m.created, m'.launchOf p = m.launchOf p
  /-- Only what may still start a process gets into flight. -/
  admitted : ∀ n, (m'.run n).InFlight → (m.run n).InFlight ∨ m.closed = false ∧ m.cancelled n = false
  created : ∀ p < m'.created, p < m.created ∨ (m.run (m'.launchOf p)).InFlight
  created_le : m.created ≤ m'.created

namespace Later

theorem rfl (m : NbManager) : Later m m where
  closed := id
  cancelled _ := id
  reaped _ _ := id
  emptied _ _ := id
  launchOf _ _ := .refl _
  admitted _ := .inl
  created _ := .inl
  created_le := le_refl _

theorem setRun {n : ℕ} {l : Launch} (hl : l.InFlight → (m.run n).InFlight) (pending : ℕ) (procs : List ℕ) :
    Later m { m.setRun n l with pending, procs } where
  closed := id
  cancelled _ := id
  reaped _ _ := id
  emptied _ _ := id
  launchOf _ _ := .refl _
  admitted k hk := by
    by_cases hkn : k = n
    · subst hkn
      rw [show _ = l from setRun_same] at hk
      exact .inl (hl hk)
    · exact .inl (setRun_other hkn ▸ hk)
  created _ := .inl
  created_le := le_refl _

theorem cancel : Later m m.cancel := by
  unfold NbManager.cancel
  split_ifs
  · exact .rfl m
  · exact { Later.rfl m with cancelled := fun n hn => update_true hn }

theorem of_launch (h : LaunchStep m m') : Later m m' := by
  cases h with
  | missing | refused => exact setRun (by simp) m.pending m.procs
  | uncreated n stage creating => exact setRun (by simp [creating, Launch.InFlight]) m.pending m.procs
  | attach n stage p attaching => exact setRun (by simp [attaching, Launch.InFlight]) m.pending _
  | leave n stage p leaving => exact setRun (by simp) _ m.procs
  | poll n | polled n | answered n | unanswered n | slept n | gaveUp n | up n | notUp n | watched n =>
    exact setRun (by simp [Launch.InFlight]) m.pending m.procs
  | admitted n stage spawning live =>
    refine { Later.rfl m with admitted := fun k hk => ?_ }
    by_cases hkn : k = n
    · subst hkn
      simp only [isCancelled, Bool.or_eq_false_iff] at live
      exact .inr ⟨live.1.1, live.2⟩
    · exact .inl (setRun_other hkn ▸ hk)
  | create n stage creating =>
    have hin : (m.run n).InFlight := by simp [creating, Launch.InFlight]
    have hother {α : Type} (f : ℕ → α) (a : α) : ∀ p < m.created, Function.update f m.created a p = f p :=
      fun p hp => Function.update_of_ne (ne_of_lt hp) ..
    refine ⟨id, fun _ => id, fun p hp h => ?_, fun p hp h => ?_, fun p hp => hother _ _ p hp, fun k hk => ?_, fun p hp => ?_,
      Nat.le_succ _⟩
    · exact (hother _ _ p hp).trans h
    · exact (hother _ _ p hp).trans h
    · by_cases hkn : k = n
      · exact .inl (hkn ▸ hin)
      · exact .inl (setRun_other hkn ▸ hk)
    · rcases Nat.lt_succ_iff_lt_or_eq.1 hp with hlt | rfl
      · exact .inl hlt
      · right
        show (m.run (Function.update m.launchOf m.created n m.created)).InFlight
        rwa [Function.update_self]

theorem of_step (h : ManagerStep m m') : Later m m' := by
  cases h with
  | start =>
    unfold NbManager.start
    split_ifs
    · exact .rfl m
    · have h := @setRun m.pruneLocked (m.launch + 1) (.spawning .service) (by simp [Launch.InFlight]) m.pending m.pruneLocked.procs
      exact ⟨h.closed, h.cancelled, h.reaped, h.emptied, h.launchOf, h.admitted, h.created, h.created_le⟩
  | stop =>
    unfold NbManager.stop
    split_ifs
    · exact .rfl m
    · have h : Later m m.cancel := cancel
      exact ⟨h.closed, h.cancelled, h.reaped, h.emptied, h.launchOf, h.admitted, h.created, h.created_le⟩
  | close =>
    have h : Later m m.cancel := cancel
    exact ⟨fun _ => .refl _, h.cancelled, h.reaped, h.emptied, h.launchOf, h.admitted, h.created, h.created_le⟩
  | alive => exact { Later.rfl m with }
  | goes step =>
    cases step with
    | launch step => exact of_launch step
    | stop step => cases step <;> exact { Later.rfl m with }
    | alive => exact { Later.rfl m with }
    | proc step =>
      cases step with
      | reap p => exact { Later.rfl m with reaped := fun q _ hq => update_true hq }
      | empty p => exact { Later.rfl m with emptied := fun q _ hq => update_true hq }

theorem isGone (h : Later m m') {p : ℕ} (hp : p < m.created) (hgone : m.isGone p = true) : m'.isGone p = true := by
  simp only [NbManager.isGone, Bool.and_eq_true] at hgone ⊢
  exact ⟨h.reaped p hp hgone.1, h.emptied p hp hgone.2⟩

end Later

def Counts (run : ℕ → Launch) (pending : ℕ) : Prop :=
  ∃ flights : Finset ℕ, flights.card = pending ∧ ∀ n, n ∈ flights ↔ (run n).InFlight

namespace Counts

variable {run : ℕ → Launch} {pending n : ℕ} {l : Launch}

theorem same (h : Counts run pending) (hl : l.InFlight ↔ (run n).InFlight) : Counts (Function.update run n l) pending := by
  obtain ⟨flights, hcard, hmem⟩ := h
  refine ⟨flights, hcard, fun k => ?_⟩
  by_cases hkn : k = n
  · rw [hkn, Function.update_self, hmem, hl]
  · rw [Function.update_of_ne hkn, hmem]

theorem enter (h : Counts run pending) (hn : ¬ (run n).InFlight) (hl : l.InFlight) :
    Counts (Function.update run n l) (pending + 1) := by
  obtain ⟨flights, hcard, hmem⟩ := h
  refine ⟨insert n flights, ?_, fun k => ?_⟩
  · rw [Finset.card_insert_of_notMem (mt (hmem n).1 hn), hcard]
  · by_cases hkn : k = n
    · rw [hkn, Function.update_self]
      exact iff_of_true (Finset.mem_insert_self ..) hl
    · rw [Function.update_of_ne hkn, Finset.mem_insert, hmem, or_iff_right hkn]

theorem leave (h : Counts run pending) (hn : (run n).InFlight) (hl : ¬ l.InFlight) :
    Counts (Function.update run n l) (pending - 1) := by
  obtain ⟨flights, hcard, hmem⟩ := h
  refine ⟨flights.erase n, ?_, fun k => ?_⟩
  · rw [Finset.card_erase_of_mem ((hmem n).2 hn), hcard]
  · by_cases hkn : k = n
    · rw [hkn, Function.update_self]
      exact iff_of_false (Finset.notMem_erase n flights) hl
    · rw [Function.update_of_ne hkn, Finset.mem_erase, hmem, and_iff_right hkn]

theorem eq_zero (h : Counts run 0) : ¬ (run n).InFlight := by
  obtain ⟨_, hcard, hmem⟩ := h
  rw [← hmem, Finset.card_eq_zero.1 hcard]
  exact Finset.notMem_empty n

end Counts

structure Tracking (m : NbManager) : Prop where
  counts : Counts m.run m.pending
  /-- A process that is neither tracked nor gone is about to be tracked. -/
  tracks : ∀ p < m.created, p ∈ m.procs ∨ m.isGone p = true ∨ ∃ stage, m.run (m.launchOf p) = .attaching stage p
  launched : m.active = true → m.launch ≠ 0
  fresh : ∀ n, m.launch < n → m.run n = .unstarted

namespace Tracking

theorem init : Tracking {} where
  counts := ⟨∅, rfl, fun n => by simp [Launch.InFlight]⟩
  tracks p hp := absurd hp (Nat.not_lt_zero p)
  launched h := nomatch h
  fresh _ _ := rfl

theorem fresh_setRun (h : Tracking m) (hn : m.run n ≠ .unstarted) :
    ∀ k, m.launch < k → (m.setRun n l).run k = .unstarted := by
  intro k hk
  have hne : k ≠ n := by
    rintro rfl
    exact hn (h.fresh k hk)
  exact (setRun_other hne).trans (h.fresh k hk)

theorem setRun (h : Tracking m) {n pending : ℕ} {l : Launch} (hn : m.run n ≠ .unstarted)
    (hbefore : ∀ stage p, m.run n ≠ .attaching stage p) (hcounts : Counts (Function.update m.run n l) pending) :
    Tracking { m.setRun n l with pending } := by
  refine ⟨hcounts, fun p hp => ?_, h.launched, h.fresh_setRun hn⟩
  refine (h.tracks p hp).imp_right fun hor => hor.imp_right fun ⟨stage, hstage⟩ => ⟨stage, ?_⟩
  have hne : m.launchOf p ≠ n := fun heq => hbefore stage p (heq ▸ hstage)
  exact (setRun_other hne).trans hstage

theorem goes (h : Tracking m) {before : Launch} (hn : m.run n = before) (hstarted : before ≠ .unstarted)
    (hbefore : ¬ before.InFlight) (hl : ¬ l.InFlight) : Tracking (m.setRun n l) := by
  subst hn
  exact h.setRun hstarted (fun _ _ heq => hbefore (heq ▸ trivial)) (h.counts.same (iff_of_false hl hbefore))

theorem of_launch (h : Tracking m) (hstep : LaunchStep m m') : Tracking m' := by
  cases hstep with
  | missing n stage hn | refused n stage hn => exact h.goes hn nofun id (by simp)
  | poll n _ hn | polled n _ hn | answered n _ _ hn | unanswered n _ _ hn | slept n _ hn | gaveUp n _ hn | up n _ _ hn
  | notUp n _ _ hn | watched n _ hn => exact h.goes hn nofun id id
  | admitted n stage spawning live =>
    exact h.setRun (by simp [spawning]) (by simp [spawning]) (h.counts.enter (by simp [spawning, Launch.InFlight]) trivial)
  | uncreated n stage creating =>
    exact h.setRun (by simp [creating]) (by simp [creating]) (h.counts.same (iff_of_true trivial (creating ▸ trivial)))
  | leave n stage p leaving =>
    exact h.setRun (by simp [leaving]) (by simp [leaving]) (h.counts.leave (leaving ▸ trivial) (by simp))
  | create n stage creating =>
    refine ⟨h.counts.same (iff_of_true trivial (creating ▸ trivial)), fun p hp => ?_, h.launched,
      h.fresh_setRun (by simp [creating])⟩
    rcases Nat.lt_succ_iff_lt_or_eq.1 hp with hlt | rfl
    · have hne : p ≠ m.created := ne_of_lt hlt
      simp only [isGone, Function.update_of_ne hne]
      refine (h.tracks p hlt).imp_right fun hor => hor.imp_right fun ⟨stage', hstage⟩ => ⟨stage', ?_⟩
      have hother : m.launchOf p ≠ n := by
        rintro rfl
        exact nomatch creating.symm.trans hstage
      exact (setRun_other hother).trans hstage
    · refine .inr (.inr ⟨stage, ?_⟩)
      simp only [Function.update_self]
      exact setRun_same
  | attach n stage p attaching =>
    refine ⟨h.counts.same (iff_of_true trivial (attaching ▸ trivial)), fun q hq => ?_, h.launched,
      h.fresh_setRun (by simp [attaching])⟩
    rcases h.tracks q hq with hin | hgone | ⟨stage', hstage⟩
    · exact .inl (List.mem_append_left _ hin)
    · exact .inr (.inl hgone)
    · by_cases hqn : m.launchOf q = n
      · obtain ⟨-, rfl⟩ : _ = stage' ∧ p = q := by simpa [hqn, attaching] using hstage
        exact .inl (List.mem_append_right _ (.head _))
      · exact .inr (.inr ⟨stage', (setRun_other hqn).trans hstage⟩)

theorem start (h : Tracking m) : Tracking m.start := by
  unfold NbManager.start
  split_ifs
  · exact h
  have hfresh : m.run (m.launch + 1) = .unstarted := h.fresh _ (Nat.lt_succ_self _)
  refine ⟨h.counts.same (by simp [hfresh, Launch.InFlight]), fun p hp => ?_, fun _ => Nat.succ_ne_zero _, fun n hn => ?_⟩
  · rcases h.tracks p hp with hin | hgone | ⟨stage, hstage⟩
    · by_cases hgone : m.isGone p = true
      · exact .inr (.inl hgone)
      · exact .inl (List.mem_filter.2 ⟨hin, by simpa using hgone⟩)
    · exact .inr (.inl hgone)
    · have hne : m.launchOf p ≠ m.launch + 1 := by
        intro heq
        rw [heq] at hstage
        exact nomatch hfresh.symm.trans hstage
      exact .inr (.inr ⟨stage, (setRun_other hne).trans hstage⟩)
  · exact (setRun_other (ne_of_gt hn)).trans (h.fresh n (Nat.lt_of_succ_lt hn))

theorem of_step (hstep : ManagerStep m m') (h : Tracking m) : Tracking m' := by
  cases hstep with
  | start => exact h.start
  | stop =>
    unfold NbManager.stop
    split_ifs
    · exact h
    · unfold NbManager.cancel
      split_ifs <;> exact ⟨h.counts, h.tracks, h.launched, h.fresh⟩
  | close =>
    unfold NbManager.close NbManager.cancel
    split_ifs <;> exact ⟨h.counts, h.tracks, h.launched, h.fresh⟩
  | alive => exact ⟨h.counts, h.tracks, h.launched, h.fresh⟩
  | goes step =>
    cases step with
    | launch step => exact h.of_launch step
    | stop step =>
      cases step with
      | finish => exact ⟨h.counts, h.tracks, nofun, h.fresh⟩
      | _ => exact ⟨h.counts, h.tracks, h.launched, h.fresh⟩
    | alive => exact ⟨h.counts, h.tracks, h.launched, h.fresh⟩
    | proc step =>
      have hlater : Later m m' := .of_step (.goes (.proc step))
      cases step <;>
        exact ⟨h.counts, fun p hp => (h.tracks p hp).imp_right fun hor => hor.imp_left (hlater.isGone hp), h.launched, h.fresh⟩

end Tracking

def Quiet (launches : Set ℕ) (m : NbManager) : Prop :=
  ∀ n ∈ launches, (m.closed = true ∨ m.cancelled n = true) ∧ ¬ (m.run n).InFlight

def LeftTo (launches : Set ℕ) (rest : List ℕ) (m : NbManager) : Prop :=
  ∀ p < m.created, m.launchOf p ∈ launches → m.isGone p = true ∨ p ∈ rest

variable {launches : Set ℕ} {rest : List ℕ}

theorem Quiet.later (h : Quiet launches m) (hlater : Later m m') : Quiet launches m' := by
  intro n hn
  obtain ⟨hbarred, hflight⟩ := h n hn
  refine ⟨hbarred.imp hlater.closed (hlater.cancelled n), fun hin => ?_⟩
  rcases hlater.admitted n hin with hbefore | ⟨hopen, hlive⟩
  · exact hflight hbefore
  · rcases hbarred with hclosed | hcancelled
    · exact nomatch hopen.symm.trans hclosed
    · exact nomatch hlive.symm.trans hcancelled

theorem Quiet.created (h : Quiet launches m) (hlater : Later m m') {p : ℕ} (hp : p < m'.created)
    (hof : m'.launchOf p ∈ launches) : p < m.created ∧ m.launchOf p ∈ launches := by
  have hbefore : p < m.created := (hlater.created p hp).resolve_right (h _ hof).2
  exact ⟨hbefore, hlater.launchOf p hbefore ▸ hof⟩

theorem LeftTo.later (h : LeftTo launches rest m) (hquiet : Quiet launches m) (hlater : Later m m') :
    LeftTo launches rest m' := by
  intro p hp hof
  obtain ⟨hbefore, hof⟩ := hquiet.created hlater hp hof
  exact (h p hbefore hof).imp_left (hlater.isGone hbefore)

/-- What Alive has found out, at each point of a call, about launches that admit nothing. -/
def AliveCall.Clears (launches : Set ℕ) (m : NbManager) : AliveCall → Prop
  | .snapshotting => Quiet launches m
  | .checking rest => Quiet launches m ∧ LeftTo launches rest m
  | .grouping p rest => Quiet launches m ∧ LeftTo launches (p :: rest) m ∧
      (p < m.created → m.launchOf p ∈ launches → m.reaped p = true)
  | .answered false => Quiet launches m ∧ LeftTo launches [] m
  | _ => True

namespace AliveCall.Clears

variable {c c' : AliveCall}

theorem later (h : c.Clears launches m) (hlater : Later m m') : c.Clears launches m' := by
  cases c with
  | uncalled | loading => trivial
  | snapshotting => exact Quiet.later h hlater
  | checking rest => exact ⟨h.1.later hlater, h.2.later h.1 hlater⟩
  | grouping p rest =>
    refine ⟨h.1.later hlater, h.2.1.later h.1 hlater, fun hp hof => ?_⟩
    obtain ⟨hbefore, hof⟩ := h.1.created hlater hp hof
    exact hlater.reaped p hbefore (h.2.2 hbefore hof)
  | answered alive =>
    cases alive with
    | true => trivial
    | false => exact ⟨h.1.later hlater, h.2.later h.1 hlater⟩

theorem of_step (h : c.Clears launches m) (htracking : Tracking m)
    (hbarred : ∀ n ∈ launches, m.closed = true ∨ m.cancelled n = true) (hstep : AliveStep m c c') : c'.Clears launches m := by
  cases hstep with
  | busy | unreaped | groupAlive => trivial
  | load none => exact fun n hn => ⟨hbarred n hn, (none ▸ htracking.counts).eq_zero⟩
  | snapshot =>
    refine ⟨h, fun p hp hof => ?_⟩
    rcases htracking.tracks p hp with hin | hgone | ⟨_, hstage⟩
    · exact .inr hin
    · exact .inl hgone
    · exact absurd (hstage ▸ trivial) (h _ hof).2
  | reaped p rest reaped => exact ⟨h.1, h.2, fun _ _ => reaped⟩
  | gone p rest emptied =>
    obtain ⟨hquiet, hleft, hreaped⟩ := h
    refine ⟨hquiet, fun q hq hof => ?_⟩
    rcases hleft q hq hof with hgone | hin
    · exact .inl hgone
    · rcases List.mem_cons.1 hin with rfl | hin
      · exact .inl (by simp [isGone, hreaped hq hof, emptied])
      · exact .inr hin
  | clear => exact h

end AliveCall.Clears

/-- What Stop's goroutine has found out about its launch. -/
def StopCall.Clears (m : NbManager) : StopCall → Prop
  | .idle => True
  | .joining n => m.cancelled n = true
  | .waiting n c _ => m.cancelled n = true ∧ c.Clears {n} m
  | .finishing n gone => gone = true → Quiet {n} m ∧ LeftTo {n} [] m

theorem StopCall.Clears.later {c : StopCall} (h : c.Clears m) (hlater : Later m m') : c.Clears m' := by
  cases c with
  | idle => trivial
  | joining n => exact hlater.cancelled n h
  | waiting n c killed => exact ⟨hlater.cancelled n h.1, h.2.later hlater⟩
  | finishing n gone => exact fun hgone => ⟨(h hgone).1.later hlater, (h hgone).2.later (h hgone).1 hlater⟩

structure Stopping (m : NbManager) : Prop extends Tracking m where
  clears : m.stopCall.Clears m

namespace Stopping

theorem of_stop (h : Stopping m) (hstep : StopStep m m') : m'.stopCall.Clears m := by
  have hclears := h.clears
  cases hstep with
  | join n joining =>
    rw [joining] at hclears
    exact ⟨hclears, trivial⟩
  | look n c c' killed waiting step =>
    rw [waiting] at hclears
    obtain ⟨hcancelled, hclears⟩ := hclears
    exact ⟨hcancelled, hclears.of_step h.toTracking (fun k hk => .inr (hk ▸ hcancelled)) step⟩
  | again n killed waiting | kill n waiting =>
    rw [waiting] at hclears
    exact ⟨hclears.1, trivial⟩
  | survived n waiting => exact nofun
  | found n killed waiting =>
    rw [waiting] at hclears
    exact fun _ => hclears.2
  | finish n gone finishing => trivial

theorem stop (h : Stopping m) : m.stop.stopCall.Clears m.stop := by
  unfold NbManager.stop
  split_ifs with hidle
  · exact h.clears
  · have hactive : m.active = true ∧ m.stopping = false := by simpa using hidle
    show m.cancel.cancelled m.launch = true
    simp [NbManager.cancel, h.launched hactive.1]

theorem of_step (hstep : ManagerStep m m') (h : Stopping m) : Stopping m' := by
  have hlater : Later m m' := .of_step hstep
  refine ⟨h.toTracking.of_step hstep, ?_⟩
  cases hstep with
  | start =>
    rw [show m.start.stopCall = m.stopCall by unfold NbManager.start; split_ifs <;> rfl]
    exact h.clears.later hlater
  | stop => exact h.stop
  | close =>
    rw [show m.close.stopCall = m.stopCall by unfold NbManager.close NbManager.cancel; split_ifs <;> rfl]
    exact h.clears.later hlater
  | alive => exact h.clears.later hlater
  | goes step =>
    cases step with
    | launch step => cases step <;> exact h.clears.later hlater
    | stop step => exact (h.of_stop step).later hlater
    | alive => exact h.clears.later hlater
    | proc step => cases step <;> exact h.clears.later hlater

end Stopping

/-- From a state in which the launches are quiet and all their processes gone, none appears. -/
theorem gone_for_good (hquiet : Quiet launches m) (hleft : LeftTo launches [] m) (h : Relation.ReflTransGen ManagerStep m m') :
    ∀ p < m'.created, m'.launchOf p ∈ launches → p < m.created ∧ m'.emptied p = true := by
  have hkeep : Quiet launches m' ∧ LeftTo launches [] m' ∧ ∀ p < m'.created, m'.launchOf p ∈ launches → p < m.created := by
    induction h with
    | refl => exact ⟨hquiet, hleft, fun p hp _ => hp⟩
    | tail _ hstep ih =>
      obtain ⟨hquiet, hleft, hbefore⟩ := ih
      have hlater := Later.of_step hstep
      refine ⟨hquiet.later hlater, hleft.later hquiet hlater, fun p hp hof => ?_⟩
      obtain ⟨hp, hof⟩ := hquiet.created hlater hp hof
      exact hbefore p hp hof
  obtain ⟨-, hleft, hbefore⟩ := hkeep
  intro p hp hof
  have hgone : m'.isGone p = true := (hleft p hp hof).resolve_right List.not_mem_nil
  exact ⟨hbefore p hp hof, (Bool.and_eq_true_iff.1 hgone).2⟩

/-- What an Alive call made after Close has found out. -/
structure Watched (i : ℕ) (m : NbManager) : Prop extends Tracking m where
  closed : m.closed = true
  clears : (m.alive i).Clears Set.univ m

theorem Watched.of_step {i : ℕ} (hstep : ManagerStep m m') (h : Watched i m) : Watched i m' := by
  have hlater : Later m m' := .of_step hstep
  refine ⟨h.toTracking.of_step hstep, hlater.closed h.closed, ?_⟩
  have hmoved {c : AliveCall} (heq : m'.alive i = c) (hc : c.Clears Set.univ m) : (m'.alive i).Clears Set.univ m' :=
    heq ▸ hc.later hlater
  have hkept (heq : m'.alive i = m.alive i) : (m'.alive i).Clears Set.univ m' := hmoved heq h.clears
  cases hstep with
  | start => exact hkept (by unfold NbManager.start; split_ifs <;> rfl)
  | stop => exact hkept (by unfold NbManager.stop NbManager.cancel; split_ifs <;> rfl)
  | close => exact hkept (by unfold NbManager.close NbManager.cancel; split_ifs <;> rfl)
  | alive j uncalled =>
    by_cases hij : i = j
    · subst hij
      exact hmoved (Function.update_self ..) trivial
    · exact hkept (Function.update_of_ne hij ..)
  | goes step =>
    cases step with
    | launch step | stop step | proc step => exact hkept (by cases step <;> rfl)
    | alive j c step =>
      by_cases hij : i = j
      · subst hij
        exact hmoved (Function.update_self ..) (h.clears.of_step h.toTracking (fun _ _ => .inl h.closed) step)
      · exact hkept (Function.update_of_ne hij ..)

/-- Whatever the interleaving of Start, Stop, Close and Alive calls with the launches, the
stops and the processes: where an Alive call made after Close answers false, every NetBird
process group is gone, and none is ever created; and once the wait of Stop has found a
launch gone, no process of that launch exists, or appears. -/
theorem no_process_escapes (m : NbManager) (reached : Relation.ReflTransGen ManagerStep {} m) :
    (m.closed = true → ∀ i, m.alive i = .uncalled → ∀ m₁, Relation.ReflTransGen ManagerStep m m₁ →
      m₁.alive i = .answered false → ∀ m₂, Relation.ReflTransGen ManagerStep m₁ m₂ →
        m₂.created = m₁.created ∧ ∀ p < m₂.created, m₂.emptied p = true) ∧
    (∀ n, m.stopCall = .finishing n true → ∀ m₁, Relation.ReflTransGen ManagerStep m m₁ →
      ∀ p < m₁.created, m₁.launchOf p = n → p < m.created ∧ m₁.emptied p = true) := by
  have h : Stopping m := keeps_of_step Stopping.of_step reached ⟨.init, trivial⟩
  refine ⟨fun hclosed i huncalled m₁ h₁ hanswer m₂ h₂ => ?_, fun n hfound m₁ h₁ p hp hof => ?_⟩
  · have hwatched : Watched i m₁ := keeps_of_step Watched.of_step h₁ ⟨h.toTracking, hclosed, huncalled ▸ trivial⟩
    obtain ⟨hquiet, hleft⟩ : Quiet Set.univ m₁ ∧ LeftTo Set.univ [] m₁ := by
      have hclears := hwatched.clears
      rwa [hanswer] at hclears
    have hgone := gone_for_good hquiet hleft h₂
    have hle : m₁.created ≤ m₂.created :=
      keeps_of_step (I := fun m => m₁.created ≤ m.created) (fun hstep h => h.trans (Later.of_step hstep).created_le) h₂ le_rfl
    refine ⟨le_antisymm ?_ hle, fun p hp => (hgone p hp trivial).2⟩
    by_contra hlt
    exact lt_irrefl _ (hgone m₁.created (not_le.1 hlt) trivial).1
  · have hclears := h.clears
    rw [hfound] at hclears
    obtain ⟨hquiet, hleft⟩ := hclears rfl
    exact gone_for_good hquiet hleft h₁ p hp hof

/-- A launch is stopped while its daemon is created: the daemon is attached late, and gone
before the wait of Stop, and an Alive call after Close, find nothing. -/
theorem no_process_escapes_late : ∃ m m₁, Relation.ReflTransGen ManagerStep {} m ∧ m.stopCall = .finishing 1 true ∧
    Relation.ReflTransGen ManagerStep m m₁ ∧ m₁.alive 0 = .answered false ∧ m₁.created = 1 ∧
      (∀ p < m₁.created, m₁.launchOf p = 1 → p < m.created ∧ m₁.emptied p = true) ∧
        ∀ m₂, Relation.ReflTransGen ManagerStep m₁ m₂ → m₂.created = m₁.created := by
  have h : Relation.ReflTransGen ManagerStep {} _ := .single .start
  have h := h.tail (.goes (.launch (.admitted 1 .service rfl rfl)))
  have h := h.tail .stop
  have h := h.tail (.goes (.launch (.create 1 .service rfl)))
  have h := h.tail (.goes (.launch (.attach 1 .service 0 rfl)))
  have h := h.tail (.goes (.launch (.leave 1 .service none rfl)))
  have h := h.tail (.goes (.stop (.join 1 rfl)))
  have h := h.tail (.goes (.proc (.reap 0)))
  have h := h.tail (.goes (.proc (.empty 0)))
  have h := h.tail (.goes (.stop (.look 1 _ _ false rfl (.load rfl))))
  have h := h.tail (.goes (.stop (.look 1 _ _ false rfl .snapshot)))
  have h := h.tail (.goes (.stop (.look 1 _ _ false rfl (.reaped 0 [] rfl))))
  have h := h.tail (.goes (.stop (.look 1 _ _ false rfl (.gone 0 [] rfl))))
  have h := h.tail (.goes (.stop (.look 1 _ _ false rfl .clear)))
  have h := h.tail (.goes (.stop (.found 1 false rfl)))
  have h := h.tail .close
  obtain ⟨m, hm, h⟩ : ∃ m, m = _ ∧ Relation.ReflTransGen ManagerStep {} m := ⟨_, rfl, h⟩
  have h₁ : Relation.ReflTransGen ManagerStep m _ := .single (.alive 0 (by rw [hm]; rfl))
  have h₁ := h₁.tail (.goes (.alive 0 _ (.load (by rw [hm]; rfl))))
  have h₁ := h₁.tail (.goes (.alive 0 _ .snapshot))
  have h₁ := h₁.tail (.goes (.alive 0 (.grouping 0 []) (by rw [hm]; exact .reaped 0 [] rfl)))
  have h₁ := h₁.tail (.goes (.alive 0 _ (.gone 0 [] (by rw [hm]; rfl))))
  have h₁ := h₁.tail (.goes (.alive 0 _ .clear))
  obtain ⟨hclosed, hstopped⟩ := no_process_escapes m h
  refine ⟨m, _, h, by rw [hm]; rfl, h₁, rfl, by rw [hm]; rfl, hstopped 1 (by rw [hm]; rfl) _ h₁, fun m₂ h₂ => ?_⟩
  exact (hclosed (by rw [hm]; rfl) 0 (by rw [hm]; rfl) _ h₁ rfl m₂ h₂).1

end Molebridge.Exit
