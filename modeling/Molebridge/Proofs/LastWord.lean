import Mathlib.Tactic
import Molebridge.Lib.Interleaving
import Molebridge.Spec.Coalescer

/-! The coalescer loses no job but one that is replaced, and after Failure the last record
the publisher writes is the failure record. -/

namespace Molebridge.Exit

variable {α : Type} {c c' : Coalescer α} {log rest later before : List (CoalescerEvent α)} {j k : Job α}

/-! ### What a log says -/

def runningOf : List (CoalescerEvent α) → Option (Job α)
  | [] => none
  | .started job :: _ => some job
  | .finished _ :: _ => none
  | _ :: rest => runningOf rest

def Follows (rest : List (CoalescerEvent α)) : CoalescerEvent α → Prop
  | .accepted job => ∀ k, .accepted k ∈ rest → k.number < job.number ∧ k.final = false
  | .replaced old _ => .accepted old ∈ rest
  | .started job => runningOf rest = none ∧ .accepted job ∈ rest ∧ ∀ k, .started k ∈ rest → k.number < job.number
  | .finished job => runningOf rest = some job
  | .idle => ∀ j, .accepted j ∈ rest → .finished j ∈ rest ∨ ∃ k, .replaced j k ∈ rest

def Consistent : List (CoalescerEvent α) → Prop
  | [] => True
  | e :: rest => Follows rest e ∧ Consistent rest

theorem Consistent.follows {e : CoalescerEvent α} (h : Consistent (later ++ e :: before)) : Follows before e := by
  induction later with
  | nil => exact h.1
  | cons e' later ih => exact ih h.2

theorem Consistent.suffix (h : Consistent (later ++ before)) : Consistent before := by
  induction later with
  | nil => exact h
  | cons e later ih => exact ih h.2

theorem Consistent.finished_or_running (h : Consistent (later ++ .started j :: before)) :
    .finished j ∈ later ∨ runningOf (later ++ .started j :: before) = some j := by
  induction later with
  | nil => exact .inr rfl
  | cons e later ih =>
    rcases ih h.2 with hfinished | hrunning
    · exact .inl (.tail _ hfinished)
    cases e with
    | started k => exact nomatch h.1.1.symm.trans hrunning
    | finished k =>
      obtain rfl : k = j := Option.some.inj (h.1.symm.trans hrunning)
      exact .inl (.head _)
    | accepted _ | replaced _ _ | idle => exact .inr hrunning

theorem mem_startedJobs : j ∈ startedJobs log ↔ .started j ∈ log := by
  induction log with
  | nil => simp [startedJobs]
  | cons e rest ih => cases e <;> simp [startedJobs, ih]

theorem startedJobs_append : startedJobs (later ++ before) = startedJobs later ++ startedJobs before := by
  induction later with
  | nil => rfl
  | cons e later ih => cases e <;> simp [startedJobs, ih]

theorem Consistent.started_in_order (h : Consistent log) :
    (startedJobs log).Pairwise fun later earlier => earlier.number < later.number := by
  induction log with
  | nil => exact .nil
  | cons e rest ih =>
    cases e with
    | started j => exact List.pairwise_cons.2 ⟨fun k hk => h.1.2.2 k (mem_startedJobs.1 hk), ih h.2⟩
    | accepted _ | replaced _ _ | finished _ | idle => exact ih h.2

/-! ### The coalescer -/

structure Coalescer.Sound (c : Coalescer α) : Prop where
  consistent : Consistent c.log
  runs : ∀ j, runningOf c.log = some j ↔ c.loop = .running j
  flag : c.running = false → (∀ j, c.loop ≠ .running j) ∧ c.loop ≠ .returned
  counted : ∀ j, .accepted j ∈ c.log → j.number < c.accepted
  waits : ∀ j, c.pending = some j → .accepted j ∈ c.log ∧ ∀ k, .started k ∈ c.log → k.number < j.number
  covered : ∀ j, .accepted j ∈ c.log → .started j ∈ c.log ∨ c.pending = some j ∨
    ∃ k, .replaced j k ∈ c.log ∧ .accepted k ∈ c.log ∧ j.number < k.number
  final : c.final = false → ∀ j, .accepted j ∈ c.log → j.final = false
  woken : c.pending ≠ none → c.wake = true ∨ 0 < c.sending ∨ c.loop ≠ .waiting

namespace Coalescer.Sound

theorem accepted_of_started (h : c.Sound) (hj : .started j ∈ c.log) : .accepted j ∈ c.log := by
  obtain ⟨_, before, hsplit⟩ := List.append_of_mem hj
  have hfollows : Follows before (.started j) := (hsplit ▸ h.consistent).follows
  rw [hsplit]
  exact List.mem_append_right _ (.tail _ hfollows.2.1)

theorem finished_of_started (h : c.Sound) (hloop : ∀ j, c.loop ≠ .running j) (hj : .started j ∈ c.log) :
    .finished j ∈ c.log := by
  obtain ⟨_, _, hsplit⟩ := List.append_of_mem hj
  rcases (hsplit ▸ h.consistent).finished_or_running with hfinished | hrunning
  · exact hsplit ▸ List.mem_append_left _ hfinished
  · exact absurd ((h.runs j).1 (hsplit ▸ hrunning)) (hloop j)

theorem init : ({} : Coalescer α).Sound where
  consistent := trivial
  runs _ := ⟨nofun, nofun⟩
  flag _ := ⟨nofun, nofun⟩
  counted _ h := nomatch h
  waits _ h := nomatch h
  covered _ h := nomatch h
  final _ _ h := nomatch h
  woken h := absurd rfl h

theorem submit (h : c.Sound) (work : α) (final : Bool) : (c.submit work final).Sound := by
  unfold Coalescer.submit
  split_ifs with hfinal
  · exact h
  have hopen : c.final = false := by simpa using hfinal
  set job : Job α := { number := c.accepted, work, final }
  have haccepted (k : Job α) : .accepted k ∈ .accepted job :: (c.pending.toList.map (.replaced · job) ++ c.log) ↔
      k = job ∨ .accepted k ∈ c.log := by simp
  have hstarted (k : Job α) : .started k ∈ .accepted job :: (c.pending.toList.map (.replaced · job) ++ c.log) ↔
      .started k ∈ c.log := by simp
  have hfollows : ∀ k, .accepted k ∈ c.log → k.number < job.number ∧ k.final = false := fun k hk =>
    ⟨h.counted k hk, h.final hopen k hk⟩
  refine ⟨?_, ?_, h.flag, ?_, ?_, ?_, ?_, fun _ => .inr (.inl (Nat.succ_pos _))⟩
  · cases hpending : c.pending with
    | none => exact ⟨hfollows, h.consistent⟩
    | some old =>
      refine ⟨fun k hk => hfollows k ?_, (h.waits old hpending).1, h.consistent⟩
      simpa using hk
  · intro j
    rw [← h.runs j]
    cases c.pending <;> rfl
  · intro k hk
    rcases (haccepted k).1 hk with rfl | hk
    · exact Nat.lt_succ_self _
    · exact (h.counted k hk).trans (Nat.lt_succ_self _)
  · intro j hj
    obtain rfl : job = j := Option.some.inj hj
    refine ⟨(.head _), fun k hk => h.counted k ?_⟩
    exact h.accepted_of_started ((hstarted k).1 hk)
  · intro k hk
    rcases (haccepted k).1 hk with rfl | hk
    · exact .inr (.inl rfl)
    rcases h.covered k hk with hrun | hwait | ⟨l, hreplaced, hl, hlt⟩
    · exact .inl ((hstarted k).2 hrun)
    · refine .inr (.inr ⟨job, ?_, (.head _), h.counted k hk⟩)
      simp [hwait]
    · refine .inr (.inr ⟨l, ?_, (haccepted l).2 (.inr hl), hlt⟩)
      exact .tail _ (List.mem_append_right _ hreplaced)
  · intro hopen' k hk
    rcases (haccepted k).1 hk with rfl | hk
    · exact hopen'
    · exact h.final hopen k hk

theorem event (h : c.Sound) {e : CoalescerEvent α} {loop : Loop α} (he : Follows c.log e)
    (haccepted : ∀ j, e ≠ .accepted j) (hstarted : ∀ j, e ≠ .started j)
    (hruns : ∀ j, runningOf (e :: c.log) = some j ↔ loop = .running j)
    (hflag : c.running = false → (∀ j, loop ≠ .running j) ∧ loop ≠ .returned)
    (hwoken : c.pending ≠ none → c.wake = true ∨ 0 < c.sending ∨ loop ≠ .waiting) :
    Sound { c with loop, log := e :: c.log } := by
  have hmem {e' : CoalescerEvent α} (hne : e ≠ e') (h : e' ∈ e :: c.log) : e' ∈ c.log :=
    (List.mem_cons.1 h).resolve_left hne.symm
  refine ⟨⟨he, h.consistent⟩, hruns, hflag, fun j hj => ?_, fun j hj => ?_, fun j hj => ?_, fun hf j hj => ?_, hwoken⟩
  · exact h.counted j (hmem (haccepted j) hj)
  · exact ⟨.tail _ (h.waits j hj).1, fun k hk => (h.waits j hj).2 k (hmem (hstarted k) hk)⟩
  · rcases h.covered j (hmem (haccepted j) hj) with hrun | hwait | ⟨l, hreplaced, hl, hlt⟩
    · exact .inl (.tail _ hrun)
    · exact .inr (.inl hwait)
    · exact .inr (.inr ⟨l, .tail _ hreplaced, .tail _ hl, hlt⟩)
  · exact h.final hf j (hmem (haccepted j) hj)

theorem idle (h : c.Sound) (hidle : c.isIdle = true) : Sound { c with log := .idle :: c.log } := by
  refine h.event (fun j hj => ?_) (fun _ h => nomatch h) (fun _ h => nomatch h) h.runs h.flag h.woken
  obtain ⟨hpending, hrunning⟩ : c.pending = _ ∧ c.running = _ := by
    simpa [Coalescer.isIdle] using hidle
  rcases h.covered j hj with hrun | hwait | ⟨k, hreplaced, -⟩
  · exact .inl (h.finished_of_started (h.flag hrunning).1 hrun)
  · exact nomatch hpending.symm.trans hwait
  · exact .inr ⟨k, hreplaced⟩

theorem elsewhere (h : c.Sound) {loop : Loop α} (wake running : Bool) (hold : ∀ j, c.loop ≠ .running j)
    (hnew : ∀ j, loop ≠ .running j) (hreturned : loop ≠ .returned)
    (hwoken : c.pending ≠ none → wake = true ∨ 0 < c.sending ∨ loop ≠ .waiting) :
    Sound { c with loop, wake, running } :=
  { h with
    runs := fun j => ⟨fun hj => absurd ((h.runs j).1 hj) (hold j), fun hj => absurd hj (hnew j)⟩
    flag := fun _ => ⟨hnew, hreturned⟩
    woken := hwoken }

theorem take (h : c.Sound) (htaking : c.loop = .taking) : c.take.Sound := by
  have hstopped (j : Job α) : c.loop ≠ .running j := by simp [htaking]
  obtain hpending | ⟨job, hpending⟩ := Option.eq_none_or_eq_some c.pending
  · rw [show c.take = { c with running := false, loop := .waiting } by simp [Coalescer.take, hpending]]
    exact h.elsewhere c.wake false hstopped nofun nofun fun hne => absurd hpending hne
  rw [show c.take = { c with
    pending := none, running := true, loop := .running job, log := .started job :: c.log } by
      simp [Coalescer.take, hpending]]
  obtain ⟨haccepted, hlater⟩ := h.waits job hpending
  have hnone : runningOf c.log = none := by
    by_contra hne
    obtain ⟨j, hj⟩ := Option.ne_none_iff_exists'.1 hne
    exact hstopped j ((h.runs j).1 hj)
  refine ⟨⟨⟨hnone, haccepted, hlater⟩, h.consistent⟩, fun j => ?_, nofun, fun j hj => ?_, nofun, fun j hj => ?_,
    fun hf j hj => ?_, fun hne => absurd rfl hne⟩
  · show some job = some j ↔ Loop.running job = Loop.running j
    rw [Option.some.injEq, Loop.running.injEq]
  · exact h.counted j (by simpa using hj)
  · rcases h.covered j (by simpa using hj) with hrun | hwait | ⟨l, hreplaced, hl, hlt⟩
    · exact .inl (.tail _ hrun)
    · obtain rfl : job = j := Option.some.inj (hpending.symm.trans hwait)
      exact .inl (.head _)
    · exact .inr (.inr ⟨l, .tail _ hreplaced, .tail _ hl, hlt⟩)
  · exact h.final hf j (by simpa using hj)

theorem finish (h : c.Sound) (hrunning : c.loop = .running j) : (c.finish j).Sound :=
  h.event ((h.runs j).2 hrunning) (fun _ h => nomatch h) (fun _ h => nomatch h) (fun _ => ⟨nofun, nofun⟩)
    (fun hflag => absurd hrunning ((h.flag hflag).1 j)) fun _ => .inr (.inr nofun)

theorem advance (h : c.Sound) (hstep : Coalescer.Advance c c') : c'.Sound := by
  cases hstep with
  | send => exact { h with woken := fun _ => .inl rfl }
  | receive waiting wake =>
    exact h.elsewhere false c.running (by simp [waiting]) nofun nofun fun _ => .inr (.inr nofun)
  | take taking => exact h.take taking
  | finish job running => exact h.finish running
  | clear returned => exact h.elsewhere c.wake false (by simp [returned]) nofun nofun fun _ => .inr (.inr nofun)

theorem step (hstep : Coalescer.Step c c') (h : c.Sound) : c'.Sound := by
  cases hstep with
  | submit work final => exact h.submit work final
  | advance advanced => exact h.advance advanced
  | wait idle => exact h.idle idle

end Coalescer.Sound

/-- The coalescer's promises: jobs run one at a time, each at most once and in the order
of acceptance; one that never ran is pending or was replaced by a later one; nothing is
pending at rest, nothing is accepted after a final job, and a Wait that returns true found
every job accepted before it finished or replaced. -/
structure Orderly (c : Coalescer α) : Prop where
  one_at_a_time : ∀ later between before j k,
    c.log = later ++ .started k :: (between ++ .started j :: before) → .finished j ∈ between
  in_order : c.started.Pairwise fun later earlier => earlier.number < later.number
  numbered : ∀ later before j, c.log = later ++ .accepted j :: before →
    ∀ k, .accepted k ∈ before → k.number < j.number
  accepted : ∀ j, .started j ∈ c.log → .accepted j ∈ c.log
  covered : ∀ j, .accepted j ∈ c.log → .started j ∈ c.log ∨ c.pending = some j ∨
    ∃ k, .replaced j k ∈ c.log ∧ .accepted k ∈ c.log ∧ j.number < k.number
  at_rest : c.AtRest → c.pending = none
  final : ∀ later before j, c.log = later ++ .accepted j :: before → j.final = true → ∀ k, .accepted k ∉ later
  waited : ∀ later before, c.log = later ++ .idle :: before →
    ∀ j, .accepted j ∈ before → .finished j ∈ before ∨ ∃ k, .replaced j k ∈ before

theorem Coalescer.Sound.orderly (h : c.Sound) : Orderly c where
  one_at_a_time later between before j k hsplit := by
    have hconsistent := hsplit ▸ h.consistent
    obtain ⟨hnone, -⟩ := hconsistent.follows
    rcases hconsistent.suffix.2.finished_or_running with hfinished | hrunning
    · exact hfinished
    · exact nomatch hnone.symm.trans hrunning
  in_order := h.consistent.started_in_order
  numbered later before j hsplit k hk := ((hsplit ▸ h.consistent).follows k hk).1
  accepted j hj := h.accepted_of_started hj
  covered := h.covered
  at_rest hrest := by
    by_contra hne
    rcases h.woken hne with hwake | hsending | hloop
    · exact nomatch hrest.1.2.symm.trans hwake
    · exact absurd hrest.2 hsending.ne'
    · exact hloop hrest.1.1
  final later before j hsplit hfinal k hk := by
    obtain ⟨l₁, l₂, rfl⟩ := List.append_of_mem hk
    have hconsistent : Consistent (l₁ ++ .accepted k :: (l₂ ++ .accepted j :: before)) := by
      have := hsplit ▸ h.consistent
      rwa [List.append_assoc, List.cons_append] at this
    have hopen := (hconsistent.follows j (List.mem_append_right _ (.head _))).2
    exact nomatch hopen.symm.trans hfinal
  waited later before hsplit := (hsplit ▸ h.consistent).follows

/-! ### The publisher -/

variable {p p' : Publisher}

theorem Publisher.Step.out (h : Publisher.Step p p') : p'.out = p.out ∨ Coalescer.Step p.out p'.out := by
  cases h with
  | full record =>
    unfold Publisher.full
    split_ifs
    · exact .inl rfl
    · exact .inr (.submit record false)
  | leaseOnly =>
    unfold Publisher.leaseOnly
    split_ifs
    · exact .inl rfl
    · cases p.last with
      | none => exact .inl rfl
      | some record => exact .inr (.submit record false)
  | failure lapse =>
    unfold Publisher.failure
    split_ifs
    · exact .inl rfl
    · exact .inr (.submit _ true)
  | close => exact .inl rfl
  | advance advanced => exact .inr (.advance advanced)
  | wait idle => exact .inr (.wait idle)

theorem Coalescer.Advance.final_eq (h : Coalescer.Advance c c') : c'.final = c.final := by
  cases h with
  | take =>
    unfold Coalescer.take
    cases c.pending <;> rfl
  | send | receive | finish | clear => rfl

theorem Coalescer.final_submit (h : c.final = false) (work : α) (final : Bool) : (c.submit work final).final = final := by
  simp [Coalescer.submit, h]

/-- The coalescer is sound, and takes jobs while the publisher is open. -/
structure Publisher.Sound (p : Publisher) : Prop where
  out : p.out.Sound
  takes : p.closed = false → p.out.final = false

theorem Publisher.Sound.step (hstep : Publisher.Step p p') (h : p.Sound) : p'.Sound := by
  refine ⟨?_, ?_⟩
  · rcases hstep.out with heq | hout
    · rw [heq]
      exact h.out
    · exact Coalescer.Sound.step hout h.out
  cases hstep with
  | full record =>
    unfold Publisher.full
    split_ifs with hclosed
    · exact h.takes
    · exact fun hopen => Coalescer.final_submit (h.takes hopen) record false
  | leaseOnly =>
    unfold Publisher.leaseOnly
    split_ifs
    · exact h.takes
    · cases p.last with
      | none => exact h.takes
      | some record => exact fun hopen => Coalescer.final_submit (h.takes hopen) record false
  | failure lapse =>
    unfold Publisher.failure
    split_ifs
    · exact h.takes
    · exact nofun
  | close => exact nofun
  | advance advanced => exact fun hopen => advanced.final_eq.trans (h.takes hopen)
  | wait => exact h.takes

/-- Since the failure record's job was accepted: no other job starts, and it is pending or
has started. -/
structure Failing (job : Job Members) (base : List (CoalescerEvent Members)) (p : Publisher) : Prop where
  closed : p.closed = true
  runs : ∃ new, p.out.log = new ++ base ∧ (∀ k, .started k ∈ new → k = job) ∧
    (p.out.pending = some job ∨ p.out.pending = none ∧ .started job ∈ new)

variable {job : Job Members} {base : List (CoalescerEvent Members)}

theorem Failing.advance {out : Coalescer Members}
    (h : Failing job base p) (hstep : Coalescer.Advance p.out out) : Failing job base { p with out } := by
  obtain ⟨new, hlog, honly, hjob⟩ := h.runs
  refine ⟨h.closed, ?_⟩
  cases hstep with
  | send | receive | clear => exact ⟨new, hlog, honly, hjob⟩
  | finish k running =>
    refine ⟨.finished k :: new, by rw [List.cons_append, ← hlog]; rfl, fun l hl => ?_, ?_⟩
    · exact honly l (by simpa using hl)
    · exact hjob.imp_right fun h => ⟨h.1, .tail _ h.2⟩
  | take =>
    rcases hjob with hpending | ⟨hpending, hstarted⟩
    · refine ⟨.started job :: new, by simp [Coalescer.take, hpending, hlog], fun l hl => ?_, .inr ⟨?_, (.head _)⟩⟩
      · rcases List.mem_cons.1 hl with heq | hl
        · exact CoalescerEvent.started.inj heq
        · exact honly l hl
      · simp [Coalescer.take, hpending]
    · refine ⟨new, by simp [Coalescer.take, hpending, hlog], honly, .inr ⟨?_, hstarted⟩⟩
      simp [Coalescer.take, hpending]

theorem Failing.step (hstep : Publisher.Step p p') (h : Failing job base p) : Failing job base p' := by
  cases hstep with
  | full record => rwa [show p.full record = p by simp [Publisher.full, h.closed]]
  | leaseOnly => rwa [show p.leaseOnly = p by simp [Publisher.leaseOnly, h.closed]]
  | failure lapse => rwa [show p.failure lapse = p by simp [Publisher.failure, h.closed]]
  | close => exact ⟨rfl, h.runs⟩
  | advance advanced => exact h.advance advanced
  | wait =>
    obtain ⟨new, hlog, honly, hjob⟩ := h.runs
    refine ⟨h.closed, .idle :: new, by rw [List.cons_append, ← hlog], fun l hl => honly l (by simpa using hl), ?_⟩
    exact hjob.imp_right fun h => ⟨h.1, .tail _ h.2⟩

/-- A pending job is never stuck: the loop or the Submit that is to wake it can go on. -/
theorem Coalescer.Sound.can_advance (h : c.Sound) (hpending : c.pending ≠ none) : ∃ c', Coalescer.Advance c c' := by
  cases hloop : c.loop with
  | waiting =>
    rcases h.woken hpending with hwake | hsending | hne
    · exact ⟨_, .receive hloop hwake⟩
    · exact ⟨_, .send hsending⟩
    · exact absurd hloop hne
  | taking => exact ⟨_, .take hloop⟩
  | running job => exact ⟨_, .finish job hloop⟩
  | returned => exact ⟨_, .clear hloop⟩

/-- What the publisher has written since its failure record was submitted: nothing but
that record, which is the last write at rest; and until it is written the loop, or the
Submit that is to wake it, can go on. -/
structure LastWord (job : Job Members) (base : List (CoalescerEvent Members)) (p : Publisher) : Prop where
  only : ∃ new, p.out.log = new ++ base ∧ ∀ k, .started k ∈ new → k = job
  last : p.out.AtRest → p.out.started.head? = some job
  goes_on : .started job ∉ p.out.log → ∃ c, Coalescer.Advance p.out c

theorem Failing.lastWord (h : Failing job base p) (hsound : p.Sound) : LastWord job base p := by
  obtain ⟨new, hlog, honly, hjob⟩ := h.runs
  refine ⟨⟨new, hlog, honly⟩, fun hrest => ?_, fun hnot => ?_⟩
  · obtain ⟨-, hstarted⟩ := hjob.resolve_left fun hpending =>
      nomatch (hsound.out.orderly.at_rest hrest).symm.trans hpending
    have hmem : job ∈ startedJobs new := mem_startedJobs.2 hstarted
    rw [Coalescer.started, hlog, startedJobs_append]
    cases hnew : startedJobs new with
    | nil => simp [hnew] at hmem
    | cons k jobs =>
      obtain rfl : k = job := honly k (mem_startedJobs.1 (hnew ▸ (.head _)))
      rfl
  · rcases hjob with hpending | ⟨-, hstarted⟩
    · exact hsound.out.can_advance (by simp [hpending])
    · exact absurd (hlog ▸ List.mem_append_left _ hstarted) hnot

/-- Over every interleaving the coalescer is orderly; and once Failure is called on a
publisher that is not closed, the failure record is the last one written. -/
theorem failure_is_last_word :
    (∀ (α : Type) (c : Coalescer α), Relation.ReflTransGen Coalescer.Step {} c → Orderly c) ∧
      ∀ (settings : ExitSettings) (p p' : Publisher) (lapse : ℤ),
        Relation.ReflTransGen Publisher.Step { settings } p → p.closed = false → p.out.sending = 0 →
          Relation.ReflTransGen Publisher.Step (p.failure lapse) p' →
            LastWord { number := p.out.accepted, work := failureRecord p.last p.settings lapse, final := true }
              p.out.log p' := by
  refine ⟨fun α c hc => ?_, ?_⟩
  · have hsound : c.Sound := keeps_of_step Coalescer.Sound.step hc .init
    exact hsound.orderly
  intro settings p p' lapse hp hopen hunlocked hp'
  have hsound : p.Sound := keeps_of_step Publisher.Sound.step hp ⟨.init, fun _ => rfl⟩
  have htakes : p.out.final = false := hsound.takes hopen
  set job : Job Members := { number := p.out.accepted, work := failureRecord p.last p.settings lapse, final := true }
    with hjob
  have hfailing : Failing job p.out.log (p.failure lapse) := by
    refine ⟨by simp [Publisher.failure, hopen], .accepted job :: p.out.pending.toList.map (.replaced · job), ?_, ?_, .inl ?_⟩
    · simp [Publisher.failure, Coalescer.submit, hopen, htakes, hjob]
    · simp
    · simp [Publisher.failure, Coalescer.submit, hopen, htakes, hjob]
  have hsound' : p'.Sound := keeps_of_step Publisher.Sound.step hp' (.step (.failure lapse hunlocked) hsound)
  have hfailing' : Failing job p.out.log p' := keeps_of_step Failing.step hp' hfailing
  exact hfailing'.lastWord hsound'

/-- A full record is pending and its wake is sent. -/
def fullPending : Publisher where
  settings := { kind := .overlay, provider := "mullvad", server := "", portForward := false, known := by decide }
  last := some []
  out := (Coalescer.submit {} [] false).send

/-- Failure is called while a full record is pending: it is the one record written. -/
theorem failure_is_last_word_full_pending :
    Orderly (Coalescer.submit {} () false) ∧ fullPending.out.pending.map Job.work = some [] ∧
      ∃ p, Relation.ReflTransGen Publisher.Step (fullPending.failure 0) p ∧ p.out.AtRest ∧
        p.out.started.head?.map Job.work = some (failureRecord (some []) fullPending.settings 0) := by
  have hfull : Relation.ReflTransGen Publisher.Step { settings := fullPending.settings } fullPending :=
    (Relation.ReflTransGen.single (.full [] rfl)).tail (.advance (.send (by decide)))
  -- the wake is sent, and the loop runs the one job that is left
  have hfailed := (((((Relation.ReflTransGen.single (Publisher.Step.advance (p := fullPending.failure 0)
    (.send (by decide)))).tail (.advance (.receive rfl rfl))).tail (.advance (.take rfl))).tail
    (.advance (.finish _ rfl))).tail (.advance (.clear rfl))).tail (.advance (.take rfl))
  have hword := failure_is_last_word.2 fullPending.settings fullPending _ 0 hfull rfl rfl hfailed
  refine ⟨failure_is_last_word.1 Unit _ (.single (.submit () false)), rfl, _, hfailed, ⟨⟨rfl, rfl⟩, rfl⟩, ?_⟩
  rw [hword.last ⟨⟨rfl, rfl⟩, rfl⟩]
  rfl

/-- A Submit that has not yet sent its wake leaves its job pending beside a blocked loop. -/
theorem blocked_with_pending :
    ∃ c : Coalescer Unit, Relation.ReflTransGen Coalescer.Step {} c ∧ c.Blocked ∧ c.pending ≠ none :=
  ⟨_, .single (.submit () false), ⟨rfl, rfl⟩, nofun⟩

end Molebridge.Exit
