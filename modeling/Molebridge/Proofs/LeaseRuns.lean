import Molebridge.Spec.Lease

/-! Runs of the lease within one generation. What one accepted renewal
establishes (`accept_ok`) is read off the trace of a whole run
(`exists_accept_of_renewal`), the deadline in force is the lease's own (`deadline_after`),
and a lease whose deadline has passed stays dead (`Dead`). -/

namespace Molebridge

/-! ### int64 -/

theorem wrap64_of_int64 {x : ℤ} (h : IsInt64 x) : wrap64 x = x := by
  unfold wrap64 IsInt64 at *
  rw [Int.bmod_eq_of_le] <;> omega

variable {t now : ℤ} {calls : List (ℤ × Call)}

theorem le_of_le_wrap64 {a b : ℤ} (ht : 0 ≤ t) (ha : 0 ≤ a) (ha' : a < 2 ^ 63) (hb : IsInt64 b)
    (h : t ≤ wrap64 (a + b)) : t ≤ a + b := by
  unfold wrap64 IsInt64 at *
  rw [Int.bmod_def] at h
  split_ifs at h <;> omega

/-! ### One call -/

theorem refuseLoops_eq_none_iff (now : ℤ) (loops bounds : List (String × ℤ)) :
    refuseLoops now loops bounds = none ↔ ∀ x ∈ bounds, ∃ ns, loops.lookup x.1 = some ns ∧
      ns ≤ now ∧ wrap64 (now - ns) ≤ wrap64 (x.2 + transitSlack) := by
  induction bounds with
  | nil => simp [refuseLoops]
  | cons x rest ih =>
    obtain ⟨name, -⟩ := x
    unfold refuseLoops
    cases hl : loops.lookup name with
    | none => simp [hl]
    | some ns =>
      simp only [List.forall_mem_cons, hl, ← ih]
      split_ifs with h1 h2 <;> simp <;> omega

/-- What the loops of an accepted renewal say, at the time it was accepted. -/
def LoopsFresh (bounds : List (String × ℤ)) (now : ℤ) (m : Msg) : Prop :=
  ∀ name bound, (name, bound) ∈ bounds →
    ∃ ns, m.loops.lookup name = some ns ∧ now - bound - transitSlack ≤ ns ∧ ns ≤ now

namespace Lease

@[simp] theorem noteExpiry_revoked (l : Lease) (now : ℤ) :
    (l.noteExpiry now).revoked = l.revoked := by
  unfold noteExpiry; split_ifs <;> rfl

variable {l l' : Lease} {m : Msg}

theorem noteExpiry_of_live (hr : l.revoked = false) (hl : (l.noteExpiry now).lapsed = false) :
    l.noteExpiry now = l ∧ l.lapsed = false ∧ now < l.deadline := by
  unfold noteExpiry at hl ⊢
  split_ifs at hl ⊢ with h
  refine ⟨rfl, hl, ?_⟩
  simpa [hr] using h

theorem refusal_eq_none (h : l.refusal now m = none) :
    l.revoked = false ∧ l.lapsed = false ∧ m.gen = l.gen ∧ l.lastSeq < m.seq ∧
      refuseLoops now m.loops l.bounds = none := by
  unfold refusal at h
  split_ifs at h with h1 h2 h3 h4 h5
  exact ⟨by simpa using h1, by simpa using h2, by simpa using h3, not_le.1 h4, h⟩

theorem loopsFresh_of_none (hnow : 0 ≤ now) (hnow' : now < 2 ^ 63)
    (h : refuseLoops now m.loops l.bounds = none) : LoopsFresh l.bounds now m := by
  intro name bound hmem
  obtain ⟨ns, hl, hle, hage⟩ := (refuseLoops_eq_none_iff now m.loops l.bounds).1 h _ hmem
  have hns : 0 ≤ ns ∧ ns < 2 ^ 63 := by
    obtain ⟨_, _, hsplit, -⟩ := List.lookup_eq_some_iff.1 hl
    exact m.loops_nonneg (name, ns) (by simp [hsplit])
  have hb := l.bounds_int64 _ hmem
  refine ⟨ns, hl, ?_, hle⟩
  have hdiff : wrap64 (now - ns) = now - ns := wrap64_of_int64 ⟨by omega, by omega⟩
  rw [hdiff, add_comm] at hage
  have hsum := le_of_le_wrap64 (by omega) (by decide) (by decide) hb hage
  omega

theorem accept_ok {e : ℤ} (h : l.accept now m = (.ok e, l')) :
    l.revoked = false ∧ l.lapsed = false ∧ now < l.deadline ∧ m.gen = l.gen ∧ l.lastSeq < m.seq ∧
      refuseLoops now m.loops l.bounds = none ∧ e = wrap64 (now + l.grace) ∧
      l' = { l with lastSeq := m.seq, accepted := true, deadline := e } := by
  unfold accept at h
  cases hr : (l.noteExpiry now).refusal now m with
  | some reason => simp [hr] at h
  | none =>
    simp only [hr] at h
    obtain ⟨rfl, rfl⟩ := h
    obtain ⟨h1, h2, h3, h4, h5⟩ := refusal_eq_none hr
    rw [noteExpiry_revoked] at h1
    obtain ⟨he, hlapsed, hlt⟩ := noteExpiry_of_live h1 h2
    rw [he] at h3 h4 h5 ⊢
    exact ⟨h1, hlapsed, hlt, h3, h4, h5, rfl, rfl⟩

theorem accept_error {reason : String}
    (h : l.accept now m = (.error reason, l')) : l' = l.noteExpiry now := by
  unfold accept at h
  cases hr : (l.noteExpiry now).refusal now m with
  | some reason => simp only [hr, Prod.mk.injEq] at h; exact h.2.symm
  | none => simp [hr] at h

theorem acceptStatus_true {gen : String} {seq : ℕ} (h : l.acceptStatus now gen seq = (true, l')) :
    l.revoked = false ∧ l.lapsed = false ∧ now < l.deadline ∧ gen = l.gen ∧ l.lastStatusSeq < seq ∧
      l' = { l with lastStatusSeq := seq } := by
  unfold acceptStatus at h
  dsimp only at h
  split_ifs at h with hif
  · cases h
  · simp only [Bool.or_eq_true, decide_eq_true_eq, not_or, Bool.not_eq_true, noteExpiry_revoked, not_not, not_le] at hif
    obtain ⟨⟨⟨h1, h2⟩, h3⟩, h4⟩ := hif
    obtain ⟨he, hlapsed, hlt⟩ := noteExpiry_of_live h1 h2
    simp only [he] at h h3 h4
    exact ⟨h1, hlapsed, hlt, h3, h4, (Prod.mk.inj h).2.symm⟩

theorem acceptStatus_false {gen : String} {seq : ℕ}
    (h : l.acceptStatus now gen seq = (false, l')) : l' = l.noteExpiry now := by
  unfold acceptStatus at h
  dsimp only at h
  split_ifs at h with hif
  · exact (Prod.mk.inj h).2.symm
  · cases h

theorem step_cases (l : Lease) (now : ℤ) (c : Call) :
    (∃ m e, c = .accept m ∧ l.accept now m = (.ok e, (l.step now c).2) ∧ (l.step now c).1 = .renewed e) ∨
    (∃ gen seq, c = .acceptStatus gen seq ∧ l.acceptStatus now gen seq = (true, (l.step now c).2) ∧
      (l.step now c).1 = .answer true) ∨
    (renewal (now, c, (l.step now c).1) = none ∧ statusRecord (now, c, (l.step now c).1) = none ∧
      ((l.step now c).2 = l ∨ (l.step now c).2 = l.noteExpiry now ∨ (l.step now c).2 = l.revoke)) := by
  cases c with
  | accept m =>
    cases ha : l.accept now m with
    | mk res l' =>
      cases res with
      | ok e => exact .inl ⟨m, e, rfl, by simp [step, ha]⟩
      | error reason =>
        refine .inr (.inr ⟨by simp [step, ha, renewal], rfl, ?_⟩)
        simp [step, ha, accept_error ha]
  | acceptStatus gen seq =>
    cases ha : l.acceptStatus now gen seq with
    | mk res l' =>
      cases res with
      | true => exact .inr (.inl ⟨gen, seq, rfl, by simp [step, ha]⟩)
      | false =>
        refine .inr (.inr ⟨rfl, by simp [step, ha, statusRecord], ?_⟩)
        simp [step, ha, acceptStatus_false ha]
  | held | lapsed | expiry => exact .inr (.inr ⟨rfl, rfl, .inl rfl⟩)
  | revoke => exact .inr (.inr ⟨rfl, rfl, .inr (.inr rfl)⟩)

/-! ### Runs -/

theorem step_fixed (l : Lease) (now : ℤ) (c : Call) :
    (l.step now c).2.grace = l.grace ∧ (l.step now c).2.bounds = l.bounds ∧
      (l.step now c).2.gen = l.gen := by
  rcases l.step_cases now c with ⟨m, e, -, h, -⟩ | ⟨_, _, -, h, -⟩ | ⟨-, -, h | h | h⟩
  · obtain ⟨-, -, -, -, -, -, -, h⟩ := accept_ok h
    rw [h]
    exact ⟨rfl, rfl, rfl⟩
  · obtain ⟨-, -, -, -, -, h⟩ := acceptStatus_true h
    rw [h]
    exact ⟨rfl, rfl, rfl⟩
  · rw [h]
    exact ⟨rfl, rfl, rfl⟩
  · rw [h]
    unfold noteExpiry
    split_ifs <;> exact ⟨rfl, rfl, rfl⟩
  · rw [h]
    exact ⟨rfl, rfl, rfl⟩

/-- An accepted renewal of a run was judged by a lease that still had the
generation, the grace and the bounds of the run's start. -/
theorem exists_accept_of_renewal (l : Lease) {e : ℤ} (h : (t, m, e) ∈ (l.trace calls).filterMap renewal) :
    (t, .accept m) ∈ calls ∧ ∃ l' l'' : Lease, l'.accept t m = (.ok e, l'') ∧
      l'.grace = l.grace ∧ l'.bounds = l.bounds ∧ l'.gen = l.gen := by
  induction calls generalizing l with
  | nil => simp [trace] at h
  | cons x rest ih =>
    obtain ⟨now, c⟩ := x
    obtain ⟨hg, hb, hgen⟩ := l.step_fixed now c
    have hrest := @ih (l.step now c).2
    rw [hg, hb, hgen] at hrest
    rw [trace, List.filterMap_cons] at h
    rcases l.step_cases now c with ⟨_, _, rfl, ha, hr⟩ | ⟨_, _, rfl, ha, hr⟩ | ⟨hr, -, -⟩
    · rw [hr] at h
      simp only [renewal, List.mem_cons] at h
      rcases h with ⟨rfl, rfl, rfl⟩ | h
      · exact ⟨(.head _), l, _, ha, rfl, rfl, rfl⟩
      · exact (hrest h).imp_left (.tail _)
    · exact (hrest h).imp_left (.tail _)
    · rw [hr] at h
      exact (hrest h).imp_left (.tail _)

theorem step_not_renewal {c : Call} (h : renewal (now, c, (l.step now c).1) = none) :
    (l.step now c).2.deadline = l.deadline ∧ (l.step now c).2.accepted = l.accepted ∧
      (l.step now c).2.lastSeq = l.lastSeq := by
  rcases l.step_cases now c with ⟨m, e, rfl, -, hr⟩ | ⟨_, _, rfl, ha, -⟩ | ⟨-, -, hl | hl | hl⟩
  · rw [hr] at h
    simp [renewal] at h
  · obtain ⟨-, -, -, -, -, hl⟩ := acceptStatus_true ha
    rw [hl]
    exact ⟨rfl, rfl, rfl⟩
  · rw [hl]
    exact ⟨rfl, rfl, rfl⟩
  · rw [hl]
    unfold noteExpiry
    split_ifs <;> exact ⟨rfl, rfl, rfl⟩
  · rw [hl]
    exact ⟨rfl, rfl, rfl⟩

theorem after_renewals (l : Lease) (calls : List (ℤ × Call)) :
    (l.after calls).deadline =
        (((l.trace calls).filterMap renewal).getLast?.map (·.2.2)).getD l.deadline ∧
      ((l.after calls).accepted = true ↔
        l.accepted = true ∨ (l.trace calls).filterMap renewal ≠ []) := by
  induction calls generalizing l with
  | nil => simp [after, trace]
  | cons x rest ih =>
    obtain ⟨now, c⟩ := x
    obtain ⟨hd, ha⟩ := ih (l.step now c).2
    rw [after, hd, ha, trace, List.filterMap_cons]
    cases hr : renewal (now, c, (l.step now c).1) with
    | none =>
      obtain ⟨h1, h2, -⟩ := step_not_renewal hr
      simp only [h1, h2, true_and]
    | some r =>
      -- the entry is an accepted renewal: the lease takes its expiry
      rcases l.step_cases now c with ⟨m, e, rfl, hacc, hres⟩ | ⟨_, _, rfl, -, -⟩ | ⟨hnone, -, -⟩
      · obtain ⟨-, -, -, -, -, -, -, hl⟩ := accept_ok hacc
        rw [hres] at hr
        obtain rfl : (now, m, e) = r := by simpa [renewal] using hr
        rw [hl]
        refine ⟨?_, by simp⟩
        rw [List.getLast?_cons, Option.map_some, Option.getD_some]
        generalize (List.filterMap renewal _).getLast? = last
        cases last <;> rfl
      · simp [renewal] at hr
      · rw [hnone] at hr
        cases hr

theorem deadline_after (l : Lease) (g : String) (start : ℤ) (calls : List (ℤ × Call)) :
    ((l.newGeneration g start).after calls).deadline =
      deadlineInForce start ((l.newGeneration g start).trace calls) :=
  ((l.newGeneration g start).after_renewals calls).1

theorem step_not_status {c : Call} (h : statusRecord (now, c, (l.step now c).1) = none) :
    (l.step now c).2.lastStatusSeq = l.lastStatusSeq := by
  rcases l.step_cases now c with ⟨m, e, rfl, ha, -⟩ | ⟨_, _, rfl, -, hr⟩ | ⟨-, -, hl | hl | hl⟩
  · obtain ⟨-, -, -, -, -, -, -, hl⟩ := accept_ok ha
    rw [hl]
  · rw [hr] at h
    simp [statusRecord] at h
  · rw [hl]
  · rw [hl]
    unfold noteExpiry
    split_ifs <;> rfl
  · rw [hl]
    rfl

theorem renewals_increase (l : Lease) (calls : List (ℤ × Call)) :
    (l.lastSeq :: ((l.trace calls).filterMap renewal).map (·.2.1.seq)).Pairwise (· < ·) := by
  induction calls generalizing l with
  | nil => simp [trace]
  | cons x rest ih =>
    obtain ⟨now, c⟩ := x
    have hrest := ih (l.step now c).2
    rw [trace, List.filterMap_cons]
    rcases l.step_cases now c with ⟨m, e, rfl, ha, hr⟩ | ⟨gen, seq, rfl, ha, hr⟩ | ⟨hr, -, -⟩
    · obtain ⟨-, -, -, -, hseq, -, -, hl⟩ := accept_ok ha
      rw [hr]
      rw [show (l.step now (.accept m)).2.lastSeq = m.seq by rw [hl]] at hrest
      refine List.pairwise_cons.2 ⟨fun s hs => ?_, hrest⟩
      rcases List.mem_cons.1 hs with rfl | hs
      · exact hseq
      · exact hseq.trans ((List.pairwise_cons.1 hrest).1 s hs)
    · have hnone : renewal (now, .acceptStatus gen seq, (l.step now (.acceptStatus gen seq)).1) = none := rfl
      rwa [hnone, ← (step_not_renewal hnone).2.2]
    · rwa [hr, ← (step_not_renewal hr).2.2]

theorem statuses_increase (l : Lease) (calls : List (ℤ × Call)) :
    (l.lastStatusSeq :: ((l.trace calls).filterMap statusRecord).map (·.2)).Pairwise (· < ·) ∧
      ∀ r ∈ (l.trace calls).filterMap statusRecord, r.1 = l.gen := by
  induction calls generalizing l with
  | nil => simp [trace]
  | cons x rest ih =>
    obtain ⟨now, c⟩ := x
    obtain ⟨hrest, hgens⟩ := ih (l.step now c).2
    rw [(l.step_fixed now c).2.2] at hgens
    rw [trace, List.filterMap_cons]
    rcases l.step_cases now c with ⟨m, e, rfl, ha, hr⟩ | ⟨gen, seq, rfl, ha, hr⟩ | ⟨-, hr, -⟩
    · have hnone : statusRecord (now, .accept m, (l.step now (.accept m)).1) = none := rfl
      rw [step_not_status hnone] at hrest
      exact ⟨hrest, hgens⟩
    · obtain ⟨-, -, -, hgen, hseq, hl⟩ := acceptStatus_true ha
      rw [hr]
      rw [show (l.step now (.acceptStatus gen seq)).2.lastStatusSeq = seq by rw [hl]] at hrest
      refine ⟨List.pairwise_cons.2 ⟨fun s hs => ?_, hrest⟩, List.forall_mem_cons.2 ⟨hgen, hgens⟩⟩
      rcases List.mem_cons.1 hs with rfl | hs
      · exact hseq
      · exact hseq.trans ((List.pairwise_cons.1 hrest).1 s hs)
    · rw [hr]
      rw [step_not_status hr] at hrest
      exact ⟨hrest, hgens⟩

/-- Revoked, or with a deadline that is noted as passed or has passed by `t`. -/
def Dead (l : Lease) (t : ℤ) : Prop := l.revoked = true ∨ l.lapsed = true ∨ l.deadline ≤ t

/-- A dead lease accepts nothing, is not held, and stays dead. -/
theorem Dead.step (h : l.Dead t) (hle : t ≤ now) (c : Call) :
    (l.step now c).2.Dead t ∧ renewal (now, c, (l.step now c).1) = none ∧
      statusRecord (now, c, (l.step now c).1) = none ∧ l.held now = false := by
  have hheld : l.held now = false := by
    rw [← Bool.not_eq_true, held]
    simp only [Bool.and_eq_true, Bool.not_eq_true', decide_eq_true_eq]
    rintro ⟨⟨⟨hr, hl⟩, -⟩, _⟩
    rcases h with h | h | h
    · rw [hr] at h; cases h
    · rw [hl] at h; cases h
    · omega
  rcases l.step_cases now c with ⟨m, e, -, ha, -⟩ | ⟨_, _, -, ha, -⟩ | ⟨hr, hs, hl⟩
  · obtain ⟨hr, hl, _, -⟩ := accept_ok ha
    rcases h with h | h | h
    · rw [hr] at h; cases h
    · rw [hl] at h; cases h
    · omega
  · obtain ⟨hr, hl, _, -⟩ := acceptStatus_true ha
    rcases h with h | h | h
    · rw [hr] at h; cases h
    · rw [hl] at h; cases h
    · omega
  · refine ⟨?_, hr, hs, hheld⟩
    rcases hl with hl | hl | hl
    · rwa [hl]
    · rw [hl]
      unfold noteExpiry
      split_ifs
      · exact .inr (.inl rfl)
      · exact h
    · rw [hl]
      exact .inl rfl

def Barren (entry : ℤ × Call × Response) : Prop :=
  renewal entry = none ∧ statusRecord entry = none ∧
    ∀ now b, entry = (now, .held, .answer b) → b = false

theorem Dead.trace (h : l.Dead t)
    (hlate : ∀ c ∈ calls, t ≤ c.1) : ∀ entry ∈ l.trace calls, Barren entry := by
  induction calls generalizing l with
  | nil => simp [Lease.trace]
  | cons x rest ih =>
    obtain ⟨_, c⟩ := x
    obtain ⟨hdead, hr, hs, hheld⟩ := h.step (hlate _ (.head _)) c
    refine List.forall_mem_cons.2 ⟨⟨hr, hs, ?_⟩, ih hdead fun c hc => hlate c (.tail _ hc)⟩
    rintro now' b heq
    obtain ⟨-, rfl, hb⟩ : _ = _ ∧ c = .held ∧ (l.step _ c).1 = .answer b := by simpa using heq
    rw [← (Response.answer.inj hb), hheld]

end Lease

/-! ### A stalled loop -/

theorem Clocked.mem {start : ℤ} (h : Clocked start now calls) :
    0 ≤ now ∧ now < 2 ^ 63 ∧ ∀ c ∈ calls, 0 ≤ c.1 ∧ c.1 ≤ now := by
  obtain ⟨h0, hsorted, hlt⟩ := h
  rw [List.cons_append, List.pairwise_cons, List.pairwise_append] at hsorted
  obtain ⟨hstart, -, -, hnow⟩ := hsorted
  refine ⟨h0.trans (hstart now (by simp)), hlt, fun c hc => ?_⟩
  have hmem := List.mem_map_of_mem (f := Prod.fst) hc
  exact ⟨h0.trans (hstart c.1 (by simp [hmem])), hnow _ hmem _ (by simp)⟩

/-- A held lease rests on a renewal of this generation accepted less than the
grace ago, all of whose loops were fresh then. -/
theorem held_renewal (l : Lease) (g : String) {start : ℤ}
    (hc : Clocked start now calls) (hheld : ((l.newGeneration g start).after calls).held now = true) :
    ∃ t m e, (t, m, e) ∈ ((l.newGeneration g start).trace calls).filterMap renewal ∧
      (t, .accept m) ∈ calls ∧ m.gen = g ∧ now - l.grace < t ∧ t ≤ now ∧ LoopsFresh l.bounds t m := by
  obtain ⟨-, hn, htimes⟩ := hc.mem
  simp only [Lease.held, Bool.and_eq_true, decide_eq_true_eq] at hheld
  obtain ⟨⟨-, hacc⟩, hlt⟩ := hheld
  obtain ⟨hd, ha⟩ := (l.newGeneration g start).after_renewals calls
  have hne := (ha.1 hacc).resolve_left (by simp [Lease.newGeneration])
  obtain ⟨⟨t, m, e⟩, hlast⟩ := Option.ne_none_iff_exists'.1 (mt List.getLast?_eq_none_iff.1 hne)
  have hmem := List.mem_of_getLast? hlast
  rw [hd, hlast] at hlt
  obtain ⟨hcall, _, _, haccept, hgrace, hbounds, hgen⟩ := Lease.exists_accept_of_renewal _ hmem
  obtain ⟨-, -, -, hg, -, hloops, he, -⟩ := Lease.accept_ok haccept
  have ht := htimes _ hcall
  have hfresh := Lease.loopsFresh_of_none ht.1 (lt_of_le_of_lt ht.2 hn) hloops
  rw [hbounds] at hfresh
  rw [hgrace] at he
  refine ⟨t, m, e, hmem, hcall, hg.trans hgen, ?_, ht.2, hfresh⟩
  rw [he] at hlt
  have hsum := le_of_le_wrap64 (by omega) ht.1 (by omega) l.grace_int64 hlt
  omega

/-- When from `T` on every renewal reports a time not after `T` for a loop with
bound `b`, the lease is not held once the bound, the slack and the grace are
over; and a held lease has a fresh renewal less than the grace old. -/
theorem stalled_loop_ends_lease (l : Lease) (g : String) (start now : ℤ) (calls : List (ℤ × Call))
    (hc : Clocked start now calls) :
    (∀ T b, (∃ name, (name, b) ∈ l.bounds) →
      (∀ t m, (t, Call.accept m) ∈ calls → T ≤ t →
        ∃ name ns, (name, b) ∈ l.bounds ∧ m.loops.lookup name = some ns ∧ ns ≤ T) →
      max (T + b + transitSlack + l.grace) start ≤ now →
      ((l.newGeneration g start).after calls).held now = false) ∧
    (((l.newGeneration g start).after calls).held now = true →
      ∃ t m e, (t, m, e) ∈ ((l.newGeneration g start).trace calls).filterMap renewal ∧ m.gen = g ∧
        now - l.grace < t ∧ t ≤ now ∧ LoopsFresh l.bounds t m) := by
  constructor
  · rintro T b ⟨name, hb⟩ hstall hmax
    rw [← Bool.not_eq_true]
    intro hheld
    obtain ⟨t, m, e, -, hcall, -, hgrace, -, hfresh⟩ := held_renewal l g hc hheld
    rcases le_or_gt T t with hT | hT
    · obtain ⟨name', ns, hb', hns, hle⟩ := hstall t m hcall hT
      obtain ⟨ns', hns', hage, -⟩ := hfresh name' b hb'
      obtain rfl : ns = ns' := Option.some.inj (hns.symm.trans hns')
      omega
    · obtain ⟨ns, -, hage, hle⟩ := hfresh name b hb
      omega
  · intro hheld
    obtain ⟨t, m, e, hmem, -, h⟩ := held_renewal l g hc hheld
    exact ⟨t, m, e, hmem, h⟩

/-- One supervised loop with a bound of three seconds, and a grace of ten. -/
def watcherLease : Lease where
  grace := 10 * second
  bounds := [("watcher", 3 * second)]
  grace_int64 := by decide
  bounds_nodup := by decide
  bounds_int64 := by decide

/-- A renewal whose loop completed its last step two seconds after boot. -/
def watcherMsg (seq : ℕ) : Msg where
  gen := "g"
  seq := seq
  loops := [("watcher", 2 * second)]
  loops_nodup := by decide
  loops_nonneg := by decide

/-- The lease starts at one second; the second renewal shows the stalled loop. -/
def stalledCalls : List (ℤ × Call) :=
  [(3 * second, .accept (watcherMsg 1)), (4 * second, .accept (watcherMsg 2)),
   (9 * second, .accept (watcherMsg 3))]

theorem stalled_loop_ends_lease_watcher :
    ((watcherLease.newGeneration "g" second).after stalledCalls).held (16 * second) = false ∧
      ∃ t m e, (t, m, e) ∈ ((watcherLease.newGeneration "g" second).trace stalledCalls).filterMap renewal ∧
        m.gen = "g" ∧ 13 * second - 10 * second < t ∧ t ≤ 13 * second ∧
        LoopsFresh watcherLease.bounds t m := by
  refine ⟨(stalled_loop_ends_lease watcherLease "g" second (16 * second) stalledCalls
      (by decide)).1 (2 * second) (3 * second) ⟨"watcher", by decide⟩ ?_ (by decide), ?_⟩
  · rintro t m hmem -
    simp only [stalledCalls, List.mem_cons, List.not_mem_nil,
      or_false] at hmem
    rcases hmem with ⟨-, rfl⟩ | ⟨-, rfl⟩ | ⟨-, rfl⟩ <;>
      exact ⟨"watcher", 2 * second, by decide, by decide, le_rfl⟩
  · exact (stalled_loop_ends_lease watcherLease "g" second (13 * second) stalledCalls
      (by decide)).2 (by decide)

/-! ### A lapsed lease -/

/-- Once the deadline in force has passed, no later call of the generation finds
the lease alive, whatever was called before; and what a generation accepts is
its own, with climbing sequence numbers. -/
theorem lapsed_lease_stays_lapsed (l : Lease) (g : String) (start : ℤ) (calls : List (ℤ × Call)) :
    (∀ t rest, deadlineInForce start ((l.newGeneration g start).trace calls) ≤ t →
      (∀ c ∈ rest, t ≤ c.1) →
      ∀ entry ∈ ((l.newGeneration g start).after calls).trace rest, Lease.Barren entry) ∧
    (((l.newGeneration g start).trace calls).filterMap renewal |>.map (·.2.1.seq)).Pairwise (· < ·) ∧
    (((l.newGeneration g start).trace calls).filterMap statusRecord |>.map (·.2)).Pairwise (· < ·) ∧
    (∀ r ∈ ((l.newGeneration g start).trace calls).filterMap renewal, r.2.1.gen = g) ∧
    ∀ r ∈ ((l.newGeneration g start).trace calls).filterMap statusRecord, r.1 = g := by
  obtain ⟨hstatus, hgens⟩ := (l.newGeneration g start).statuses_increase calls
  refine ⟨fun t rest hdead hlate => ?_, ?_, ?_, ?_, hgens⟩
  · rw [← l.deadline_after g start calls] at hdead
    exact Lease.Dead.trace (.inr (.inr hdead)) hlate
  · exact (List.pairwise_cons.1 ((l.newGeneration g start).renewals_increase calls)).2
  · exact (List.pairwise_cons.1 hstatus).2
  · rintro ⟨t, m, e⟩ hmem
    obtain ⟨-, l', _, haccept, -, -, hgen⟩ := Lease.exists_accept_of_renewal _ hmem
    obtain ⟨-, -, -, hg, -⟩ := Lease.accept_ok haccept
    exact hg.trans hgen

/-- Nothing was called between the deadline at fourteen seconds and the renewal at fifteen. -/
theorem lapsed_lease_stays_lapsed_late_renewal :
    deadlineInForce second ((watcherLease.newGeneration "g" second).trace stalledCalls) = 14 * second ∧
    ∀ entry ∈ ((watcherLease.newGeneration "g" second).after stalledCalls).trace
        [(15 * second, .accept (watcherMsg 4)), (15 * second, .held)], Lease.Barren entry :=
  ⟨by decide, (lapsed_lease_stays_lapsed watcherLease "g" second stalledCalls).1 (14 * second) _
    (by decide) (by decide)⟩

end Molebridge
