import Molebridge.Spec.Kernel
import Molebridge.Proofs.Walk

/-! The rule walk covers the kernel: however the open choices are decided, the
kernel's lookup ends in a place the walk lists (`kernelWalk_mem_walk`). Rule
matches, the choice of a route and the suppression of its result are covered one
by one; the run then follows the walk from rule to rule. -/

namespace Molebridge

theorem inPrefix_eq (p : Option Prefix) (a : Option Addr) : inPrefix p a = !outside p a := by
  cases p with
  | none => rfl
  | some p => cases a <;> simp [inPrefix, outside, Nat.pos_iff_ne_zero, Bool.beq_eq_decide_eq]

theorem inRange_eq (r : Option (ℕ × ℕ)) (v : ℕ) : inRange r v = !outsideRange r v := by
  cases r with
  | none => rfl
  | some r =>
    rw [Bool.eq_iff_iff]
    simp [inRange, outsideRange]

theorem all_eq_elim {α : Type} (f : α → Bool) (o : Option α) :
    o.all f = !(o.elim false fun v => !f v) := by
  cases o <;> simp

def decided (ch : Choices) (n : ℕ) (r : Rule) : Bool :=
  (r.oifName == "" || ch.oif n) &&
    (!(r.ext.other || r.bad || r.extraFlags != 0) || ch.selector n)

theorem kernelMatches_eq (ch : Choices) (n : ℕ) (r : Rule) (p : Packet) :
    kernelMatches ch n r p = ((selectorsAccept r p && decided ch n r) != r.invert) := by
  unfold kernelMatches selectorsAccept decided
  simp only [List.all_cons, id, inPrefix_eq, inRange_eq, all_eq_elim,
    Bool.or_and_distrib_left, Bool.not_or]
  ac_rfl

theorem decided_of_not_undecided {ch : Choices} {n : ℕ} {r : Rule} {p : Packet}
    (ha : selectorsAccept r p = true) (hu : undecided r p = false) : decided ch n r = true := by
  simp only [undecided, Bool.or_eq_false_iff, Bool.and_eq_false_iff] at hu
  obtain ⟨⟨⟨ho, hb⟩, hf⟩, hoif⟩ := hu
  have hoif' : r.oifName = "" := by
    have hlo : (r.oifName == "" || p.iif == "lo") = true := by
      simp only [selectorsAccept, List.all_cons, Bool.and_eq_true] at ha
      exact ha.2.1
    rcases hoif with h | h
    · simpa using h
    · simpa [h] using hlo
  have hf' : r.extraFlags = 0 := by simpa using hf
  simp [decided, ho, hb, hf', hoif']

theorem kernelMatches_of_decided {ch : Choices} {n : ℕ} {r : Rule} {p : Packet}
    (h : ruleMatches r p ≠ .maybe) : kernelMatches ch n r p = (ruleMatches r p == .yes) := by
  rw [kernelMatches_eq]
  unfold ruleMatches at h ⊢
  cases ha : selectorsAccept r p with
  | false => cases hi : r.invert <;> rfl
  | true =>
    have hu : undecided r p = false := by
      cases hu : undecided r p with
      | false => rfl
      | true => simp [ha, hu] at h
    rw [decided_of_not_undecided ha hu, hu]
    cases hi : r.invert <;> rfl

/-! ### The routes of a table -/

/-- The kernel uses a route that covers the destination as `routeApplies` says,
the open case decided by the choice. -/
theorem kernelUses_eq (s : State) (p : Packet) (c : Bool) (rt : Route) :
    kernelUses s p c rt = (rt.dst.elim false (·.contains p.dst) &&
      match s.routeApplies rt p with
      | .no => false
      | .yes => true
      | .maybe => c) := by
  have hdst : rt.dst.any (·.contains p.dst) = rt.dst.elim false (·.contains p.dst) := by
    cases rt.dst <;> rfl
  have htos : (rt.family == .v6 || rt.tos == 0 || rt.tos == p.tos) =
      !decide (rt.family = .v4 ∧ rt.tos ≠ 0 ∧ rt.tos ≠ p.tos) := by
    cases rt.family <;> simp [Bool.beq_eq_decide_eq]
  unfold kernelUses State.routeApplies
  rw [hdst, htos, inPrefix_eq, Bool.and_assoc, Bool.and_assoc, Bool.and_assoc]
  by_cases h4 : rt.family = .v4 ∧ rt.tos ≠ 0 ∧ rt.tos ≠ p.tos
  · rw [if_pos h4, decide_eq_true h4]; rfl
  rw [if_neg h4, decide_eq_false h4]
  cases hout : outside rt.src p.src with
  | true => rfl
  | false =>
    cases hf : rt.faulty <;> cases rt.iif with
    | none => simp
    | some iif =>
      simp only [iifDecision]
      split_ifs <;> simp_all

theorem addRoute_mono (r : Rule) (rt : Route) (acc : List Outcome × Bool) :
    acc.1 ⊆ (State.addRoute r rt acc).1 ∧ (acc.2 = true → (State.addRoute r rt acc).2 = true) := by
  unfold State.addRoute
  cases disposition rt with
  | none => simp
  | some o => dsimp only; split_ifs <;> simp +contextual

theorem addRoute_covers (r : Rule) (rt : Route) (sup : Bool) (acc : List Outcome × Bool) :
    (∀ o, kernelAnswer r rt sup = some o → o ∈ (State.addRoute r rt acc).1) ∧
      (kernelAnswer r rt sup = none → (State.addRoute r rt acc).2 = true) := by
  have hany : r.suppressPrefixLen.any (rt.len ≤ ·) = r.suppressPrefixLen.elim false (rt.len ≤ ·) := by
    cases r.suppressPrefixLen <;> rfl
  unfold kernelAnswer State.addRoute
  cases disposition rt with
  | none => simp
  | some o => dsimp only; rw [hany]; split_ifs <;> simp_all

namespace State

theorem scanRoutes_mono (s : State) (r : Rule) (p : Packet) (l : List Route)
    (acc : List Outcome × Bool) :
    acc.1 ⊆ (s.scanRoutes r p l acc).1 ∧ (acc.2 = true → (s.scanRoutes r p l acc).2 = true) := by
  induction l generalizing acc with
  | nil => simp [scanRoutes]
  | cons rt t ih =>
    unfold scanRoutes
    have hadd := addRoute_mono r rt acc
    cases s.routeApplies rt p with
    | no => exact ih acc
    | yes => exact hadd
    | maybe =>
      have hrest := ih (addRoute r rt acc)
      exact ⟨List.Subset.trans hadd.1 hrest.1, fun h => hrest.2 (hadd.2 h)⟩

theorem scanRoutes_covers (s : State) (r : Rule) (p : Packet) (sup : Bool) (c : ℕ → Bool)
    (l : List (Route × ℕ)) (hl : ∀ x ∈ l, x.1.dst.elim false (·.contains p.dst) = true)
    (acc : List Outcome × Bool) (a : Option Outcome)
    (ha : ((l.find? fun x => kernelUses s p (c x.2) x.1).bind fun x => kernelAnswer r x.1 sup) = a) :
    (∀ o, a = some o → o ∈ (s.scanRoutes r p (l.map Prod.fst) acc).1) ∧
      (a = none → (s.scanRoutes r p (l.map Prod.fst) acc).2 = true) := by
  induction l generalizing acc with
  | nil => subst ha; simp [scanRoutes]
  | cons x t ih =>
    have ih := ih fun y hy => hl y (.tail _ hy)
    have hx : kernelUses s p (c x.2) x.1 = match s.routeApplies x.1 p with
        | .no => false
        | .yes => true
        | .maybe => c x.2 := by
      rw [kernelUses_eq, hl x (.head _), Bool.true_and]
    rw [List.find?_cons] at ha
    unfold scanRoutes
    simp only [List.map_cons]
    cases happ : s.routeApplies x.1 p with
    | no =>
      simp only [happ] at hx
      rw [hx] at ha
      exact ih acc ha
    | yes =>
      simp only [happ] at hx
      rw [hx] at ha
      rw [← ha]
      exact addRoute_covers r x.1 sup acc
    | maybe =>
      simp only [happ] at hx
      cases hc : c x.2 with
      | false =>
        rw [hx, hc] at ha
        exact ih _ ha
      | true =>
        -- used: its answer is in the accumulator, and the rest of the scan keeps it
        rw [hx, hc] at ha
        have hadd := addRoute_covers r x.1 sup acc
        have hrest := s.scanRoutes_mono r p (t.map Prod.fst) (addRoute r x.1 acc)
        rw [← ha]
        exact ⟨fun o ho => hrest.1 (hadd.1 o ho), fun h => hrest.2 (hadd.2 h)⟩

end State

/-! ### Lookups and runs -/

def tosRank (v4 : Bool) (rt : Route) : ℕ := if v4 && rt.tos ≠ 0 then 0 else 1

theorem routeLess_iff (v4 : Bool) (a b : Route) :
    routeLess v4 a b = true ↔ b.len < a.len ∨ (a.len = b.len ∧ (tosRank v4 a < tosRank v4 b ∨
      (tosRank v4 a = tosRank v4 b ∧ a.metric < b.metric))) := by
  unfold routeLess tosRank
  by_cases hl : a.len = b.len
  · by_cases ha : a.tos = 0#8 <;> by_cases hb : b.tos = 0#8 <;> cases v4 <;> simp [hl, ha, hb]
  · simp [hl]

theorem routeLess_negTrans (v4 : Bool) : NegTrans (routeLess v4) := by
  intro a b c hab hbc
  simp only [← Bool.not_eq_true, routeLess_iff] at *
  omega

theorem routeLess_asymm (v4 : Bool) (a b : Route) (h : routeLess v4 a b = true) :
    routeLess v4 b a = false := by
  simp only [← Bool.not_eq_true, routeLess_iff] at *
  omega

theorem firstMin_usable (s : State) (p : Packet) (table : ℕ) (c : ℕ → Bool) :
    ∃ l : List (Route × ℕ), l.map Prod.fst = s.candidates p table ∧
      firstMin (fun a b => routeLess (p.f == .v4) a.1 b.1)
        ((s.tableRoutes p.f table).zipIdx.filter fun x => kernelUses s p (c x.2) x.1) =
      l.find? fun x => kernelUses s p (c x.2) x.1 := by
  let covers : Route → Bool := fun rt => rt.dst.elim false (·.contains p.dst)
  let L := (s.tableRoutes p.f table).zipIdx.filter fun x => covers x.1
  refine ⟨insertSort (fun a b => routeLess (p.f == .v4) a.1 b.1) L, ?_, ?_⟩
  · rw [map_insertSort (routeLess (p.f == .v4)) Prod.fst L]
    have hmap : L.map Prod.fst = (s.tableRoutes p.f table).filter covers := by
      conv_rhs => rw [← List.zipIdx_map_fst 0 (s.tableRoutes p.f table), List.filter_map]
      rfl
    rw [hmap]; rfl
  · have nt := routeLess_negTrans (p.f == .v4)
    have as := routeLess_asymm (p.f == .v4)
    rw [find?_insertSort (fun a b c => nt a.1 b.1 c.1) (fun a b => as a.1 b.1), List.filter_filter]
    congr 2
    funext x
    rw [kernelUses_eq]
    cases hx : covers x.1 <;> simp [covers] at hx <;> simp [hx]

theorem kernelLookup_covered (s : State) (ch : Choices) (n : ℕ) (r : Rule) (p : Packet) :
    (∀ o, kernelLookup s ch n r p = some o → o ∈ (s.lookup r p).1) ∧
      (kernelLookup s ch n r p = none → (s.lookup r p).2 = true) := by
  unfold kernelLookup State.lookup
  by_cases hloc : r.table = tableLocal
  · split_ifs <;> simp
  rw [if_neg hloc, if_neg hloc]
  cases hk : s.known.contains r.table with
  | false => simp
  | true =>
    obtain ⟨l, hl, hfirst⟩ := firstMin_usable s p r.table (ch.used n)
    have hcov : ∀ x ∈ l, x.1.dst.elim false (·.contains p.dst) = true := by
      intro x hx
      have hx' : x.1 ∈ s.candidates p r.table := hl ▸ List.mem_map_of_mem hx
      exact (List.mem_filter.1 ((mem_insertSort _ _ _).1 hx')).2
    simp only [hfirst, ← hl]
    exact s.scanRoutes_covers r p (ch.suppressed n) (ch.used n) l hcov ([], false) _ rfl

theorem kernelRun_skip (s : State) (ch : Choices) (p : Packet) (t : ℕ) (rules : List Rule) (j : ℕ)
    (h : rules.findIdx? (·.priority == t) = some j) :
    kernelRun s ch p (some t) rules = kernelRun s ch p none (rules.drop j) := by
  induction rules generalizing j with
  | nil => cases h
  | cons r later ih =>
    rw [List.findIdx?_cons] at h
    by_cases hr : r.priority = t
    · obtain rfl : 0 = j := by simpa [hr] using h
      simp [kernelRun, hr]
    · simp only [beq_iff_eq, hr, if_false, Option.map_eq_some_iff] at h
      obtain ⟨i, hi, rfl⟩ := h
      rw [kernelRun, if_pos (by simpa using Ne.symm hr), ih i hi, List.drop_succ_cons]

theorem kernelRun_goto (s : State) (ch : Choices) (p : Packet) (r : Rule) (later : List Rule) :
    kernelRun s ch p (r.goto.filter fun t => later.any (·.priority == t)) later =
      kernelRun s ch p none (State.gotoTarget r later) := by
  unfold State.gotoTarget
  cases r.goto with
  | none => rfl
  | some t =>
    dsimp only
    cases hj : later.findIdx? (·.priority == t) with
    | none =>
      have hany : later.any (·.priority == t) = false := by
        simpa using hj
      rw [Option.filter_some, if_neg (by simp [hany])]
    | some j =>
      have hany : later.any (·.priority == t) = true := by
        rw [← List.findIdx?_isSome, hj]; rfl
      rw [Option.filter_some, if_pos hany]
      exact kernelRun_skip s ch p t later j hj

theorem gotoTarget_suffix (r : Rule) (later : List Rule) : State.gotoTarget r later <:+ later := by
  unfold State.gotoTarget
  split
  · exact List.suffix_refl _
  · split
    · exact List.suffix_refl _
    · exact List.drop_suffix _ _

/-- What a rule that matches leads the kernel to is covered, when the walk from
every later rule is. -/
theorem kernelRun_taken (s : State) (ch : Choices) (p : Packet) (r : Rule) (later : List Rule)
    (hm : kernelMatches ch later.length r p = true)
    (ih : ∀ l, l <:+ later → (kernelRun s ch p none l).place ∈ places (s.walkFrom p l)) :
    (kernelRun s ch p none (r :: later)).place ∈ places (s.takenFrom p r later) := by
  rw [kernelRun, if_neg (by simp), if_neg (by simp [hm])]
  split_ifs with ht hr hg
  · rw [s.mem_places_takenFrom_lookup p later ht]
    obtain ⟨hsome, hnone⟩ := kernelLookup_covered s ch later.length r p
    cases ho : kernelLookup s ch later.length r p with
    | some o => exact .inl (List.mem_map_of_mem (hsome o ho))
    | none => exact .inr ⟨hnone ho, ih later (List.suffix_refl _)⟩
  · rw [s.takenFrom_reject p later hr]
    simp [places, Outcome.place]
  · rw [s.takenFrom_goto p later hg, kernelRun_goto]
    exact ih _ (gotoTarget_suffix r later)
  · rw [s.takenFrom_other p later ht hg hr]
    exact ih later (List.suffix_refl _)

theorem kernelRun_covered (s : State) (ch : Choices) (p : Packet) (rules l : List Rule)
    (hl : l <:+ rules) : (kernelRun s ch p none l).place ∈ places (s.walkFrom p l) := by
  -- over all suffixes at once: a goto continues at one
  induction rules generalizing l with
  | nil =>
    obtain rfl := List.suffix_nil.1 hl
    simp [kernelRun, places, Outcome.place]
  | cons r later ih =>
    rcases List.suffix_cons_iff.1 hl with rfl | hl
    · cases hm : ruleMatches r p with
      | no =>
        have hk : kernelMatches ch later.length r p = false := by
          rw [kernelMatches_of_decided (by simp [hm]), hm]; rfl
        rw [s.walkFrom_cons_no p later hm, kernelRun, if_neg (by simp), if_pos (by simp [hk])]
        exact ih later (List.suffix_refl _)
      | yes =>
        rw [s.walkFrom_cons_yes p later hm]
        refine kernelRun_taken s ch p r later ?_ ih
        rw [kernelMatches_of_decided (by simp [hm]), hm]; rfl
      | maybe =>
        rw [s.mem_places_walkFrom_cons_maybe p later hm]
        cases hk : kernelMatches ch later.length r p with
        | true => exact .inl (kernelRun_taken s ch p r later hk ih)
        | false =>
          right
          rw [kernelRun, if_neg (by simp), if_pos (by simp [hk])]
          exact ih later (List.suffix_refl _)
    · exact ih l hl

/-- Soundness of the walk: whatever the open choices, the kernel's lookup ends in
a place that the walk lists. -/
theorem kernelWalk_mem_walk (s : State) (p : Packet) (ch : Choices) :
    ∃ o ∈ s.walk p, (kernelWalk s ch p).same o = true := by
  have h := kernelRun_covered s ch p (s.rules p.f) _ (List.suffix_refl _)
  obtain ⟨o, ho, he⟩ := List.mem_map.1 h
  exact ⟨o, ho, (same_iff _ _).2 he.symm⟩

end Molebridge
