import Molebridge.Spec.Policy

/-! The rule walk from an arbitrary rule on (`State.walkFrom`): its unfolding
rule by rule, and what its outcomes are up to the rule and the decisions that
led to them. -/

namespace Molebridge

theorem same_iff (o x : Outcome) : o.same x = true ↔ o.place = x.place := by
  simp [Outcome.same]

theorem mem_union (o : Outcome) (a b : List Outcome) : o ∈ union a b ↔ o ∈ a ∨ o ∈ b := by
  unfold union
  induction b generalizing a with
  | nil => simp
  | cons x t ih =>
    simp only [List.foldl_cons, ih, List.mem_cons]
    split_ifs with hx
    · have hx : x ∈ a := by simpa using hx
      constructor
      · tauto
      · rintro (h | rfl | h) <;> tauto
    · simp only [List.mem_append, List.mem_singleton]; tauto

def places (set : List Outcome) : List Outcome := set.map Outcome.place

@[simp] theorem places_tag (set : List Outcome) (d : BitVec 64) : places (tag set d) = places set := by
  simp [places, tag, Outcome.place]

theorem mem_places_union (o : Outcome) (a b : List Outcome) :
    o ∈ places (union a b) ↔ o ∈ places a ∨ o ∈ places b := by
  simp only [places, List.mem_map, mem_union]
  constructor
  · rintro ⟨x, hx | hx, rfl⟩
    · exact .inl ⟨x, hx, rfl⟩
    · exact .inr ⟨x, hx, rfl⟩
  · rintro (⟨x, hx, rfl⟩ | ⟨x, hx, rfl⟩)
    · exact ⟨x, .inl hx, rfl⟩
    · exact ⟨x, .inr hx, rfl⟩

namespace State

theorem walkSets_cons (s : State) (p : Packet) (r : Rule) (later : List Rule) :
    s.walkSets p (r :: later) =
      s.arrive p r later (s.walkSets p later) :: s.walkSets p later := rfl

/-- The outcomes of the walk that arrives at the first of `rules`. -/
def walkFrom (s : State) (p : Packet) (rules : List Rule) : List Outcome :=
  (s.walkSets p rules).headD []

theorem walk_eq_walkFrom (s : State) (p : Packet) : s.walk p = s.walkFrom p (s.rules p.f) := rfl

@[simp] theorem walkFrom_nil (s : State) (p : Packet) :
    s.walkFrom p [] = [{ kind := .stopped, byRule := endHash }] := rfl

theorem walkSets_getD (s : State) (p : Packet) (rules : List Rule) (j : ℕ) (hj : j ≤ rules.length) :
    (s.walkSets p rules).getD j [] = s.walkFrom p (rules.drop j) := by
  induction rules generalizing j with
  | nil =>
    obtain rfl : j = 0 := by simpa using hj
    rfl
  | cons r later ih =>
    cases j with
    | zero => rfl
    | succ j =>
      exact ih j (by simpa using hj)

/-- `taken` over the walks from the later rules. -/
def takenFrom (s : State) (p : Packet) (r : Rule) (later : List Rule) : List Outcome :=
  s.taken p r later (s.walkSets p later)

variable {r : Rule}

theorem walkFrom_cons_no (s : State) (p : Packet) (later : List Rule)
    (h : ruleMatches r p = .no) : s.walkFrom p (r :: later) = s.walkFrom p later := by
  simp [walkFrom, walkSets_cons, arrive, h]

theorem walkFrom_cons_yes (s : State) (p : Packet) (later : List Rule)
    (h : ruleMatches r p = .yes) : s.walkFrom p (r :: later) = s.takenFrom p r later := by
  simp [walkFrom, walkSets_cons, arrive, h, takenFrom]

theorem mem_places_walkFrom_cons_maybe (s : State) (p : Packet) (later : List Rule)
    (h : ruleMatches r p = .maybe) (o : Outcome) :
    o ∈ places (s.walkFrom p (r :: later)) ↔
      o ∈ places (s.takenFrom p r later) ∨ o ∈ places (s.walkFrom p later) := by
  simp [walkFrom, walkSets_cons, arrive, h, takenFrom, mem_places_union]

def gotoTarget (r : Rule) (later : List Rule) : List Rule :=
  match r.goto with
  | none => later
  | some t => match later.findIdx? (·.priority == t) with
    | none => later
    | some j => later.drop j

theorem takenFrom_goto (s : State) (p : Packet) (later : List Rule)
    (h : r.action = frActGoto) : s.takenFrom p r later = s.walkFrom p (gotoTarget r later) := by
  unfold takenFrom taken gotoTarget
  rw [if_neg (by simp [h, frActGoto, frActToTbl]),
    if_neg (by simp [h, frActGoto, frActUnreachable, frActProhibit, frActBlackhole]), if_pos h]
  cases r.goto with
  | none => rfl
  | some t =>
    dsimp only
    cases hj : later.findIdx? (·.priority == t) with
    | none => rfl
    | some j =>
      have hlt := (List.findIdx?_eq_some_iff_findIdx_eq.1 hj).1
      exact s.walkSets_getD p later j hlt.le

theorem takenFrom_reject (s : State) (p : Packet) (later : List Rule)
    (h : r.action = frActUnreachable ∨ r.action = frActProhibit ∨ r.action = frActBlackhole) :
    s.takenFrom p r later = [{ kind := .stopped, byRule := ruleHash r }] := by
  have hne : r.action ≠ frActToTbl := by
    rcases h with h | h | h <;> rw [h] <;> decide
  simp [takenFrom, taken, hne, h]

theorem takenFrom_other (s : State) (p : Packet) (later : List Rule)
    (ht : r.action ≠ frActToTbl) (hg : r.action ≠ frActGoto)
    (hr : ¬(r.action = frActUnreachable ∨ r.action = frActProhibit ∨ r.action = frActBlackhole)) :
    s.takenFrom p r later = s.walkFrom p later := by
  simp only [takenFrom, taken, if_neg ht, if_neg hg, if_neg hr]; rfl

theorem mem_places_takenFrom_lookup (s : State) (p : Packet) (later : List Rule)
    (h : r.action = frActToTbl) (o : Outcome) :
    o ∈ places (s.takenFrom p r later) ↔
      o ∈ places (s.lookup r p).1 ∨ ((s.lookup r p).2 = true ∧ o ∈ places (s.walkFrom p later)) := by
  have hby : places ((s.lookup r p).1.map fun o => { o with byRule := ruleHash r })
      = places (s.lookup r p).1 := by
    simp [places, Outcome.place]
  simp only [takenFrom, taken, if_pos h]
  cases hfall : (s.lookup r p).2 with
  | false => simp [hby]
  | true =>
    cases houts : (s.lookup r p).1 with
    | nil => simp [places, walkFrom]
    | cons x t =>
      rw [houts] at hby
      rw [if_neg (by simp), if_neg (by simp), mem_places_union, places_tag, places_tag, hby]
      simp only [true_and, walkFrom]

theorem walkFrom_eq_of_lookup {s s' : State} {p : Packet} {rules : List Rule}
    (h : ∀ r ∈ rules, s.lookup r p = s'.lookup r p) : s.walkFrom p rules = s'.walkFrom p rules := by
  have hsets : s.walkSets p rules = s'.walkSets p rules := by
    induction rules with
    | nil => rfl
    | cons r later ih =>
      have ih := ih fun x hx => h x (.tail _ hx)
      rw [walkSets_cons, walkSets_cons, ih]
      unfold arrive taken
      rw [h r (.head _)]
  unfold walkFrom
  rw [hsets]

theorem scanRoutes_eq_of_applies {s s' : State} {r : Rule} {p : Packet} (l : List Route)
    (h : ∀ rt ∈ l, s.routeApplies rt p = s'.routeApplies rt p) (acc : List Outcome × Bool) :
    s.scanRoutes r p l acc = s'.scanRoutes r p l acc := by
  induction l generalizing acc with
  | nil => rfl
  | cons rt t ih =>
    have ih := ih fun x hx => h x (.tail _ hx)
    unfold scanRoutes
    rw [h rt (.head _)]
    cases s'.routeApplies rt p with
    | no => exact ih acc
    | yes => rfl
    | maybe => exact ih _

end State

end Molebridge
