import Molebridge.Lib.Entries
import Molebridge.Proofs.Judged
import Molebridge.Proofs.OverlayRules
import Molebridge.Spec.Requests

/-! What an addition can open. A rule that is harmless to a packet, put anywhere
among the rules, leads it to no new place but harmless ones, as long as no goto
was waiting for its priority; a route that surely answers, put into a table that
is looked up without suppressors, leads it to no new place but its own. -/

namespace Molebridge

variable {old : List Route}

/-! ### A place in a sorted list -/

section Sorted

variable {α : Type} {less : α → α → Bool}

theorem sink_splits (x : α) (l : List α) : ∃ a b, l = a ++ b ∧ sink less x l = a ++ x :: b := by
  induction l with
  | nil => exact ⟨[], [], rfl, rfl⟩
  | cons y t ih =>
    unfold sink
    split_ifs
    · obtain ⟨a, b, rfl, hs⟩ := ih
      exact ⟨y :: a, b, rfl, by rw [hs]; rfl⟩
    · exact ⟨[], y :: t, rfl, rfl⟩

theorem sinkAll_append (acc l : List α) (x : α) :
    sinkAll less acc (l ++ [x]) = sink less x (sinkAll less acc l) := by
  induction l generalizing acc with
  | nil => rfl
  | cons y t ih => exact ih _

theorem insertSort_append (less : α → α → Bool) (l : List α) (x : α) :
    ∃ a b, insertSort less l = a ++ b ∧ insertSort less (l ++ [x]) = a ++ x :: b := by
  obtain ⟨a, b, hl, hs⟩ := sink_splits x (sinkAll less [] l)
  refine ⟨b.reverse, a.reverse, ?_, ?_⟩
  · rw [insertSort, hl, List.reverse_append]
  · rw [insertSort, sinkAll_append, hs]
    simp

theorem insertSort_replace {x y : α} (hl : ∀ z, less x z = less y z) (hr : ∀ z, less z x = less z y)
    (l₁ l₂ : List α) : ∃ a b b', insertSort less (l₁ ++ x :: l₂) = a ++ x :: b ∧
      insertSort less (l₁ ++ y :: l₂) = a ++ y :: b' := by
  -- the two lists are one list with a slot for the element
  let slots : List (Option α) := l₁.map some ++ none :: l₂.map some
  have hmap : ∀ w : α, slots.map (·.getD w) = l₁ ++ w :: l₂ := by
    simp [slots]
  have hless : (fun a b : Option α => less (a.getD x) (b.getD x)) = fun a b => less (a.getD y) (b.getD y) := by
    funext a b
    cases a <;> cases b <;> simp [hl, hr]
  have hx := map_insertSort less (fun a : Option α => a.getD x) slots
  have hy := map_insertSort less (fun a : Option α => a.getD y) slots
  rw [hmap] at hx hy
  rw [hless] at hx
  have hmem : none ∈ insertSort (fun a b : Option α => less (a.getD y) (b.getD y)) slots := by
    simp [slots]
  obtain ⟨a, b, hs, hnone⟩ := List.eq_append_cons_of_mem hmem
  rw [hs] at hx hy
  refine ⟨a.map (·.getD x), b.map (·.getD x), b.map (·.getD y), by simp [← hx], ?_⟩
  have ha : a.map (·.getD y) = a.map (·.getD x) := by
    refine List.map_congr_left fun o ho => ?_
    cases o with
    | none => exact absurd ho hnone
    | some v => rfl
  simp [← hy, ha]

end Sorted

namespace State

variable {r : Route} {t : ℕ} {x : Rule} {f : Family}

section Walks

variable {s s' : State} {p : Packet} {C : Outcome → Prop}

/-- Every place of the first set is one of the second, or in `C`. -/
def Opens (C : Outcome → Prop) (a b : List Outcome) : Prop := ∀ o ∈ places a, C o ∨ o ∈ places b

theorem Opens.refl (a : List Outcome) : Opens C a a := fun _ => .inr

/-! ### A rule -/

/-- Where a goto to a priority continues among the rules, if there is such a rule. -/
def jump (t : ℕ) (rules : List Rule) : Option (List Rule) :=
  (rules.findIdx? (·.priority == t)).map rules.drop

theorem gotoTarget_eq (x : Rule) (later : List Rule) :
    gotoTarget x later = (x.goto.bind fun t => jump t later).getD later := by
  unfold gotoTarget jump
  cases x.goto with
  | none => rfl
  | some t => cases h : later.findIdx? (·.priority == t) <;> simp [h]

theorem jump_cons (t : ℕ) (y : Rule) (l : List Rule) :
    jump t (y :: l) = if y.priority = t then some (y :: l) else jump t l := by
  unfold jump
  rw [List.findIdx?_cons]
  split_ifs with h h' h'
  · simp
  · simp_all
  · simp_all
  · cases l.findIdx? (·.priority == t) <;> simp

theorem jump_insert {r : Rule} (hne : r.priority ≠ t) (l₁ l₂ : List Rule) :
    (∃ l, l <:+ l₁ ∧ jump t (l₁ ++ r :: l₂) = some (l ++ r :: l₂) ∧ jump t (l₁ ++ l₂) = some (l ++ l₂)) ∨
      jump t (l₁ ++ r :: l₂) = jump t (l₁ ++ l₂) := by
  induction l₁ with
  | nil =>
    right
    rw [List.nil_append, List.nil_append, jump_cons, if_neg hne]
  | cons y l ih =>
    rw [List.cons_append, List.cons_append, jump_cons, jump_cons]
    by_cases hy : y.priority = t
    · rw [if_pos hy, if_pos hy]
      exact .inl ⟨y :: l, List.suffix_refl _, rfl, rfl⟩
    · rw [if_neg hy, if_neg hy]
      rcases ih with ⟨l', hl, h₁, h₂⟩ | h
      · exact .inl ⟨l', hl.trans (List.suffix_cons y l), h₁, h₂⟩
      · exact .inr h

theorem opens_takenFrom {l' l : List Rule}
    (hlook : x.action = frActToTbl → Opens C (s'.lookup x p).1 (s.lookup x p).1 ∧
      ((s'.lookup x p).2 = true → (s.lookup x p).2 = true))
    (hnext : Opens C (s'.walkFrom p l') (s.walkFrom p l))
    (hgoto : x.action = frActGoto → Opens C (s'.walkFrom p (gotoTarget x l')) (s.walkFrom p (gotoTarget x l))) :
    Opens C (s'.takenFrom p x l') (s.takenFrom p x l) := by
  intro o ho
  by_cases ht : x.action = frActToTbl
  · obtain ⟨houts, hfall⟩ := hlook ht
    rw [mem_places_takenFrom_lookup s p l ht]
    rcases (mem_places_takenFrom_lookup s' p l' ht o).1 ho with ho | ⟨hf, ho⟩
    · exact (houts o ho).imp_right .inl
    · exact (hnext o ho).imp_right fun h => .inr ⟨hfall hf, h⟩
  · by_cases hg : x.action = frActGoto
    · rw [takenFrom_goto s' p l' hg] at ho
      rw [takenFrom_goto s p l hg]
      exact hgoto hg o ho
    · by_cases hr : x.action = frActUnreachable ∨ x.action = frActProhibit ∨ x.action = frActBlackhole
      · rw [takenFrom_reject s' p l' hr] at ho
        rw [takenFrom_reject s p l hr]
        exact .inr ho
      · rw [takenFrom_other s' p l' ht hg hr] at ho
        rw [takenFrom_other s p l ht hg hr]
        exact hnext o ho

theorem opens_walkFrom_cons {l' l : List Rule} (hnext : Opens C (s'.walkFrom p l') (s.walkFrom p l))
    (htaken : Opens C (s'.takenFrom p x l') (s.takenFrom p x l)) :
    Opens C (s'.walkFrom p (x :: l')) (s.walkFrom p (x :: l)) := by
  intro o ho
  cases hm : ruleMatches x p with
  | no =>
    rw [walkFrom_cons_no s' p l' hm] at ho
    rw [walkFrom_cons_no s p l hm]
    exact hnext o ho
  | yes =>
    rw [walkFrom_cons_yes s' p l' hm] at ho
    rw [walkFrom_cons_yes s p l hm]
    exact htaken o ho
  | maybe =>
    rw [mem_places_walkFrom_cons_maybe s p l hm]
    rcases (mem_places_walkFrom_cons_maybe s' p l' hm o).1 ho with ho | ho
    · exact (htaken o ho).imp_right .inl
    · exact (hnext o ho).imp_right .inr

theorem opens_insert {r : Rule} (hr : s.Harmless p C r) (hC : C { kind := .stopped }) (l₁ l₂ : List Rule)
    (hgoto : ∀ x ∈ l₁, x.action = frActGoto → x.goto ≠ some r.priority) :
    Opens C (s.walkFrom p (l₁ ++ r :: l₂)) (s.walkFrom p (l₁ ++ l₂)) := by
  -- a goto continues at a suffix, so the statement is about every suffix of `l₁`
  suffices ∀ l, l <:+ l₁ → Opens C (s.walkFrom p (l ++ r :: l₂)) (s.walkFrom p (l ++ l₂)) from
    this l₁ (List.suffix_refl _)
  induction l₁ with
  | nil =>
    intro l hl
    obtain rfl := List.suffix_nil.1 hl
    exact hr.walkFrom hC
  | cons x t ih =>
    have ih := ih fun y hy => hgoto y (.tail x hy)
    intro l hl
    rcases List.suffix_cons_iff.1 hl with rfl | hl
    · rw [List.cons_append, List.cons_append]
      refine opens_walkFrom_cons (ih t (List.suffix_refl _)) (opens_takenFrom (fun _ => ⟨Opens.refl _, id⟩)
        (ih t (List.suffix_refl _)) fun hact => ?_)
      rw [gotoTarget_eq, gotoTarget_eq]
      cases hx : x.goto with
      | none => exact ih t (List.suffix_refl _)
      | some target =>
        have hne : r.priority ≠ target := fun h => hgoto x (.head _) hact (by rw [hx, h])
        simp only [Option.bind_some]
        rcases jump_insert hne t l₂ with ⟨l', hl', h₁, h₂⟩ | h
        · rw [h₁, h₂]
          exact ih l' hl'
        · rw [h]
          cases jump target (t ++ l₂) with
          | none => exact ih t (List.suffix_refl _)
          | some l' => exact Opens.refl _
    · exact ih l hl

/-! ### A route -/

theorem addRoute_extends (x : Rule) (rt : Route) (acc : List Outcome × Bool) :
    acc.1 ⊆ (addRoute x rt acc).1 ∧ (acc.2 = true → (addRoute x rt acc).2 = true) := by
  unfold addRoute
  cases disposition rt with
  | none => exact ⟨List.Subset.refl _, fun _ => rfl⟩
  | some o =>
    dsimp only
    split_ifs
    · exact ⟨List.subset_append_left _ _, id⟩
    · exact ⟨List.Subset.refl _, fun _ => rfl⟩
    · exact ⟨List.subset_append_left _ _, fun h => by simp [h]⟩

theorem scanRoutes_extends (s : State) (x : Rule) (p : Packet) (l : List Route) (acc : List Outcome × Bool) :
    acc.1 ⊆ (s.scanRoutes x p l acc).1 ∧ (acc.2 = true → (s.scanRoutes x p l acc).2 = true) := by
  induction l generalizing acc with
  | nil => exact ⟨List.Subset.refl _, fun _ => rfl⟩
  | cons rt t ih =>
    have hadd := addRoute_extends x rt acc
    unfold scanRoutes
    cases s.routeApplies rt p with
    | no => exact ih acc
    | yes => exact hadd
    | maybe =>
      obtain ⟨h₁, h₂⟩ := ih (addRoute x rt acc)
      exact ⟨List.Subset.trans hadd.1 h₁, h₂ ∘ hadd.2⟩

/-- A route that surely answers ends the scan where it stands: nothing after it
counts, what came before it is as it was. -/
theorem scanRoutes_insert (hlen : x.suppressPrefixLen = none) (hgroup : x.suppressIfGroup = none) (happ : s.routeApplies r p = .yes) {o : Outcome} (hd : disposition r = some o)
    (a b b' : List Route) (acc : List Outcome × Bool) :
    (∀ y ∈ (s.scanRoutes x p (a ++ r :: b') acc).1, y = o ∨ y ∈ (s.scanRoutes x p (a ++ b) acc).1) ∧
      ((s.scanRoutes x p (a ++ r :: b') acc).2 = true → (s.scanRoutes x p (a ++ b) acc).2 = true) := by
  induction a generalizing acc with
  | nil =>
    have hr : addRoute x r acc = (acc.1 ++ [o], acc.2) := by
      unfold addRoute
      rw [hd, hlen, hgroup]
      dsimp only
      split_ifs with h1 h2
      · rfl
      · cases h2
      · simp
    obtain ⟨hsub, hfall⟩ := scanRoutes_extends s x p b acc
    rw [List.nil_append, List.nil_append, show s.scanRoutes x p (r :: b') acc = addRoute x r acc by
      rw [scanRoutes, happ], hr]
    refine ⟨fun y hy => ?_, hfall⟩
    rcases List.mem_append.1 hy with hy | hy
    · exact .inr (hsub hy)
    · exact .inl (List.mem_singleton.1 hy)
  | cons rt t ih =>
    rw [List.cons_append, List.cons_append, scanRoutes, scanRoutes]
    cases s.routeApplies rt p with
    | no => exact ih acc
    | yes => exact ⟨fun _ => .inr, id⟩
    | maybe => exact ih _

theorem routeLess_sameSlot (v4 : Bool) {x : Route} (h : sameSlot r x = true) :
    (∀ z, routeLess v4 x z = routeLess v4 r z) ∧ ∀ z, routeLess v4 z x = routeLess v4 z r := by
  simp only [sameSlot, Bool.and_eq_true, beq_iff_eq] at h
  obtain ⟨⟨⟨hdst, htos⟩, hmetric⟩, -⟩ := h
  have hlen : x.len = r.len := by unfold Route.len; rw [hdst]
  exact ⟨fun z => by unfold routeLess; rw [hlen, htos, hmetric],
    fun z => by unfold routeLess; rw [hlen, htos, hmetric]⟩

theorem replaceRoute_cases (r : Route) (l : List Route) :
    (∃ l₁ x l₂, sameSlot r x = true ∧ l = l₁ ++ x :: l₂ ∧ replaceRoute r l = l₁ ++ r :: l₂) ∨
      replaceRoute r l = l ++ [r] := by
  induction l with
  | nil => exact .inr rfl
  | cons y t ih =>
    unfold replaceRoute
    split_ifs with hy
    · exact .inl ⟨[], y, t, hy, rfl, rfl⟩
    · rcases ih with ⟨l₁, x, l₂, hx, rfl, h⟩ | h
      · exact .inl ⟨y :: l₁, x, l₂, hx, rfl, by rw [h]; rfl⟩
      · exact .inr (by rw [h]; rfl)

theorem insertSort_replaceRoute (v4 : Bool) {c : Route → Bool} (hcov : c r = true)
    (hdst : ∀ x, sameSlot r x = true → c x = c r) (l : List Route) :
    ∃ u b b', insertSort (routeLess v4) (l.filter c) = u ++ b ∧
      insertSort (routeLess v4) ((replaceRoute r l).filter c) = u ++ r :: b' := by
  rcases replaceRoute_cases r l with ⟨l₁, x, l₂, hx, rfl, h⟩ | h
  · obtain ⟨hl, hr⟩ := routeLess_sameSlot v4 hx
    obtain ⟨u, b, b', h₁, h₂⟩ := insertSort_replace hl hr (l₁.filter c) (l₂.filter c)
    refine ⟨u, x :: b, b', ?_, ?_⟩
    · rw [List.filter_append, List.filter_cons_of_pos (by rw [hdst x hx, hcov]), h₁]
    · rw [h, List.filter_append, List.filter_cons_of_pos hcov, h₂]
  · obtain ⟨u, b, h₁, h₂⟩ := insertSort_append (routeLess v4) (l.filter c) r
    refine ⟨u, b, b, h₁, ?_⟩
    rw [h, List.filter_append, List.filter_cons_of_pos hcov, List.filter_nil, h₂]

theorem opens_walkFrom {rules : List Rule}
    (h : ∀ x ∈ rules, x.action = frActToTbl → Opens C (s'.lookup x p).1 (s.lookup x p).1 ∧
      ((s'.lookup x p).2 = true → (s.lookup x p).2 = true)) :
    Opens C (s'.walkFrom p rules) (s.walkFrom p rules) := by
  suffices ∀ l, l <:+ rules → Opens C (s'.walkFrom p l) (s.walkFrom p l) from this rules (List.suffix_refl _)
  induction rules with
  | nil =>
    intro l hl
    obtain rfl := List.suffix_nil.1 hl
    exact Opens.refl _
  | cons x t ih =>
    have ih := ih fun y hy => h y (.tail x hy)
    intro l hl
    rcases List.suffix_cons_iff.1 hl with rfl | hl
    · have hnext := ih t (List.suffix_refl _)
      refine opens_walkFrom_cons hnext (opens_takenFrom (h x (.head _)) hnext fun _ => ?_)
      refine ih _ ?_
      rw [gotoTarget_eq]
      cases hx : x.goto with
      | none => exact List.suffix_refl _
      | some target =>
        simp only [Option.bind_some, jump]
        cases t.findIdx? (·.priority == target) with
        | none => exact List.suffix_refl _
        | some j => exact List.drop_suffix j t
    · exact ih l hl

end Walks

/-! ### The two additions -/

theorem lookup_setRules (s : State) (f : Family) (rules : List Rule) (x : Rule) (p : Packet) :
    (s.setRules f rules).lookup x p = s.lookup x p := by
  unfold lookup
  rw [@scanRoutes_eq_of_applies (s.setRules f rules) s _ _ _ fun _ _ => rfl]
  rfl

variable {s : State} {p : Packet} {C : Outcome → Prop}

theorem opens_withRule {r : Rule} (hr : p.f = r.family → s.Harmless p C r) (hC : C { kind := .stopped })
    (hgoto : ∀ x ∈ s.rules r.family, x.action = frActGoto → x.goto ≠ some r.priority) :
    Opens C ((s.withRule r).walk p) (s.walk p) := by
  have hwalk : (s.withRule r).walk p = s.walkFrom p ((s.withRule r).rules p.f) :=
    walkFrom_eq_of_lookup fun x _ => s.lookup_setRules _ _ x p
  rw [hwalk, walk_eq_walkFrom]
  show Opens C (s.walkFrom p (Function.update s.rules r.family _ p.f)) _
  by_cases hf : p.f = r.family
  · have hsplit : (s.rules r.family).takeWhile (fun x => x.priority ≤ r.priority) ++
        (s.rules r.family).dropWhile (fun x => x.priority ≤ r.priority) = s.rules r.family :=
      List.takeWhile_append_dropWhile
    have hins := opens_insert (hr hf) hC ((s.rules r.family).takeWhile fun x => x.priority ≤ r.priority)
      ((s.rules r.family).dropWhile fun x => x.priority ≤ r.priority)
      fun x hx => hgoto x ((List.takeWhile_sublist _).subset hx)
    rw [hsplit] at hins
    rw [hf, Function.update_self]
    exact hins
  · rw [Function.update_of_ne hf]
    exact Opens.refl _

theorem tableRoutes_setTable (hl : (s.routes f).lookup t = some old)
    (new : List Route) (g : Family) (u : ℕ) : (s.setTable f t new).tableRoutes g u =
      if g = f ∧ u = t then new else s.tableRoutes g u := by
  unfold tableRoutes setTable
  simp only [Function.update_apply]
  by_cases hf : g = f
  · rw [if_pos hf, lookup_map_entry]
    by_cases ht : u = t
    · rw [if_pos ht, if_pos ⟨hf, ht⟩, hl]
      rfl
    · rw [if_neg ht, if_neg (fun h => ht h.2), hf]
  · rw [if_neg hf, if_neg (fun h => hf h.1)]

theorem lookup_setTable (hl : (s.routes f).lookup t = some old)
    (new : List Route) (hloc : x.table ≠ tableLocal) (hknown : x.table ∈ s.known) :
    (s.setTable f t new).lookup x p = s.scanRoutes x p (insertSort (routeLess (p.f == .v4))
      ((if p.f = f ∧ x.table = t then new else s.tableRoutes p.f x.table).filter
        fun rt => rt.dst.elim false (·.contains p.dst))) ([], false) := by
  have hk : ¬(!(s.setTable f t new).known.contains x.table) = true := by simpa [setTable] using hknown
  unfold lookup
  rw [if_neg hloc, if_neg hk, @scanRoutes_eq_of_applies (s.setTable f t new) s _ _ _ fun _ _ => rfl,
    candidates, tableRoutes_setTable hl]

theorem lookup_setTable_of_not (new : List Route)
    (h : x.table = tableLocal ∨ x.table ∉ s.known) : (s.setTable f t new).lookup x p = s.lookup x p := by
  unfold lookup
  rcases h with h | h
  · rw [if_pos h, if_pos h]
    rfl
  · by_cases hloc : x.table = tableLocal
    · rw [if_pos hloc, if_pos hloc]
      rfl
    · rw [if_neg hloc, if_neg hloc, if_pos (by simpa [setTable] using h), if_pos (by simpa using h)]

/-- A route that surely answers, put into a table that is looked up without
suppressors, leads to no new place but its own. -/
theorem opens_withRoute (happ : s.routeApplies r p = .yes)
    (hcov : p.f = r.family → (r.dst.elim false (·.contains p.dst)) = true) {o : Outcome}
    (hd : disposition r = some o) (ho : C o.place)
    (hplain : ∀ x ∈ s.rules p.f, x.action = frActToTbl → x.table = r.table →
      x.suppressPrefixLen = none ∧ x.suppressIfGroup = none) :
    Opens C ((s.withRoute r).walk p) (s.walk p) := by
  unfold withRoute
  cases hl : (s.routes r.family).lookup r.table with
  | none => exact Opens.refl _
  | some routes =>
    refine opens_walkFrom fun x hx hact => ?_
    by_cases hread : x.table ≠ tableLocal ∧ x.table ∈ s.known
    · obtain ⟨hloc, hknown⟩ := hread
      have hold : s.lookup x p = s.scanRoutes x p (s.candidates p x.table) ([], false) := by
        rw [lookup, if_neg hloc, if_neg (by simpa using hknown)]
      rw [lookup_setTable hl _ hloc hknown, hold, candidates]
      by_cases hslot : p.f = r.family ∧ x.table = r.table
      · obtain ⟨hlen, hgroup⟩ := hplain x hx hact hslot.2
        have hroutes : s.tableRoutes p.f x.table = routes := by rw [tableRoutes, hslot.1, hslot.2, hl]; rfl
        obtain ⟨u, b, b', h₁, h₂⟩ := insertSort_replaceRoute (p.f == .v4)
          (c := fun rt => rt.dst.elim false (·.contains p.dst)) (hcov hslot.1) (fun y hy => by
            simp only [sameSlot, Bool.and_eq_true, beq_iff_eq] at hy
            simp only [hy.1.1.1]) routes
        rw [if_pos hslot, hroutes, h₁, h₂]
        obtain ⟨houts, hfall⟩ := scanRoutes_insert hlen hgroup happ hd u b b' ([], false)
        refine ⟨fun y hy => ?_, hfall⟩
        obtain ⟨z, hz, rfl⟩ := List.mem_map.1 hy
        rcases houts z hz with rfl | hz
        · exact .inl ho
        · exact .inr (List.mem_map_of_mem hz)
      · rw [if_neg hslot]
        exact ⟨Opens.refl _, id⟩
    · rw [lookup_setTable_of_not _ (by tauto)]
      exact ⟨Opens.refl _, id⟩

end State

/-! ### The judgement after an addition -/

structure Beside (s s' : State) : Prop where
  spec : s'.spec = s.spec
  live : s'.live = s.live
  locals : s'.locals = s.locals
  exitIdx : s'.exitIdx = s.exitIdx

theorem beside_withRule (s : State) (r : Rule) : Beside s (s.withRule r) := ⟨rfl, rfl, rfl, rfl⟩

theorem beside_withRoute (s : State) (r : Route) : Beside s (s.withRoute r) := by
  unfold State.withRoute
  split <;> exact ⟨rfl, rfl, rfl, rfl⟩

section Judgement

variable {s s' : State} {p q : Packet}

theorem Beside.classifier_eq (h : Beside s s') (hc : s.spec.config.NativeOverlay) (p : Packet) :
    s'.classifier p = s.classifier p := by
  unfold State.classifier State.classify State.protectedAddrs State.classifySidecar State.isLocal
  simp only [h.spec, h.live, h.locals, h.exitIdx, hc.not_gluetun, hc.not_sidecar]
  rfl

theorem protected_of_classifier (hc : s.spec.config.NativeOverlay) (hdst : p.dst.fam = p.f)
    (h : (s.classifier p).any = false) :
    (Arrives s p ∨ Sends s (s.protectedAddrs p.f) p) ∧
      ∀ o, Held s o → s.exitIdx ≠ unknownDev → (s.classifier p).allows o = true := by
  have hheld : ∀ name o, Held s o → s.exitIdx ≠ unknownDev →
      TrafficClass.allows { name := name, devs := [s.exitIdx] } o = true := by
    rintro name o (ho | ⟨ho, hdev, hne⟩) hidx
    · simp [TrafficClass.allows, ho]
    · simp [TrafficClass.allows, ho, hdev, hne, hidx]
  unfold State.classifier State.classify at h ⊢
  simp only [hc.not_gluetun, hc.not_sidecar, Bool.not_false, Bool.true_and] at h ⊢
  by_cases hov : (p.iif == s.spec.config.overlayIf) = true
  · rw [if_pos hov]
    exact ⟨.inl ⟨hdst, by simpa using hov⟩, hheld _⟩
  · rw [if_neg hov] at h ⊢
    by_cases hlo : p.iif ≠ "lo"
    · rw [if_pos hlo] at h
      cases h
    · rw [if_neg hlo] at h ⊢
      by_cases hloc : s.isLocal p.f p.dst = true
      · rw [if_pos hloc] at h
        cases h
      · rw [if_neg hloc] at h ⊢
        by_cases hicmp : (p.src.elim false (s.protectedAddrs p.f).contains && p.proto == icmp p.f) = true
        · rw [if_pos hicmp]
          simp only [Bool.and_eq_true, beq_iff_eq] at hicmp
          refine ⟨.inr ⟨hdst, by simpa using hlo, hicmp.2, by simpa using hloc, ?_⟩, hheld _⟩
          cases hsrc : p.src with
          | none => simp [hsrc] at hicmp
          | some a => exact ⟨a, by simpa [hsrc] using hicmp.1, rfl⟩
        · rw [if_neg hicmp] at h
          cases h

/-- An addition that opens only held places keeps a state without violations so,
if every packet it makes the model look at is alike to one it looked at. -/
theorem violations_of_opens (hb : Beside s s') (hc : s.spec.config.NativeOverlay)
    (hidx : s.exitIdx ≠ unknownDev) (hs : s.violations = []) (hw : Within s' [])
    (hopen : ∀ q, Arrives s q ∨ Sends s (s.protectedAddrs q.f) q → State.Opens (Held s) (s'.walk q) (s.walk q))
    (hseen : ∀ q, InDomain s' q → Named s' q → ∃ q', InDomain s q' ∧ Named s q' ∧ Alike (gather q.f s []) q q') :
    s'.violations = [] := by
  have hside : s.spec.config.isGluetunSidecar = false := hc.not_gluetunSidecar
  rw [violations_eq_nil_iff (by rw [hb.spec]; exact hside)]
  refine ⟨hw, fun f q hq hesc => ?_⟩
  have hl := listed_of_mem hq
  obtain rfl := hl.fam
  obtain ⟨hd, hn⟩ := (listed_iff s' q).1 hl
  obtain ⟨q', hd', hn', halike⟩ := hseen q hd hn
  obtain ⟨hany, o, ho, hforbid⟩ := hesc
  rw [hb.classifier_eq hc] at hany hforbid
  obtain ⟨hprot, hheld⟩ := protected_of_classifier hc hd.dst hany
  have hq' : ¬ Escapes s q' := not_escapes_of_listed hside hs ((listed_iff s q').2 ⟨hd', hn'⟩)
  rw [← escapes_congr (covers_self s q.f) halike] at hq'
  have hallow : ∀ x y : Outcome, x.place = y.place → (s.classifier q).allows x = (s.classifier q).allows y := by
    intro x y hxy
    simp only [Outcome.place, Outcome.mk.injEq] at hxy
    unfold TrafficClass.allows
    rw [hxy.1, hxy.2.1, hxy.2.2.1]
  rcases hopen q hprot o.place (List.mem_map_of_mem ho) with hin | hin
  · rw [hallow o o.place rfl, hheld _ hin hidx] at hforbid
    cases hforbid
  · obtain ⟨x, hx, hplace⟩ := List.mem_map.1 hin
    refine hq' ⟨hany, x, hx, ?_⟩
    rw [hallow x o hplace]
    exact hforbid

end Judgement

end Molebridge
