import Molebridge.Spec.Policy

/-! The canonical items of a rule against what the rule does. Two rules with
equal items and no attribute the model leaves raw match the same packets and act
alike (`SameActs`), so a rule the comparison keeps behaves as the rule the
contract expects. -/

namespace Molebridge

variable {α : Type*} {i : Item}

theorem equalItems_iff (a b : List Item) : equalItems a b = true ↔ ∀ i, i ∈ a ↔ i ∈ b := by
  simp only [equalItems, Bool.and_eq_true, List.all_eq_true, List.contains_iff_mem]
  exact ⟨fun h i => ⟨h.1 i, h.2 i⟩, fun h => ⟨fun i => (h i).1, fun i => (h i).2⟩⟩

theorem equalItems_refl (a : List Item) : equalItems a a = true :=
  (equalItems_iff a a).2 fun _ => Iff.rfl

theorem Prefix.masked_contains (p : Prefix) (a : Addr) : p.masked.contains a = p.contains a := by
  have hsize : p.masked.size = p.size := rfl
  unfold contains
  rw [hsize]
  have hpos : 0 < p.size := Nat.two_pow_pos _
  simp [masked, Nat.mul_div_cancel _ hpos]

theorem Prefix.default_contains {f : Family} {a : Addr} (h : a.fam = f) :
    (Prefix.default f).contains a = true := by
  subst h
  have hdiv : a.val / 2 ^ a.fam.bits = 0 := Nat.div_eq_of_lt a.lt
  simp [Prefix.contains, Prefix.default, Addr.zero, Prefix.size, hdiv]

theorem outside_congr_masked {p q : Option Prefix} (h : p.map Prefix.masked = q.map Prefix.masked)
    (a : Option Addr) : outside p a = outside q a := by
  cases p with
  | none =>
    obtain rfl : q = none := by simpa using h.symm
    rfl
  | some p =>
    cases q with
    | none => cases h
    | some q =>
      have h : p.masked = q.masked := by simpa using h
      have hbits : p.masked.bits = q.masked.bits := by rw [h]
      change p.bits = q.bits at hbits
      have hcontains : p.contains = q.contains :=
        funext fun a => by rw [← p.masked_contains, ← q.masked_contains, h]
      simp [outside, hbits, hcontains]

theorem mem_elim_singleton {β : Type*} (o : Option α) (g : α → β) (i : β) :
    i ∈ o.elim [] (fun x => [g x]) ↔ ∃ x, o = some x ∧ i = g x := by
  cases o <;> simp

theorem eq_elim_iff {β : Type*} (o : Option α) (b : β) (g : α → β) (i : β) :
    i = o.elim b g ↔ (o = none ∧ i = b) ∨ ∃ x, o = some x ∧ i = g x := by
  cases o <;> simp

/-- The action an item of `actionItem` stands for. -/
def Item.actionOf : Item → Option ℕ
  | lookup _ => some frActToTbl
  | gotoTo _ | gotoNone => some frActGoto
  | nop => some frActNop
  | blackhole => some frActBlackhole
  | unreachable => some frActUnreachable
  | prohibit => some frActProhibit
  | action n => some n
  | _ => none

namespace Rule

theorem actionOf_actionItem (r : Rule) : r.actionItem.actionOf = some r.action := by
  unfold actionItem
  split_ifs with h1 h2 h3 h4 h5 h6
  · rw [h1]; rfl
  · rw [h2]; cases r.goto <;> rfl
  · rw [h3]; rfl
  · rw [h4]; rfl
  · rw [h5]; rfl
  · rw [h6]; rfl
  · rfl

def HasItem (r : Rule) (i : Item) : Prop :=
  (r.invert = true ∧ i = .inverted) ∨
  (r.src = none ∧ i = .srcAll) ∨ (∃ p, r.src = some p ∧ i = .src p.masked) ∨
  (∃ p, r.dst = some p ∧ i = .dst p.masked) ∨
  (r.tos ≠ 0 ∧ i = .tos r.tos) ∨
  (r.effectiveMark.2 ≠ 0 ∧ i = .fwmark r.effectiveMark.1 r.effectiveMark.2) ∨
  (r.iifName ≠ "" ∧ i = .iif r.iifName) ∨
  (r.oifName ≠ "" ∧ i = .oif r.oifName) ∨
  (∃ v, r.ipProto = some v ∧ i = .ipproto v) ∨
  (∃ v, r.l3Mdev = some v ∧ i = .l3mdev v) ∨
  (∃ v, r.suppressPrefixLen = some v ∧ i = .suppressPrefixLen v) ∨
  (∃ v, r.suppressIfGroup = some v ∧ i = .suppressIfGroup v) ∨
  ((r.action ≠ frActToTbl ∧ r.table ≠ 0) ∧ i = .table r.table) ∨
  (r.extraFlags ≠ 0 ∧ i = .flags r.extraFlags) ∨
  (∃ a ∈ r.unknown, i = .attr a) ∨
  (r.bad = true ∧ i = .bad)

theorem mem_items_of_selector (r : Rule) (h : i.actionOf = none) :
    i ∈ r.items ↔ r.HasItem i := by
  have hact : i ≠ r.actionItem := by
    rintro rfl
    rw [r.actionOf_actionItem] at h
    cases h
  have hgoto : ∀ v, i ≠ .gotoTo v := by
    rintro v rfl
    cases h
  simp only [items, List.flatten_cons, List.flatten_nil, List.append_nil, List.mem_append,
    List.mem_ite_nil_right, mem_elim_singleton, List.mem_singleton, hact, hgoto, and_false,
    exists_false, false_or]
  simp [HasItem, eq_elim_iff, or_assoc, eq_comm (b := i)]

theorem mem_items_of_action (r : Rule) (h : i.actionOf ≠ none) :
    i ∈ r.items ↔ i = r.actionItem ∨
      (r.action ≠ frActGoto ∧ ∃ v, r.goto = some v ∧ i = .gotoTo v) := by
  simp only [items, List.flatten_cons, List.mem_append,
    List.mem_ite_nil_right, mem_elim_singleton, List.mem_singleton, eq_elim_iff]
  cases i <;> simp [Item.actionOf] at h ⊢

/-! ### Equal items -/

theorem option_eq_of_items {o o' : Option α} (h : ∀ v, o = some v ↔ o' = some v) :
    o = o' := Option.ext fun v => h v

theorem eq_of_nonzero_items {z a b : α} (h : ∀ v, (a ≠ z ∧ v = a) ↔ (b ≠ z ∧ v = b)) :
    a = b := by
  by_cases ha : a = z
  · by_cases hb : b = z
    · rw [ha, hb]
    · exact ((h b).2 ⟨hb, rfl⟩).2.symm
  · exact ((h a).1 ⟨ha, rfl⟩).2

section Equal

variable {r e : Rule} (h : equalItems r.items e.items = true)

include h

theorem hasItem_congr (hi : i.actionOf = none) : r.HasItem i ↔ e.HasItem i := by
  rw [← r.mem_items_of_selector hi, ← e.mem_items_of_selector hi]
  exact (equalItems_iff _ _).1 h i

theorem invert_eq : r.invert = e.invert := by
  have hi := hasItem_congr h (i := .inverted) rfl
  simpa [HasItem] using hi

theorem src_masked_eq : r.src.map Prefix.masked = e.src.map Prefix.masked := by
  refine option_eq_of_items fun p => ?_
  have hi := hasItem_congr h (i := .src p) rfl
  simpa [HasItem, eq_comm (a := p)] using hi

theorem dst_masked_eq : r.dst.map Prefix.masked = e.dst.map Prefix.masked := by
  refine option_eq_of_items fun p => ?_
  have hi := hasItem_congr h (i := .dst p) rfl
  simpa [HasItem, eq_comm (a := p)] using hi

theorem tos_eq : r.tos = e.tos := by
  refine eq_of_nonzero_items (z := 0) fun t => ?_
  have hi := hasItem_congr h (i := .tos t) rfl
  simpa [HasItem] using hi

theorem iifName_eq : r.iifName = e.iifName := by
  refine eq_of_nonzero_items (z := "") fun n => ?_
  have hi := hasItem_congr h (i := .iif n) rfl
  simpa [HasItem] using hi

theorem oifName_eq : r.oifName = e.oifName := by
  refine eq_of_nonzero_items (z := "") fun n => ?_
  have hi := hasItem_congr h (i := .oif n) rfl
  simpa [HasItem] using hi

theorem extraFlags_eq : r.extraFlags = e.extraFlags := by
  refine eq_of_nonzero_items (z := 0) fun x => ?_
  have hi := hasItem_congr h (i := .flags x) rfl
  simpa [HasItem] using hi

theorem ipProto_eq : r.ipProto = e.ipProto := by
  refine option_eq_of_items fun v => ?_
  have hi := hasItem_congr h (i := .ipproto v) rfl
  simpa [HasItem] using hi

theorem l3Mdev_eq : r.l3Mdev = e.l3Mdev := by
  refine option_eq_of_items fun v => ?_
  have hi := hasItem_congr h (i := .l3mdev v) rfl
  simpa [HasItem] using hi

theorem suppressPrefixLen_eq : r.suppressPrefixLen = e.suppressPrefixLen := by
  refine option_eq_of_items fun v => ?_
  have hi := hasItem_congr h (i := .suppressPrefixLen v) rfl
  simpa [HasItem] using hi

theorem suppressIfGroup_eq : r.suppressIfGroup = e.suppressIfGroup := by
  refine option_eq_of_items fun v => ?_
  have hi := hasItem_congr h (i := .suppressIfGroup v) rfl
  simpa [HasItem] using hi

theorem bad_eq : r.bad = e.bad := by
  have hi := hasItem_congr h (i := .bad) rfl
  simpa [HasItem] using hi

theorem mem_unknown_iff (a : RawAttr) : a ∈ r.unknown ↔ a ∈ e.unknown := by
  have hi := hasItem_congr h (i := .attr a) rfl
  simpa [HasItem] using hi

theorem unknown_nil (hu : e.unknown = []) : r.unknown = [] :=
  List.eq_nil_iff_forall_not_mem.2 fun a ha => by simpa [hu] using (mem_unknown_iff h a).1 ha

theorem markItem_eq : (if r.effectiveMark.2 ≠ 0 then [Item.fwmark r.effectiveMark.1 r.effectiveMark.2] else []) =
    if e.effectiveMark.2 ≠ 0 then [Item.fwmark e.effectiveMark.1 e.effectiveMark.2] else [] := by
  have hi : ∀ v w, (r.effectiveMark.2 ≠ 0 ∧ v = r.effectiveMark.1 ∧ w = r.effectiveMark.2) ↔
      (e.effectiveMark.2 ≠ 0 ∧ v = e.effectiveMark.1 ∧ w = e.effectiveMark.2) := by
    intro v w
    simpa [HasItem] using hasItem_congr h (i := .fwmark v w) rfl
  by_cases hr : r.effectiveMark.2 ≠ 0
  · obtain ⟨he, h1, h2⟩ := (hi _ _).1 ⟨hr, rfl, rfl⟩
    rw [if_pos hr, if_pos he, h1, h2]
  · have he : ¬ e.effectiveMark.2 ≠ 0 := fun he => hr ((hi _ _).2 ⟨he, rfl, rfl⟩).1
    rw [if_neg hr, if_neg he]

theorem mark_eq (m : BitVec 32) : (r.effectiveMark.1 ^^^ m) &&& r.effectiveMark.2 =
    (e.effectiveMark.1 ^^^ m) &&& e.effectiveMark.2 := by
  have hi := markItem_eq h
  split_ifs at hi with hr he he
  · obtain ⟨h1, h2⟩ := Item.fwmark.inj (List.singleton_inj.1 hi)
    rw [h1, h2]
  · rw [not_not] at hr he
    simp [hr, he]

theorem actionItem_eq (hgoto : e.goto = none) : r.actionItem = e.actionItem := by
  have hi := (equalItems_iff _ _).1 h r.actionItem
  rw [r.mem_items_of_action (by simp [actionOf_actionItem]),
    e.mem_items_of_action (by simp [actionOf_actionItem])] at hi
  simpa [hgoto] using hi

theorem action_eq (hgoto : e.goto = none) : r.action = e.action := by
  have ha := congrArg Item.actionOf (actionItem_eq h hgoto)
  simpa [actionOf_actionItem] using ha

theorem goto_eq (hgoto : e.goto = none) : r.goto = none := by
  cases hg : r.goto with
  | none => rfl
  | some v =>
    have hv : (Item.gotoTo v).actionOf ≠ none := by simp [Item.actionOf]
    have hno : Item.gotoTo v ∉ e.items := by
      rw [e.mem_items_of_action hv, hgoto]
      unfold actionItem
      split_ifs <;> simp [hgoto]
    refine absurd (((equalItems_iff _ _).1 h _).1 ?_) hno
    rw [r.mem_items_of_action hv]
    by_cases hact : r.action = frActGoto
    · refine .inl ?_
      rw [actionItem, if_neg (by rw [hact]; decide), if_pos hact, hg]
      rfl
    · exact .inr ⟨hact, v, hg, rfl⟩

theorem table_eq (hgoto : e.goto = none) : r.table = e.table := by
  have hact := action_eq h hgoto
  by_cases ht : e.action = frActToTbl
  · have hi := actionItem_eq h hgoto
    unfold actionItem at hi
    rw [if_pos ht, if_pos (hact.trans ht)] at hi
    exact Item.lookup.inj hi
  · refine eq_of_nonzero_items (z := 0) fun v => ?_
    have hi := hasItem_congr h (i := .table v) rfl
    simpa [HasItem, hact, ht] using hi

/-- The items of a rule without a goto and without unknown attributes come in one order. -/
theorem items_eq (hu : e.unknown = []) (hgoto : e.goto = none) : r.items = e.items := by
  have hsrc : (r.src.elim Item.srcAll fun p => .src p.masked) = e.src.elim .srcAll fun p => .src p.masked := by
    have := congrArg (fun o : Option Prefix => o.elim Item.srcAll .src) (src_masked_eq h)
    simp only [Option.elim_map] at this
    exact this
  have hdst : (r.dst.elim [] fun p => [Item.dst p.masked]) = e.dst.elim [] fun p => [.dst p.masked] := by
    have := congrArg (fun o : Option Prefix => o.elim [] fun p => [Item.dst p]) (dst_masked_eq h)
    simp only [Option.elim_map] at this
    exact this
  unfold items
  rw [invert_eq h, hsrc, hdst, tos_eq h, markItem_eq h, iifName_eq h, oifName_eq h, ipProto_eq h, l3Mdev_eq h,
    suppressPrefixLen_eq h, suppressIfGroup_eq h, actionItem_eq h hgoto, action_eq h hgoto, table_eq h hgoto,
    goto_eq h hgoto, hgoto, extraFlags_eq h, unknown_nil h hu, hu, bad_eq h]

theorem selectorsAccept_eq (hu : e.unknown = []) (p : Packet) :
    selectorsAccept r p = selectorsAccept e p := by
  have hru := unknown_nil h hu
  simp [selectorsAccept, iifName_eq h, oifName_eq h, outside_congr_masked (src_masked_eq h),
    outside_congr_masked (dst_masked_eq h), mark_eq h, ipProto_eq h, tos_eq h, l3Mdev_eq h, ext, hru, hu]

theorem ruleMatches_eq (hu : e.unknown = []) (p : Packet) : ruleMatches r p = ruleMatches e p := by
  have hru := unknown_nil h hu
  have hund : undecided r p = undecided e p := by
    simp [undecided, ext, hru, hu, bad_eq h, extraFlags_eq h, oifName_eq h]
  unfold ruleMatches
  rw [selectorsAccept_eq h hu, hund, invert_eq h]

theorem lookup_eq (hgoto : e.goto = none) (s : State) (p : Packet) :
    s.lookup r p = s.lookup e p := by
  have hadd : State.addRoute r = State.addRoute e := by
    funext rt acc
    simp [State.addRoute, suppressPrefixLen_eq h, suppressIfGroup_eq h]
  have hscan : ∀ l acc, s.scanRoutes r p l acc = s.scanRoutes e p l acc := by
    intro l
    induction l with
    | nil => exact fun _ => rfl
    | cons rt t ih =>
      intro acc
      simp [State.scanRoutes, hadd, ih]
  simp [State.lookup, table_eq h hgoto, hscan]

end Equal

end Rule

end Molebridge
