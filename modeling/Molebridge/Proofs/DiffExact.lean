import Molebridge.Proofs.AddedRules
import Molebridge.Proofs.Diff

/-! The comparison counts. Of each priority the scan keeps the multiset of items
that are still expected; an actual rule takes its own items out of it, or is one
too many. What is left at the end is added, so the additions are the expected
items less the actual ones and the comparison is empty exactly when the two agree. -/

namespace Molebridge

/-- The items of a rule as the sorted, duplicate-free list compares: as a set. -/
def Rule.itemSet (r : Rule) : Finset Item := r.items.toFinset

/-- The items of the rules of one priority, with their multiplicities. -/
def itemsAt (rules : List Rule) (p : ℕ) : Multiset (Finset Item) :=
  ((rules.filter (·.priority == p)).map Rule.itemSet : List (Finset Item))

def addsAt (actions : List Action) (p : ℕ) : Multiset (Finset Item) :=
  ((actions.filter fun a => a.kind == .add && a.priority == p).map (·.rule.itemSet) :
    List (Finset Item))

theorem equalItems_iff_itemSet (a e : Rule) :
    equalItems a.items e.items = true ↔ a.itemSet = e.itemSet := by
  rw [equalItems_iff, Rule.itemSet, Rule.itemSet, Finset.ext_iff]
  simp only [List.mem_toFinset]

@[simp] theorem itemsAt_nil (p : ℕ) : itemsAt [] p = 0 := rfl

theorem itemsAt_cons (r : Rule) (rules : List Rule) (p : ℕ) :
    itemsAt (r :: rules) p =
      if r.priority = p then r.itemSet ::ₘ itemsAt rules p else itemsAt rules p := by
  unfold itemsAt
  by_cases h : r.priority = p
  · rw [if_pos h, List.filter_cons_of_pos (by simpa using h)]
    rfl
  · rw [if_neg h, List.filter_cons_of_neg (by simpa using h)]

variable {p : ℕ}

theorem itemsAt_eq_zero {rules : List Rule} :
    itemsAt rules p = 0 ↔ ∀ r ∈ rules, r.priority ≠ p := by
  rw [itemsAt, Multiset.coe_eq_zero, List.map_eq_nil_iff, List.filter_eq_nil_iff]
  simp

theorem mem_itemsAt {rules : List Rule} {x : Finset Item} :
    x ∈ itemsAt rules p ↔ ∃ r ∈ rules, r.priority = p ∧ r.itemSet = x := by
  simp [itemsAt, and_assoc]

/-! ### What is still expected -/

/-- The expected items of a priority that no rule has been matched with. -/
def openAt (want : Want) (p : ℕ) : Multiset (Finset Item) :=
  itemsAt ((want.filter fun w => !w.2).map Prod.fst) p

theorem openAt_cons (e : Rule) (m : Bool) (rest : Want) (p : ℕ) :
    openAt ((e, m) :: rest) p =
      if m = false ∧ e.priority = p then e.itemSet ::ₘ openAt rest p else openAt rest p := by
  cases m with
  | true => simp [openAt]
  | false => simp [openAt, itemsAt_cons]

theorem openAt_unmatched (rules : List Rule) (p : ℕ) :
    openAt (rules.map (·, false)) p = itemsAt rules p := by
  induction rules with
  | nil => rfl
  | cons r t ih => simp [openAt_cons, itemsAt_cons, ih]

/-- One actual rule against the expected ones: it is kept exactly when its items are
still expected at its priority, and then they are expected once less. -/
theorem matchWant_open (a : Rule) (want : Want) (covered : Bool) :
    ((matchWant a want covered).1 = true ↔ a.itemSet ∈ openAt want a.priority) ∧
    ((matchWant a want covered).1 = true → ∀ p, openAt (matchWant a want covered).2.2 p =
      if p = a.priority then (openAt want p).erase a.itemSet else openAt want p) := by
  induction want generalizing covered with
  | nil => simp [matchWant, openAt]
  | cons w rest ih =>
    obtain ⟨e, m⟩ := w
    unfold matchWant
    by_cases hprio : e.priority = a.priority
    · rw [if_neg (not_not.2 hprio)]
      by_cases hit : (!m && equalItems a.items e.items) = true
      · rw [if_pos hit]
        rw [Bool.and_eq_true, Bool.not_eq_true', equalItems_iff_itemSet] at hit
        obtain ⟨rfl, hitems⟩ := hit
        refine ⟨by simp [openAt_cons, hprio, hitems], fun _ p => ?_⟩
        rw [openAt_cons, openAt_cons, hprio, hitems]
        by_cases hp : p = a.priority
        · simp [hp]
        · simp [hp, Ne.symm hp]
      · rw [if_neg hit]
        have hmiss : m = false → e.itemSet ≠ a.itemSet := by
          rintro rfl heq
          exact hit (by simpa using (equalItems_iff_itemSet a e).2 heq.symm)
        obtain ⟨hkept, herase⟩ := ih (covered || subsetOf a.items e.items || deleteMatches a e)
        refine ⟨hkept.trans ?_, fun hk p => ?_⟩
        · rw [openAt_cons]
          split_ifs with h
          · rw [Multiset.mem_cons]
            exact ⟨.inr, fun h' => h'.resolve_left (hmiss h.1).symm⟩
          · rfl
        · rw [openAt_cons, openAt_cons, herase hk p]
          split_ifs with h hp
          · exact (Multiset.erase_cons_tail _ (hmiss h.1)).symm
          all_goals rfl
    · rw [if_pos hprio]
      obtain ⟨hkept, herase⟩ := ih covered
      refine ⟨hkept.trans ?_, fun hk p => ?_⟩
      · rw [openAt_cons, if_neg (fun h => hprio h.2)]
      · rw [openAt_cons, openAt_cons, herase hk p]
        by_cases hp : p = a.priority
        · have hno : ¬ (m = false ∧ e.priority = p) := fun h => hprio (h.2.trans hp)
          rw [if_neg hno, if_neg hno]
        · rw [if_neg hp, if_neg hp]

/-! ### One step of the scan -/

/-- The marks are made among expected rules of owned priorities only. -/
def WantOwned (s : Spec) (want : Want) : Prop := ∀ p, s.owned p = false → openAt want p = 0

def Stands (s : Spec) (f : Family) (want : Want) (a : Rule) : Prop :=
  (s.owned a.priority = true → a.itemSet ∈ openAt want a.priority) ∧
    (s.owned a.priority = false → leftoverCopy s f a = false)

variable {a : Rule}

section Step

variable {s : Spec} {f : Family} (left : List Rule)

/-- What the scan holds: priorities rebuilt are among its removals. -/
def Noted (st : DiffState) : Prop := st.removals = [] → st.subbed = []

theorem Noted.del (st : DiffState) (a : Rule) : Noted (st.del a) :=
  fun h => absurd h (del_removals_ne_nil st a)

variable {st : DiffState}

theorem Noted.sub (h : Noted st) (a : Rule) :
    Noted (st.sub a) ∧ (st.sub a).removals ≠ [] := by
  unfold DiffState.sub
  split_ifs with hmem
  · refine ⟨h, fun hnil => ?_⟩
    rw [h hnil] at hmem
    cases hmem
  · refine ⟨fun hnil => ?_, ?_⟩ <;> simp_all

theorem diffStep_want_skipped (hskip : s.skipped f a.priority = true) (st : DiffState) :
    (diffStep s f left st a).want = st.want := by
  unfold diffStep
  split_ifs <;> first | rfl | exact want_sub st a

theorem not_open_of_no_want {want : Want} (h : (want.any fun w => w.1.priority == p) = false)
    (x : Finset Item) : x ∉ openAt want p := by
  intro hmem
  obtain ⟨r, hr, hprio, -⟩ := mem_itemsAt.1 hmem
  obtain ⟨w, hw, rfl⟩ := List.mem_map.1 hr
  rw [List.any_eq_false] at h
  exact h w (List.mem_filter.1 hw).1 (by simpa using hprio)

theorem diffStep_open (howned : WantOwned s st.want) (hskip : s.skipped f a.priority = false) (p : ℕ) :
    openAt (diffStep s f left st a).want p =
      if p = a.priority then (openAt st.want p).erase a.itemSet else openAt st.want p := by
  have hmiss : a.itemSet ∉ openAt st.want a.priority → openAt st.want p =
      if p = a.priority then (openAt st.want p).erase a.itemSet else openAt st.want p := by
    intro hno
    split_ifs with hp
    · rw [hp, Multiset.erase_of_notMem hno]
    · rfl
  unfold diffStep
  by_cases ho : s.owned a.priority = true
  · rw [if_neg (by simp [ho]), if_neg (by simp [hskip])]
    cases hany : st.want.any fun w => w.1.priority == a.priority with
    | false => exact hmiss (not_open_of_no_want hany _)
    | true =>
      obtain ⟨hkept, herase⟩ := matchWant_open a st.want false
      rw [if_neg (by simp)]
      dsimp only
      by_cases hk : (matchWant a st.want false).1 = true
      · rw [if_pos hk]
        exact herase hk p
      · have hno : a.itemSet ∉ openAt st.want a.priority := fun h => hk (hkept.2 h)
        rw [if_neg hk, ← hmiss hno]
        split_ifs with hcov
        · rw [want_sub]
        · rfl
  · rw [Bool.not_eq_true] at ho
    have hno : a.itemSet ∉ openAt st.want a.priority := by simp [howned _ ho]
    rw [if_pos (by simp [ho]), ← hmiss hno]
    split_ifs with hcopy <;> rfl

theorem Noted.step (h : Noted st) (a : Rule) : Noted (diffStep s f left st a) := by
  unfold diffStep
  dsimp only
  split_ifs <;> first | exact Noted.del st a | exact (h.sub a).1 | exact h

theorem diffStep_removals (hnoted : Noted st) (hskip : s.skipped f a.priority = false) :
    (diffStep s f left st a).removals = [] ↔ st.removals = [] ∧ Stands s f st.want a := by
  unfold diffStep
  by_cases ho : s.owned a.priority = true
  · have hstands : Stands s f st.want a ↔ a.itemSet ∈ openAt st.want a.priority := by
      simp [Stands, ho]
    rw [if_neg (by simp [ho]), if_neg (by simp [hskip]), hstands]
    cases hany : st.want.any fun w => w.1.priority == a.priority with
    | false =>
      simp [del_removals_ne_nil st a, not_open_of_no_want hany]
    | true =>
      rw [if_neg (by simp)]
      obtain ⟨hkept, -⟩ := matchWant_open a st.want false
      dsimp only
      split_ifs with hk hcov
      · simp [hkept.1 hk]
      · simp [(hnoted.sub a).2, mt hkept.2 hk]
      · simp [del_removals_ne_nil st a, mt hkept.2 hk]
  · rw [if_pos (by simp [ho])]
    split_ifs with hcopy
    · simp [del_removals_ne_nil st a, Stands, ho, hcopy]
    · simp [Stands, ho, hcopy]

/-! ### The whole scan -/

theorem WantOwned.step (howned : WantOwned s st.want) (a : Rule) :
    WantOwned s (diffStep s f left st a).want := by
  intro p hp
  cases hskip : s.skipped f a.priority with
  | true => rw [diffStep_want_skipped left hskip, howned p hp]
  | false =>
    rw [diffStep_open left howned hskip, howned p hp]
    split_ifs <;> rfl

theorem foldl_open (actual : List Rule) (howned : WantOwned s st.want) (hp : s.skipped f p = false) :
    openAt (actual.foldl (diffStep s f left) st).want p =
      openAt st.want p - itemsAt actual p := by
  induction actual generalizing st with
  | nil => simp
  | cons a t ih =>
    rw [List.foldl_cons, ih (howned.step left a), itemsAt_cons]
    cases hskip : s.skipped f a.priority with
    | true =>
      have hne : a.priority ≠ p := by
        rintro rfl
        rw [hp] at hskip
        cases hskip
      rw [diffStep_want_skipped left hskip, if_neg hne]
    | false =>
      rw [diffStep_open left howned hskip]
      by_cases heq : p = a.priority
      · rw [if_pos heq, if_pos heq.symm, Multiset.sub_cons]
      · rw [if_neg heq, if_neg (Ne.symm heq)]

theorem cons_le_iff {α : Type*} [DecidableEq α] {x : α} {s t : Multiset α} :
    x ::ₘ t ≤ s ↔ x ∈ s ∧ t ≤ s.erase x := by
  constructor
  · intro h
    refine ⟨Multiset.mem_of_le h (Multiset.mem_cons_self x t), ?_⟩
    have := Multiset.erase_le_erase x h
    rwa [Multiset.erase_cons_head] at this
  · rintro ⟨hmem, hle⟩
    rw [← Multiset.cons_erase hmem]
    exact (Multiset.cons_le_cons_iff x).2 hle

/-- The scan notes no removal exactly when the actual items are among the expected
ones at every owned priority and no rule below one is a copy left over. -/
theorem foldl_removals (hskip : ∀ p, s.skipped f p = false) (actual : List Rule) (howned : WantOwned s st.want) (hnoted : Noted st) :
    (actual.foldl (diffStep s f left) st).removals = [] ↔ st.removals = [] ∧
      (∀ p, s.owned p = true → itemsAt actual p ≤ openAt st.want p) ∧
      ∀ a ∈ actual, s.owned a.priority = false → leftoverCopy s f a = false := by
  induction actual generalizing st with
  | nil => simp
  | cons a t ih =>
    rw [List.foldl_cons, ih (howned.step left a) (hnoted.step left a),
      diffStep_removals left hnoted (hskip _)]
    have hle : ∀ p, (itemsAt (a :: t) p ≤ openAt st.want p) ↔
        (p = a.priority → a.itemSet ∈ openAt st.want a.priority) ∧
          itemsAt t p ≤ openAt (diffStep s f left st a).want p := by
      intro p
      rw [diffStep_open left howned (hskip _), itemsAt_cons]
      by_cases hp : p = a.priority
      · rw [if_pos hp.symm, if_pos hp, cons_le_iff, hp]
        simp
      · rw [if_neg (Ne.symm hp), if_neg hp]
        simp [hp]
    simp only [hle, List.forall_mem_cons]
    constructor
    · rintro ⟨⟨hnil, hin, hcopy⟩, hall, hcopies⟩
      exact ⟨hnil, fun p hp => ⟨fun h => hin (h ▸ hp), hall p hp⟩, hcopy, hcopies⟩
    · rintro ⟨hnil, hall, hcopy, hcopies⟩
      exact ⟨⟨hnil, fun ho => (hall _ ho).1 rfl, hcopy⟩, fun p hp => (hall p hp).2, hcopies⟩

end Step

/-! ### The expected rules -/

def Spec.addOrder (s : Spec) : List ℕ :=
  if s.config.isNativeSidecar then sidecarAddOrder else Molebridge.addOrder

theorem rules_priority {s : Spec} {f : Family} {r : Rule} (h : r ∈ s.rules f) :
    s.owned r.priority = true ∧ r.priority ∈ s.addOrder := by
  have hmem := (addedRule_of_mem (mem_rules h).2).priority_mem
  unfold Config.priorities at hmem
  unfold Spec.owned Spec.addOrder
  split_ifs at hmem ⊢ with hn hg
  · exact (by decide : ∀ p ∈ [88, 89, 90, 93, 94, 96, 97, 98],
      (decide (1 ≤ p) && decide (p ≤ prioBackstop)) = true ∧ p ∈ sidecarAddOrder) _ hmem
  · exact (by decide : ∀ p ∈ [1, 80, 88, 89, 90, 91, 92, 94, 95, 96, 97, 102, 103, 104],
      (decide (p ≤ 97) || (decide (prioGluetunMark ≤ p) && decide (p ≤ prioKillSwitch))) = true ∧
        p ∈ addOrder) _ hmem
  · exact (by decide : ∀ p ∈ [1, 80, 90, 94, 95, 96, 97, 98],
      decide (p ≤ prioBackstop) = true ∧ p ∈ addOrder) _ hmem

/-! ### The additions -/

theorem addsAt_append (l l' : List Action) (p : ℕ) :
    addsAt (l ++ l') p = addsAt l p + addsAt l' p := by
  simp [addsAt]

theorem addsAt_eq_zero {l : List Action} (h : ∀ x ∈ l, x.kind ≠ .add) (p : ℕ) :
    addsAt l p = 0 := by
  rw [addsAt, Multiset.coe_eq_zero, List.map_eq_nil_iff, List.filter_eq_nil_iff]
  intro x hx
  simp [h x hx]

def missingAt (want : Want) (q : ℕ) : List Action :=
  (want.filter fun w => w.1.priority == q && !w.2 && !(q == prioKillSwitch && false)).map
    fun w => Action.mk .add q w.1

theorem addsAt_missingAt (want : Want) (q p : ℕ) :
    addsAt (missingAt want q) p = if q = p then openAt want p else 0 := by
  unfold addsAt missingAt
  rw [List.filter_map, List.filter_filter, List.map_map]
  split_ifs with hp
  · subst hp
    rw [openAt, itemsAt, List.filter_map, List.filter_filter, List.map_map]
    simp [Function.comp_def]
  · simp [hp]

theorem addsAt_flatMap (want : Want) (order : List ℕ) (p : ℕ) :
    addsAt (order.flatMap (missingAt want)) p = order.count p • openAt want p := by
  induction order with
  | nil => simp [addsAt]
  | cons q t ih =>
    rw [List.flatMap_cons, addsAt_append, ih, addsAt_missingAt, List.count_cons]
    by_cases hq : q = p
    · simp [add_smul, add_comm]
    · simp [hq]

section Diff

variable {s : Spec} {f : Family} {actual : List Rule}

theorem leftReturnPath_eq_nil (hskip : ∀ p, s.skipped f p = false) :
    leftReturnPath s f actual = [] := by
  unfold leftReturnPath
  induction actual with
  | nil => rfl
  | cons a t ih => simp [hskip]

theorem addOrder_lt (h : p ∈ s.addOrder) : p < 2 ^ 32 := by
  unfold Spec.addOrder at h
  split_ifs at h
  · exact (by decide : ∀ p ∈ sidecarAddOrder, p < 2 ^ 32) p h
  · exact (by decide : ∀ p ∈ addOrder, p < 2 ^ 32) p h

theorem addOrder_nodup (s : Spec) : s.addOrder.Nodup := by
  unfold Spec.addOrder
  split_ifs <;> decide

/-- The comparison without skipped priorities: what is still open is added in the
order of the backend, and then comes what the scan noted. -/
theorem diff_eq (hskip : ∀ p, s.skipped f p = false) :
    diff s f actual false =
      s.addOrder.flatMap (missingAt
        (actual.foldl (diffStep s f []) { want := (s.rules f).map (·, false) }).want) ++
      (actual.foldl (diffStep s f []) { want := (s.rules f).map (·, false) }).removals := by
  unfold diff
  rw [leftReturnPath_eq_nil hskip]
  simp only [List.filter_nil, List.map_nil, List.flatMap_cons, List.flatMap_nil, List.append_nil]
  rfl

theorem wantOwned_rules (s : Spec) (f : Family) :
    WantOwned s ((s.rules f).map (·, false)) := by
  intro p hp
  rw [openAt_unmatched, itemsAt_eq_zero]
  rintro r hr rfl
  rw [(rules_priority hr).1] at hp
  cases hp

theorem openAt_scan (hskip : ∀ p, s.skipped f p = false) (actual : List Rule) (p : ℕ) :
    openAt (actual.foldl (diffStep s f []) { want := (s.rules f).map (·, false) }).want p =
      itemsAt (s.rules f) p - itemsAt actual p := by
  rw [foldl_open [] actual (wantOwned_rules s f) (hskip p), openAt_unmatched]

theorem addsAt_diff (hskip : ∀ p, s.skipped f p = false) (p : ℕ) :
    addsAt (diff s f actual false) p = itemsAt (s.rules f) p - itemsAt actual p := by
  have hopen := openAt_scan hskip actual p
  rw [diff_eq hskip, addsAt_append, addsAt_flatMap, addsAt_eq_zero (foldl_kind (by simp)),
    add_zero, hopen]
  by_cases hp : p ∈ s.addOrder
  · rw [List.count_eq_one_of_mem (addOrder_nodup s) hp, one_smul]
  · have hzero : itemsAt (s.rules f) p = 0 :=
      itemsAt_eq_zero.2 fun r hr h => hp (h ▸ (rules_priority hr).2)
    rw [hzero, Multiset.zero_sub, smul_zero]

theorem missingAt_eq_nil {want : Want} {q : ℕ} : missingAt want q = [] ↔ openAt want q = 0 := by
  rw [missingAt, List.map_eq_nil_iff, List.filter_eq_nil_iff, openAt, itemsAt_eq_zero]
  simp only [Bool.and_false, Bool.not_false, Bool.and_true, List.mem_map, List.mem_filter, Prod.forall, beq_iff_eq,
    Bool.and_eq_true, not_and]
  constructor
  · rintro h r ⟨w, ⟨hw, hopen⟩, rfl⟩ hq
    exact h w.1 w.2 hw hq hopen
  · intro h e m hw hq hm
    exact h e ⟨(e, m), ⟨hw, hm⟩, rfl⟩ hq

theorem leftoverCopy_eq_false (h32 : a.priority < 2 ^ 32) :
    leftoverCopy s f a = false ↔
      ∀ e ∈ s.rules f, e.priority = a.priority + 1 → a.itemSet ≠ e.itemSet := by
  unfold leftoverCopy Spec.rulesAt
  simp only [Bool.and_eq_false_iff, bne_eq_false_iff_eq, List.any_eq_false, List.mem_filter,
    beq_iff_eq, equalItems_iff_itemSet]
  constructor
  · intro h e he hprio heq
    have hlt := addOrder_lt (rules_priority he).2
    rw [← hprio, Nat.mod_eq_of_lt hlt] at h
    rcases h with (h | h) | h
    · omega
    · rw [(rules_priority he).1] at h
      cases h
    · exact h e ⟨he, rfl⟩ heq
  · intro h
    by_cases hwrap : (a.priority + 1) % 2 ^ 32 = 0
    · exact .inl (.inl hwrap)
    · refine .inr fun e he => h e he.1 ?_
      omega

/-- Empty exactly when the items agree, and what is added is what is missing. -/
theorem diff_exact (s : Spec) (f : Family) (actual : List Rule)
    (hskip : ∀ p, s.skipped f p = false) (h32 : ∀ a ∈ actual, a.priority < 2 ^ 32) :
    (diff s f actual false = [] ↔
      (∀ p, s.owned p = true → itemsAt actual p = itemsAt (s.rules f) p) ∧
      ∀ a ∈ actual, s.owned a.priority = false →
        ∀ e ∈ s.rules f, e.priority = a.priority + 1 → a.itemSet ≠ e.itemSet) ∧
    ∀ p, addsAt (diff s f actual false) p = itemsAt (s.rules f) p - itemsAt actual p := by
  refine ⟨?_, addsAt_diff hskip⟩
  have hcopies : (∀ a ∈ actual, s.owned a.priority = false → leftoverCopy s f a = false) ↔
      ∀ a ∈ actual, s.owned a.priority = false →
        ∀ e ∈ s.rules f, e.priority = a.priority + 1 → a.itemSet ≠ e.itemSet :=
    forall₂_congr fun a ha => imp_congr_right fun _ => leftoverCopy_eq_false (h32 a ha)
  rw [diff_eq hskip, List.append_eq_nil_iff, List.flatMap_eq_nil_iff,
    foldl_removals [] hskip actual (wantOwned_rules s f) fun _ => rfl, ← hcopies]
  simp only [missingAt_eq_nil, openAt_scan hskip, openAt_unmatched, true_and]
  constructor
  · rintro ⟨hmissing, hmore, hcopy⟩
    refine ⟨fun p hp => le_antisymm (hmore p hp) ?_, hcopy⟩
    by_cases hq : p ∈ s.addOrder
    · exact tsub_eq_zero_iff_le.1 (hmissing p hq)
    · have hzero : itemsAt (s.rules f) p = 0 :=
        itemsAt_eq_zero.2 fun r hr h => hq (h ▸ (rules_priority hr).2)
      rw [hzero]
      exact Multiset.zero_le _
  · rintro ⟨hsame, hcopy⟩
    refine ⟨fun p _ => ?_, fun p hp => le_of_eq (hsame p hp), hcopy⟩
    by_cases hp : s.owned p = true
    · rw [hsame p hp, tsub_self]
    · have hzero : itemsAt (s.rules f) p = 0 :=
        itemsAt_eq_zero.2 fun r hr h => hp (h ▸ (rules_priority hr).1)
      rw [hzero, Multiset.zero_sub]

end Diff

/-- A gluetun exit against a kernel that has only the last of its rules. -/
theorem diff_exact_killSwitch :
    addsAt (diff { config := { kind := .overlay, backend := .gluetun, overlayIf := "wt0" } } .v4
      [{ rejectRule prioKillSwitch .v4 with iifName := "lo" }] false) prioKillSwitch = 0 := by
  rw [(diff_exact _ .v4 _ (fun _ => rfl) (by decide)).2 prioKillSwitch]
  decide

end Molebridge
