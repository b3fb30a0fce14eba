import Molebridge.Lib.FirstMatch
import Molebridge.Proofs.DiffExact

/-! What a planned removal hits. The kernel carries out a delete on the first rule
that has every attribute the request gives, so the comparison deletes a rule by
itself only where it sees no rule that stays in the way. It looks for that in the
expected rules, not in the rules it keeps: the two have the same items, and may
still differ in what the items leave out (a protocol, host bits of a prefix, a mark
with an empty mask). Which rules go by a delete of their own (`doomed`) and which
priorities are rebuilt (`Rebuilt`) is said here without the scan. -/

namespace Molebridge

/-- The rule is planned to go, by a delete or with its priority. -/
def Leaves (s : Spec) (f : Family) (actual : List Rule) (hold : Bool) (x : Rule) : Prop :=
  (∃ d ∈ diff s f actual hold, d.kind = .del ∧ d.rule = x) ∨
    ∃ b ∈ diff s f actual hold, b.kind = .sub ∧ b.priority = x.priority

/-- The requests of the planned deletes, in the order of the plan. -/
def deletes (s : Spec) (f : Family) (actual : List Rule) (hold : Bool) : List Rule :=
  ((diff s f actual hold).filter fun d => d.kind = .del).map (·.rule)

/-- Carried out in order by the kernel, which takes for each the first rule that has
every attribute the request gives (the priority among them) of those the deletes
before it left, the planned deletes take only rules that are planned to go. -/
def HitsOnlyRemoved (s : Spec) (f : Family) (actual : List Rule) (hold : Bool) : Prop :=
  TakesOnly deleteMatches (Leaves s f actual hold) actual (deletes s f actual hold)

/-- An expected rule of the priority contains the rule's items or has every attribute
of its delete request. -/
def coveredBy (a : Rule) (expected : List Rule) : Bool :=
  expected.any fun e => e.priority == a.priority && (subsetOf a.items e.items || deleteMatches a e)

def leftAt (s : Spec) (f : Family) (actual : List Rule) (p : ℕ) : List Rule :=
  (leftReturnPath s f actual).filter (·.priority == p)

/-- The rules the comparison deletes one by one. -/
def doomed (s : Spec) (f : Family) (actual : List Rule) (a : Rule) : Bool :=
  if s.owned a.priority then
    if s.skipped f a.priority then
      !s.returnPathShaped f a && !deleteMayTake a (leftAt s f actual a.priority)
    else !coveredBy a (s.rules f)
  else leftoverCopy s f a

/-- The priorities the comparison rebuilds: one where a rule that has to go, being no
return-path rule or one more with its items than the contract has, could take with
its delete a rule that stays. -/
def Rebuilt (s : Spec) (f : Family) (actual : List Rule) (p : ℕ) : Prop :=
  s.owned p = true ∧ ∃ b ∈ actual, b.priority = p ∧
    if s.skipped f p then
      s.returnPathShaped f b = false ∧ deleteMayTake b (leftAt s f actual p) = true
    else coveredBy b (s.rules f) = true ∧
      (itemsAt (s.rules f) p).count b.itemSet < (itemsAt actual p).count b.itemSet

/-! ### One rule of the kernel -/

variable {a : Rule}

theorem matchWant_covered (want : Want) (covered : Bool) (h : (matchWant a want covered).1 = false) :
    (matchWant a want covered).2.1 = (covered || coveredBy a (want.map Prod.fst)) := by
  induction want generalizing covered with
  | nil => simp [matchWant, coveredBy]
  | cons w rest ih =>
    obtain ⟨e, m⟩ := w
    unfold matchWant at h ⊢
    by_cases hprio : e.priority = a.priority
    · rw [if_neg (not_not.2 hprio)] at h ⊢
      by_cases hit : (!m && equalItems a.items e.items) = true
      · rw [if_pos hit] at h
        cases h
      · rw [if_neg hit] at h ⊢
        rw [ih _ h]
        simp [coveredBy, hprio, Bool.or_assoc]
    · rw [if_pos hprio] at h ⊢
      have hne : (e.priority == a.priority) = false := by simpa using hprio
      rw [ih _ h]
      simp [coveredBy, hne]

theorem coveredBy_of_equal {e : Rule} {expected : List Rule} (he : e ∈ expected)
    (hprio : e.priority = a.priority) (h : a.itemSet = e.itemSet) : coveredBy a expected = true := by
  refine List.any_eq_true.2 ⟨e, he, ?_⟩
  have hsub : subsetOf a.items e.items = true := by
    have := (equalItems_iff a.items e.items).1 ((equalItems_iff_itemSet a e).2 h)
    exact List.all_eq_true.2 fun i hi => by simpa using (this i).1 hi
  simp [hprio, hsub]

section Scan

variable {s : Spec} {f : Family} {actual : List Rule}

def rebuilds (s : Spec) (f : Family) (actual : List Rule) (want : Want) (a : Rule) : Prop :=
  s.owned a.priority = true ∧
    if s.skipped f a.priority then
      s.returnPathShaped f a = false ∧ deleteMayTake a (leftAt s f actual a.priority) = true
    else a.itemSet ∉ openAt want a.priority ∧ coveredBy a (s.rules f) = true

/-- What becomes of one rule: a delete of its own, a rebuild, or nothing. -/
inductive Fate (s : Spec) (f : Family) (actual : List Rule) (st : DiffState) (a : Rule) : Prop
  | del (h : doomed s f actual a = true) (h' : ¬ rebuilds s f actual st.want a)
      (heq : diffStep s f (leftReturnPath s f actual) st a = st.del a)
  | sub (h : doomed s f actual a = false) (h' : rebuilds s f actual st.want a)
      (heq : diffStep s f (leftReturnPath s f actual) st a = st.sub a)
  | stay (h : doomed s f actual a = false) (h' : ¬ rebuilds s f actual st.want a)
      (heq : (diffStep s f (leftReturnPath s f actual) st a).removals = st.removals ∧
        (diffStep s f (leftReturnPath s f actual) st a).subbed = st.subbed)

variable {st : DiffState} {d : Action} {hold : Bool}

theorem coveredBy_of_open (hwant : st.want.map Prod.fst = s.rules f)
    (h : a.itemSet ∈ openAt st.want a.priority) : coveredBy a (s.rules f) = true := by
  obtain ⟨e, he, hprio, hitems⟩ := mem_itemsAt.1 h
  obtain ⟨w, hw, rfl⟩ := List.mem_map.1 he
  refine coveredBy_of_equal ?_ hprio hitems.symm
  rw [← hwant]
  exact List.mem_map_of_mem (List.mem_filter.1 hw).1

theorem fate_diffStep (actual : List Rule)
    (hwant : st.want.map Prod.fst = s.rules f) (a : Rule) : Fate s f actual st a := by
  cases ho : s.owned a.priority with
  | false =>
    have hstep : diffStep s f (leftReturnPath s f actual) st a =
        if leftoverCopy s f a then st.del a else st := by
      simp [diffStep, ho]
    have hno : ¬ rebuilds s f actual st.want a := fun h => by simp [rebuilds, ho] at h
    have hdoomed : doomed s f actual a = leftoverCopy s f a := by simp [doomed, ho]
    cases hcopy : leftoverCopy s f a with
    | true => exact .del (hdoomed.trans hcopy) hno (by simp [hstep, hcopy])
    | false => exact .stay (hdoomed.trans hcopy) hno (by simp [hstep, hcopy])
  | true =>
    cases hskip : s.skipped f a.priority with
    | true =>
      have hstep : diffStep s f (leftReturnPath s f actual) st a =
          if s.returnPathShaped f a then st
          else if deleteMayTake a (leftAt s f actual a.priority) then st.sub a else st.del a := by
        rw [diffStep, if_neg (by simp [ho]), if_pos hskip]
        rfl
      cases hshape : s.returnPathShaped f a <;>
        cases htake : deleteMayTake a (leftAt s f actual a.priority)
      · exact .del (by simp [doomed, *]) (by simp [rebuilds, *]) (by simp [*])
      · exact .sub (by simp [doomed, *]) (by simp [rebuilds, *]) (by simp [*])
      all_goals exact .stay (by simp [doomed, *]) (by simp [rebuilds, *]) (by simp [*])
    | false =>
      have hdoomed : doomed s f actual a = !coveredBy a (s.rules f) := by simp [doomed, ho, hskip]
      have hreb : rebuilds s f actual st.want a ↔
          a.itemSet ∉ openAt st.want a.priority ∧ coveredBy a (s.rules f) = true := by
        simp [rebuilds, ho, hskip]
      cases hany : st.want.any fun w => w.1.priority == a.priority with
      | false =>
        have hcov : coveredBy a (s.rules f) = false := by
          rw [← hwant]
          rw [List.any_eq_false] at hany
          refine List.any_eq_false.2 fun e he => ?_
          obtain ⟨w, hw, rfl⟩ := List.mem_map.1 he
          simp [hany w hw]
        exact .del (by simp [hdoomed, hcov]) (by simp [hreb, hcov])
          (by simp [diffStep, ho, hskip, hany])
      | true =>
        have hstep : diffStep s f (leftReturnPath s f actual) st a =
            if (matchWant a st.want false).1 then
              { st with want := (matchWant a st.want false).2.2 }
            else if (matchWant a st.want false).2.1 then st.sub a else st.del a := by
          simp [diffStep, ho, hskip, hany]
        obtain ⟨hkept, -⟩ := matchWant_open a st.want false
        cases hk : (matchWant a st.want false).1 with
        | true =>
          have hopen := hkept.1 hk
          have hcov := coveredBy_of_open hwant hopen
          exact .stay (by simp [hdoomed, hcov]) (by simp [hreb, hopen]) (by simp [hstep, hk])
        | false =>
          have hno : a.itemSet ∉ openAt st.want a.priority := by
            rw [← hkept, hk]
            decide
          have hcov := matchWant_covered st.want false hk
          rw [hwant, Bool.false_or] at hcov
          cases hc : coveredBy a (s.rules f) with
          | true =>
            exact .sub (by simp [hdoomed, hc]) (by simp [hreb, hno, hc]) (by simp [hstep, hk, hcov, hc])
          | false =>
            exact .del (by simp [hdoomed, hc]) (by simp [hreb, hc]) (by simp [hstep, hk, hcov, hc])

/-! ### The whole scan -/

theorem foldl_dels (rules : List Rule) (hwant : st.want.map Prod.fst = s.rules f) :
    (rules.foldl (diffStep s f (leftReturnPath s f actual)) st).removals.filter (fun d => d.kind = .del) =
      st.removals.filter (fun d => d.kind = .del) ++
        (rules.filter (doomed s f actual)).map fun a => ⟨.del, a.priority, a⟩ := by
  induction rules generalizing st with
  | nil => simp
  | cons a t ih =>
    rw [List.foldl_cons, ih ((diffStep_rules st a).trans hwant)]
    cases fate_diffStep actual hwant a with
    | del h _ heq => simp [heq, DiffState.del, h]
    | sub h _ heq =>
      rw [heq]
      unfold DiffState.sub
      split_ifs <;> simp [h]
    | stay h _ heq => simp [heq.1, h]

/-- The priorities that were rebuilt are those with a rebuild among the removals. -/
def Synced (st : DiffState) : Prop :=
  ∀ p, p ∈ st.subbed ↔ ∃ b ∈ st.removals, b.kind = .sub ∧ b.priority = p

theorem synced_sub (h : Synced st) (a : Rule) :
    Synced (st.sub a) ∧ ∀ p, (∃ b ∈ (st.sub a).removals, b.kind = .sub ∧ b.priority = p) ↔
      (∃ b ∈ st.removals, b.kind = .sub ∧ b.priority = p) ∨ a.priority = p := by
  unfold DiffState.sub
  split_ifs with hmem
  · refine ⟨h, fun p => ⟨.inl, ?_⟩⟩
    rintro (hb | rfl)
    · exact hb
    · exact (h a.priority).1 (by simpa using hmem)
  · have hiff : ∀ p, (∃ b ∈ st.removals ++ [⟨.sub, a.priority, a⟩], b.kind = .sub ∧ b.priority = p) ↔
        (∃ b ∈ st.removals, b.kind = .sub ∧ b.priority = p) ∨ a.priority = p := by
      intro p
      simp
    refine ⟨fun p => ?_, hiff⟩
    rw [hiff, List.mem_cons, h p, or_comm, eq_comm]

theorem synced_del (h : Synced st) (a : Rule) :
    Synced (st.del a) ∧ ∀ p, (∃ b ∈ (st.del a).removals, b.kind = .sub ∧ b.priority = p) ↔
      ∃ b ∈ st.removals, b.kind = .sub ∧ b.priority = p := by
  have hiff : ∀ p, (∃ b ∈ (st.del a).removals, b.kind = .sub ∧ b.priority = p) ↔
      ∃ b ∈ st.removals, b.kind = .sub ∧ b.priority = p := by
    intro p
    simp [DiffState.del]
  exact ⟨fun p => (h p).trans (hiff p).symm, hiff⟩

theorem foldl_subs (rules : List Rule) (hwant : st.want.map Prod.fst = s.rules f)
    (hsync : Synced st) (p : ℕ) :
    (∃ b ∈ (rules.foldl (diffStep s f (leftReturnPath s f actual)) st).removals,
        b.kind = .sub ∧ b.priority = p) ↔
      (∃ b ∈ st.removals, b.kind = .sub ∧ b.priority = p) ∨
        ∃ pre a post, rules = pre ++ a :: post ∧ a.priority = p ∧ rebuilds s f actual
          (pre.foldl (diffStep s f (leftReturnPath s f actual)) st).want a := by
  induction rules generalizing st with
  | nil => simp
  | cons a t ih =>
    have hstep : Synced (diffStep s f (leftReturnPath s f actual) st a) ∧
        ((∃ b ∈ (diffStep s f (leftReturnPath s f actual) st a).removals,
          b.kind = .sub ∧ b.priority = p) ↔ (∃ b ∈ st.removals, b.kind = .sub ∧ b.priority = p) ∨
            (a.priority = p ∧ rebuilds s f actual st.want a)) := by
      cases fate_diffStep actual hwant a with
      | del _ h' heq =>
        rw [heq]
        exact ⟨(synced_del hsync a).1, by simp [(synced_del hsync a).2 p, h']⟩
      | sub _ h' heq =>
        rw [heq]
        exact ⟨(synced_sub hsync a).1, by simp [(synced_sub hsync a).2 p, h']⟩
      | stay _ h' heq =>
        refine ⟨?_, by simp [heq.1, h']⟩
        unfold Synced
        rw [heq.1, heq.2]
        exact hsync
    rw [List.foldl_cons, ih ((diffStep_rules st a).trans hwant) hstep.1, hstep.2, or_assoc]
    refine or_congr_right ?_
    constructor
    · rintro (⟨hp, hreb⟩ | ⟨pre, b, post, rfl, hp, hreb⟩)
      · exact ⟨[], a, t, rfl, hp, hreb⟩
      · exact ⟨a :: pre, b, post, rfl, hp, hreb⟩
    · rintro ⟨pre, b, post, heq, hp, hreb⟩
      cases pre with
      | nil =>
        cases heq
        exact .inl ⟨hp, hreb⟩
      | cons c pre =>
        cases heq
        exact .inr ⟨pre, b, post, rfl, hp, hreb⟩

/-! ### Without the scan -/

theorem split_of_lt_countP {α : Type*} {q : α → Bool} {l : List α} {n : ℕ} (h : n < l.countP q) :
    ∃ pre a post, l = pre ++ a :: post ∧ q a = true ∧ n ≤ pre.countP q := by
  induction l generalizing n with
  | nil => cases h
  | cons x t ih =>
    by_cases hx : q x = true
    · cases n with
      | zero => exact ⟨[], x, t, rfl, hx, Nat.zero_le _⟩
      | succ n =>
        rw [List.countP_cons_of_pos hx] at h
        obtain ⟨pre, a, post, rfl, ha, _⟩ := ih (Nat.lt_of_succ_lt_succ h)
        refine ⟨x :: pre, a, post, rfl, ha, ?_⟩
        rw [List.countP_cons_of_pos hx]
        omega
    · rw [List.countP_cons_of_neg hx] at h
      obtain ⟨pre, a, post, rfl, ha, _⟩ := ih h
      refine ⟨x :: pre, a, post, rfl, ha, ?_⟩
      rwa [List.countP_cons_of_neg hx]

theorem count_itemsAt (rules : List Rule) (p : ℕ) (x : Finset Item) :
    (itemsAt rules p).count x = rules.countP fun r => r.itemSet == x && r.priority == p := by
  rw [itemsAt, Multiset.coe_count, List.count, List.countP_map, List.countP_filter]
  rfl

theorem notMem_sub_iff {α : Type*} [DecidableEq α] {s t : Multiset α} {x : α} :
    x ∉ s - t ↔ s.count x ≤ t.count x := by
  rw [← Multiset.count_eq_zero, Multiset.count_sub]
  omega

theorem map_fst_unmatched (rules : List Rule) :
    (rules.map fun r => (r, false)).map Prod.fst = rules := by
  simp [Function.comp_def]

def scanned (s : Spec) (f : Family) (actual pre : List Rule) : DiffState :=
  pre.foldl (diffStep s f (leftReturnPath s f actual)) { want := (s.rules f).map (·, false) }

theorem openAt_scanned {p : ℕ} (hp : s.skipped f p = false) (pre : List Rule) :
    openAt (scanned s f actual pre).want p = itemsAt (s.rules f) p - itemsAt pre p := by
  rw [scanned, foldl_open _ pre (wantOwned_rules s f) hp, openAt_unmatched]

/-- Some rule makes the scan rebuild the priority exactly when one there is covered
and there are more with its items than expected. -/
theorem rebuilds_iff (p : ℕ) :
    (∃ pre a post, actual = pre ++ a :: post ∧ a.priority = p ∧
      rebuilds s f actual (scanned s f actual pre).want a) ↔ Rebuilt s f actual p := by
  unfold Rebuilt
  cases hskip : s.skipped f p with
  | true =>
    constructor
    · rintro ⟨pre, a, post, heq, rfl, ho, hreb⟩
      rw [if_pos hskip] at hreb
      exact ⟨ho, a, by simp [heq], rfl, by simpa using hreb⟩
    · rintro ⟨ho, a, ha, rfl, hreb⟩
      obtain ⟨pre, post, heq⟩ := List.append_of_mem ha
      exact ⟨pre, a, post, heq, rfl, ho, by rw [if_pos hskip]; simpa using hreb⟩
  | false =>
    constructor
    · rintro ⟨pre, a, post, heq, rfl, ho, hreb⟩
      rw [if_neg (by simp [hskip]), openAt_scanned hskip, notMem_sub_iff] at hreb
      refine ⟨ho, a, by simp [heq], rfl, hreb.2, lt_of_le_of_lt hreb.1 ?_⟩
      rw [count_itemsAt, count_itemsAt, heq, List.countP_append, List.countP_cons_of_pos (by simp)]
      omega
    · rintro ⟨ho, b, hb, rfl, hcov, hcount⟩
      by_cases hexp : b.itemSet ∈ itemsAt (s.rules f) b.priority
      · rw [count_itemsAt actual] at hcount
        obtain ⟨pre, a, post, heq, ha, hn⟩ := split_of_lt_countP hcount
        rw [Bool.and_eq_true, beq_iff_eq, beq_iff_eq] at ha
        obtain ⟨e, he, hprio, hitems⟩ := mem_itemsAt.1 hexp
        refine ⟨pre, a, post, heq, ha.2, by rw [ha.2]; exact ho, ?_⟩
        rw [if_neg (by simp [ha.2, hskip]), ha.2, openAt_scanned hskip, notMem_sub_iff, ha.1,
          count_itemsAt pre]
        exact ⟨hn, coveredBy_of_equal he (by rw [hprio, ha.2]) (by rw [ha.1, hitems])⟩
      · obtain ⟨pre, post, heq⟩ := List.append_of_mem hb
        refine ⟨pre, b, post, heq, rfl, ho, ?_⟩
        rw [if_neg (by simp [hskip]), openAt_scanned hskip]
        exact ⟨fun h => hexp (Multiset.mem_of_le (Multiset.sub_le_self _ _) h), hcov⟩

theorem diff_eq_append (s : Spec) (f : Family) (actual : List Rule) (hold : Bool) :
    ∃ adds : List Action, (∀ d ∈ adds, d.kind = .add) ∧
      diff s f actual hold = adds ++ (scanned s f actual actual).removals := by
  refine ⟨_, fun d hd => ?_, rfl⟩
  rcases List.mem_append.1 hd with hd | hd
  all_goals
    obtain ⟨p, -, hd⟩ := List.mem_flatMap.1 hd
    obtain ⟨w, -, rfl⟩ := List.mem_map.1 hd
    rfl

theorem mem_diff_removal (hd : d.kind ≠ .add) :
    d ∈ diff s f actual hold ↔ d ∈ (scanned s f actual actual).removals := by
  obtain ⟨adds, hadds, heq⟩ := diff_eq_append s f actual hold
  rw [heq, List.mem_append, or_iff_right fun h => hd (hadds d h)]

theorem filter_diff_del : (diff s f actual hold).filter (fun d => d.kind = .del) =
    (actual.filter (doomed s f actual)).map fun a => ⟨.del, a.priority, a⟩ := by
  obtain ⟨adds, hadds, heq⟩ := diff_eq_append s f actual hold
  have hnone : adds.filter (fun d => d.kind = .del) = [] :=
    List.filter_eq_nil_iff.2 fun d hd => by simp [hadds d hd]
  rw [heq, List.filter_append, hnone, List.nil_append, scanned, foldl_dels actual (map_fst_unmatched _)]
  rfl

theorem mem_diff_del (hd : d.kind = .del) :
    d ∈ diff s f actual hold ↔
      ∃ a ∈ actual, doomed s f actual a = true ∧ d = ⟨.del, a.priority, a⟩ := by
  have hmem : d ∈ (diff s f actual hold).filter (fun d => d.kind = .del) ↔ d ∈ diff s f actual hold := by
    simp [hd]
  rw [← hmem, filter_diff_del]
  simp only [List.mem_map, List.mem_filter, and_assoc, eq_comm]

theorem deletes_eq : deletes s f actual hold = actual.filter (doomed s f actual) := by
  simp [deletes, filter_diff_del, Function.comp_def]

theorem exists_diff_sub (p : ℕ) :
    (∃ b ∈ diff s f actual hold, b.kind = .sub ∧ b.priority = p) ↔ Rebuilt s f actual p := by
  have hmem : (∃ b ∈ diff s f actual hold, b.kind = .sub ∧ b.priority = p) ↔
      ∃ b ∈ (scanned s f actual actual).removals, b.kind = .sub ∧ b.priority = p :=
    exists_congr fun b => and_congr_left fun hb => mem_diff_removal (by simp [hb.1])
  rw [hmem, scanned, foldl_subs actual (map_fst_unmatched _) (fun p => by simp), ← rebuilds_iff]
  simp [scanned]

/-! ### What a delete hits -/

/-- Wherever one that stays stands before a rule whose request it meets, the comparison
sees it or rebuilds the priority for another rule: of one with the items of an expected
rule, some expected rule contains the later rule's items or has the attributes of its
request; of a return-path rule at a skipped priority, the later rule is one itself; of
somebody else's rule, the later one is no copy left over. -/
def Recognised (s : Spec) (f : Family) (actual : List Rule) : Prop :=
  ∀ pre a post, actual = pre ++ a :: post → ∀ x ∈ pre, deleteMatches a x = true →
    if s.owned a.priority then
      Rebuilt s f actual a.priority ∨
        if s.skipped f a.priority then
          s.returnPathShaped f x = true → s.returnPathShaped f a = true
        else x.itemSet ∈ itemsAt (s.rules f) x.priority → coveredBy a (s.rules f) = true
    else leftoverCopy s f a = true → leftoverCopy s f x = true

theorem deleteMatches_refl (a : Rule) : deleteMatches a a = true := by
  have hset : ∀ {w : ℕ} (o : Option (BitVec w)), setDiffers o o = false := by
    intro w o
    cases o <;> simp [setDiffers]
  have hpre : ∀ o : Option Prefix, prefixDiffers o o = false := by
    intro o
    cases o <;> simp [prefixDiffers]
  simp [deleteMatches, hset, hpre, givenDiffers]

theorem deleteMatches_priority {x : Rule} (h : deleteMatches a x = true) :
    x.priority = a.priority := by
  simp only [deleteMatches, List.all_cons, Bool.and_eq_true, id_eq, beq_iff_eq] at h
  exact h.1.symm

theorem rebuilt_of_not_doomed {x : Rule} (hx : x ∈ actual) (ho : s.owned x.priority = true)
    (hskip : s.skipped f x.priority = true → s.returnPathShaped f x = false)
    (hexp : s.skipped f x.priority = false → x.itemSet ∉ itemsAt (s.rules f) x.priority)
    (hd : doomed s f actual x = false) : Rebuilt s f actual x.priority := by
  refine ⟨ho, x, hx, rfl, ?_⟩
  cases hs : s.skipped f x.priority with
  | true => simpa [doomed, ho, hs, hskip hs] using hd
  | false =>
    have hcov : coveredBy x (s.rules f) = true := by simpa [doomed, ho, hs] using hd
    refine ⟨hcov, ?_⟩
    rw [Multiset.count_eq_zero.2 (hexp hs), Multiset.count_pos]
    exact mem_itemsAt.2 ⟨x, hx, rfl, rfl⟩

/-- At an owned priority that is not rebuilt, exactly the rules that have no place there
are doomed. -/
theorem doomed_iff {x : Rule} (hx : x ∈ actual) (ho : s.owned x.priority = true)
    (hr : ¬ Rebuilt s f actual x.priority) : doomed s f actual x = true ↔
      if s.skipped f x.priority then s.returnPathShaped f x = false
      else x.itemSet ∉ itemsAt (s.rules f) x.priority := by
  constructor
  · intro hd
    cases hs : s.skipped f x.priority with
    | true =>
      simp only [doomed, ho, hs, if_true, Bool.and_eq_true, Bool.not_eq_true'] at hd
      exact hd.1
    | false =>
      intro hexp
      obtain ⟨e, he, hep, hitems⟩ := mem_itemsAt.1 hexp
      have hcov := coveredBy_of_equal he hep hitems.symm
      simp [doomed, ho, hs, hcov] at hd
  · intro hstray
    by_contra hd
    refine hr (rebuilt_of_not_doomed hx ho (fun hs => ?_) (fun hs => ?_) (by simpa using hd))
    · rwa [if_pos hs] at hstray
    · rwa [if_neg (by simp [hs])] at hstray

theorem leaves_iff (x : Rule) : Leaves s f actual hold x ↔
    (x ∈ actual ∧ doomed s f actual x = true) ∨ Rebuilt s f actual x.priority := by
  unfold Leaves
  rw [exists_diff_sub]
  refine or_congr_left ⟨?_, ?_⟩
  · rintro ⟨d', hd', hk, rfl⟩
    obtain ⟨a, ha, hdoom, rfl⟩ := (mem_diff_del hk).1 hd'
    exact ⟨ha, hdoom⟩
  · rintro ⟨hx, hdoom⟩
    exact ⟨⟨.del, x.priority, x⟩, (mem_diff_del rfl).2 ⟨x, hx, hdoom, rfl⟩, rfl, rfl⟩

/-- What the comparison has to recognise of a rule in the way of a request is that it
goes. -/
theorem goes_iff {x : Rule} (ha : a ∈ actual) (hx : x ∈ actual) (hprio : x.priority = a.priority) :
    (doomed s f actual a = true → doomed s f actual x = true ∨ Rebuilt s f actual x.priority) ↔
      if s.owned a.priority then
        Rebuilt s f actual a.priority ∨
          if s.skipped f a.priority then
            s.returnPathShaped f x = true → s.returnPathShaped f a = true
          else x.itemSet ∈ itemsAt (s.rules f) x.priority → coveredBy a (s.rules f) = true
      else leftoverCopy s f a = true → leftoverCopy s f x = true := by
  cases ho : s.owned a.priority with
  | false =>
    have hno : ¬ Rebuilt s f actual a.priority := fun h => by
      rw [h.1] at ho
      cases ho
    simp [doomed, hprio, ho, hno]
  | true =>
    by_cases hr : Rebuilt s f actual a.priority
    · simp [hprio, hr]
    have hdoom := doomed_iff hx (hprio ▸ ho) (hprio ▸ hr)
    rw [hprio] at hdoom
    rw [if_pos rfl, hdoom, hprio, or_iff_left hr, or_iff_right hr]
    cases hs : s.skipped f a.priority with
    | true =>
      rw [doomed_iff ha ho hr, if_pos hs]
      cases s.returnPathShaped f a <;> cases s.returnPathShaped f x <;> simp
    | false =>
      rw [show doomed s f actual a = !coveredBy a (s.rules f) by simp [doomed, ho, hs]]
      cases coveredBy a (s.rules f) <;> simp

end Scan

/-- Planned deletes take only rules that go, exactly when every clash with a rule that
stays is one the comparison recognises. -/
theorem hitsOnlyRemoved_iff (s : Spec) (f : Family) (actual : List Rule) (hold : Bool) :
    HitsOnlyRemoved s f actual hold ↔ Recognised s f actual := by
  have hgoes : ∀ x ∈ actual, (Leaves s f actual hold x ↔
      doomed s f actual x = true ∨ Rebuilt s f actual x.priority) := by
    intro x hx
    simp [leaves_iff, hx]
  unfold HitsOnlyRemoved
  rw [takesOnly_congr hgoes, deletes_eq, takesOnly_filter_iff deleteMatches_refl fun a x h => by
    rw [deleteMatches_priority h]]
  refine forall₄_congr fun pre a post heq => ?_
  have ha : a ∈ actual := by simp [heq]
  constructor
  · intro h x hx hm
    exact (goes_iff ha (by simp [heq, hx]) (deleteMatches_priority hm)).1 fun hd => h hd x hx hm
  · intro h hd x hx hm
    exact (goes_iff ha (by simp [heq, hx]) (deleteMatches_priority hm)).2 (h x hx hm) hd

/-- The tunnel address 10.0.0.2 of a native overlay. -/
def exitAddr : Addr := ⟨.v4, 0x0A000002, by decide⟩

def oneAddress : Spec :=
  { config :=
      { kind := .overlay, backend := .native, overlayIf := "wt0", exitIf := "mole0", table := 1000 }
    returnPath := fun f => if f = .v4 then [exitAddr] else [] }

/-- Rule 94 of the address as `ip rule add` installs it, with protocol boot. -/
def bootReturnPath : Rule :=
  { lookupRule prioReturnPath .v4 1000 with
    src := some (Prefix.host exitAddr), ipProto := some 1, protocol := some 3 }

/-- The same lookup for every source. -/
def bootStray : Rule :=
  { lookupRule prioReturnPath .v4 1000 with ipProto := some 1, protocol := some 3 }

/-- The protocol hides the kept rule from the comparison: the stray's delete request
does not match the expected rule, which has no protocol, and takes the kept one. -/
theorem delete_hits_kept : ¬ HitsOnlyRemoved oneAddress .v4 [bootReturnPath, bootStray] false := by
  have hdel : deletes oneAddress .v4 [bootReturnPath, bootStray] false = [bootStray] := by decide
  unfold HitsOnlyRemoved
  rw [hdel]
  rintro ⟨⟨x, hx, hleaves⟩, -⟩
  obtain rfl : bootReturnPath = x := Option.some.inj hx
  revert hleaves
  unfold Leaves
  decide

end Molebridge
