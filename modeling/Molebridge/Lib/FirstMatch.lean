import Mathlib.Data.List.Basic
import Mathlib.Tactic

/-! Deletion by matching: each request removes the first element of a list that it matches, and
the next one meets what is left. -/

namespace Molebridge

variable {α : Type*} (m : α → α → Bool)

/-- Requests carried out one after another: each finds an element to take, and one with the
property. -/
def TakesOnly (p : α → Prop) : List α → List α → Prop
  | _, [] => True
  | l, req :: reqs => (∃ x, l.find? (m req) = some x ∧ p x) ∧ TakesOnly p (l.eraseP (m req)) reqs

variable {m}

theorem takesOnly_congr {p q : α → Prop} {l : List α} (h : ∀ x ∈ l, (p x ↔ q x)) (reqs : List α) :
    TakesOnly m p l reqs ↔ TakesOnly m q l reqs := by
  induction reqs generalizing l with
  | nil => rfl
  | cons req reqs ih =>
    refine and_congr (exists_congr fun x => and_congr_right fun hx => ?_) ?_
    · exact h x (List.mem_of_find?_eq_some hx)
    · exact ih fun x hx => h x (List.mem_of_mem_eraseP hx)

variable {d : α → Bool} {Q : α → Prop} {kept l : List α} {b : α}

/-- No element of the list that a request of its own removes follows one that the request
matches and that is to stay. -/
def Unobstructed (m : α → α → Bool) (d : α → Bool) (Q : α → Prop) (kept l : List α) : Prop :=
  ∀ pre a post, l = pre ++ a :: post → d a = true → ∀ x ∈ kept ++ pre, m a x = true → d x = true ∨ Q x

theorem unobstructed_cons : Unobstructed m d Q kept (b :: l) ↔
    (d b = true → ∀ x ∈ kept, m b x = true → d x = true ∨ Q x) ∧ Unobstructed m d Q (kept ++ [b]) l := by
  constructor
  · intro h
    refine ⟨fun hb x hx => h [] b l rfl hb x (List.mem_append_left _ hx), ?_⟩
    rintro pre a post rfl ha x hx
    exact h (b :: pre) a post rfl ha x (by simpa using hx)
  · rintro ⟨hb, h⟩ pre a post heq ha x hx
    cases pre with
    | nil =>
      cases heq
      exact hb ha x (by simpa using hx)
    | cons y pre =>
      cases heq
      exact h pre a post rfl ha x (by simpa using hx)

theorem unobstructed_congr {kept' : List α} (h : ∀ x, ¬ (d x = true ∨ Q x) → (x ∈ kept ↔ x ∈ kept')) :
    Unobstructed m d Q kept l ↔ Unobstructed m d Q kept' l := by
  have himp : ∀ {k k' : List α}, (∀ x, ¬ (d x = true ∨ Q x) → x ∈ k' → x ∈ k) →
      Unobstructed m d Q k l → Unobstructed m d Q k' l := by
    intro k k' hk h pre a post heq ha x hx hm
    by_contra hno
    rcases List.mem_append.1 hx with hx | hx
    · exact hno (h pre a post heq ha x (List.mem_append_left _ (hk x hno hx)) hm)
    · exact hno (h pre a post heq ha x (List.mem_append_right _ hx) hm)
  exact ⟨himp fun x hx => (h x hx).2, himp fun x hx => (h x hx).1⟩

/-- A request that matches nothing before its own element takes that. -/
theorem takes_own (hrefl : ∀ a, m a a = true) (h : ∀ x ∈ kept, m b x = false) :
    (kept ++ b :: l).find? (m b) = some b ∧ (kept ++ b :: l).eraseP (m b) = kept ++ l := by
  constructor
  · rw [List.find?_append, List.find?_eq_none.2 fun x hx => by simp [h x hx]]
    simp [hrefl]
  · rw [List.eraseP_append_right _ fun x hx => by simp [h x hx], List.eraseP_cons_of_pos (hrefl b)]

theorem takes_earlier {x : α} (hx : x ∈ kept) (h : m b x = true) :
    ∃ y ∈ kept, m b y = true ∧ (kept ++ b :: l).find? (m b) = some y ∧
      (kept ++ b :: l).eraseP (m b) = kept.eraseP (m b) ++ [b] ++ l := by
  obtain ⟨y, hy⟩ := Option.isSome_iff_exists.1 (List.find?_isSome.2 ⟨x, hx, h⟩)
  refine ⟨y, List.mem_of_find?_eq_some hy, List.find?_some hy, by simp [List.find?_append, hy], ?_⟩
  rw [List.eraseP_append_left h _ hx, List.append_assoc, List.singleton_append]

/-- The requests for the rest of a list, when every element before it that has a request of its
own is one of those that go anyway. -/
theorem takesOnly_rest (hrefl : ∀ a, m a a = true) (hQ : ∀ a x, m a x = true → (Q x ↔ Q a))
    (kept : List α) (hkept : ∀ y ∈ kept, d y = true → Q y) :
    TakesOnly m (fun x => d x = true ∨ Q x) (kept ++ l) (l.filter d) ↔ Unobstructed m d Q kept l := by
  induction l generalizing kept with
  | nil => simp [TakesOnly, Unobstructed]
  | cons b l ih =>
    rw [unobstructed_cons]
    cases hb : d b with
    | false =>
      -- no request: the element joins those before
      have hkept' : ∀ y ∈ kept ++ [b], d y = true → Q y := by
        intro y hy hd
        rcases List.mem_append.1 hy with hy | hy
        · exact hkept y hy hd
        · rw [List.mem_singleton.1 hy, hb] at hd
          cases hd
      rw [List.filter_cons_of_neg (by simp [hb]), List.append_cons, ih _ hkept']
      simp
    | true =>
      rw [List.filter_cons_of_pos hb, TakesOnly]
      by_cases hnone : ∀ x ∈ kept, m b x = false
      · obtain ⟨hfind, herase⟩ := takes_own (l := l) hrefl hnone
        have hsame : ∀ x, ¬ (d x = true ∨ Q x) → (x ∈ kept ++ [b] ↔ x ∈ kept) := by
          intro x hx
          have hne : x ≠ b := by
            rintro rfl
            exact hx (.inl hb)
          simp [hne]
        rw [hfind, herase, ih _ hkept, unobstructed_congr hsame]
        simp +contextual [hb, hnone]
      · push Not at hnone
        obtain ⟨x, hx, hne⟩ := hnone
        obtain ⟨y, hmem, hm, hfind, herase⟩ := takes_earlier (l := l) hx (by simpa using hne)
        by_cases hq : Q b
        · -- it takes one that goes anyway, and its own element stays
          have hkept' : ∀ z ∈ kept.eraseP (m b) ++ [b], d z = true → Q z := by
            intro z hz hd
            rcases List.mem_append.1 hz with hz | hz
            · exact hkept z (List.mem_of_mem_eraseP hz) hd
            · rwa [List.mem_singleton.1 hz]
          have hsame : ∀ x, ¬ (d x = true ∨ Q x) → (x ∈ kept.eraseP (m b) ++ [b] ↔ x ∈ kept ++ [b]) := by
            intro x hx
            have hno : ¬ m b x = true := fun h => hx (.inr ((hQ b x h).2 hq))
            rw [List.mem_append, List.mem_append, List.mem_eraseP_of_neg hno]
          rw [hfind, herase, ih _ hkept', unobstructed_congr hsame]
          refine and_congr_left fun _ => ⟨fun _ _ x _ hx => .inr ((hQ b x hx).2 hq), fun _ => ?_⟩
          exact ⟨y, rfl, .inr ((hQ b y hm).2 hq)⟩
        · -- it takes one that is to stay
          have hstays : ¬ (d y = true ∨ Q y) := by
            rintro (h | h)
            · exact hq ((hQ b y hm).1 (hkept y hmem h))
            · exact hq ((hQ b y hm).1 h)
          rw [hfind]
          refine iff_of_false ?_ fun h => hstays (h.1 rfl y hmem hm)
          rintro ⟨⟨x, hx, hgoes⟩, -⟩
          cases hx
          exact hstays hgoes

/-- Of a list whose elements with a request of their own, and no others, are asked to go one by
one, only elements that go are taken exactly when none that stays is in the way. `Q` is a second
reason to go, shared by all that a request matches. -/
theorem takesOnly_filter_iff (hrefl : ∀ a, m a a = true) (hQ : ∀ a x, m a x = true → (Q x ↔ Q a))
    (l : List α) : TakesOnly m (fun x => d x = true ∨ Q x) l (l.filter d) ↔
      ∀ pre a post, l = pre ++ a :: post → d a = true → ∀ x ∈ pre, m a x = true → d x = true ∨ Q x :=
  takesOnly_rest hrefl hQ [] (by simp)

end Molebridge
