import Mathlib.Data.List.Basic
import Mathlib.Order.Defs.Unbundled
import Mathlib.Tactic

/-! Insertion sort by adjacent swaps, and the first least element of a list.
The sort is stable: it commutes with `filter`, and its head is the first least
element. So the first element of the sorted list that passes a test is the
first least one of those that pass it (`find?_insertSort`). -/

namespace Molebridge

variable {α β : Type}

variable {l : List α}

/-- One element moved left past the greater ones; the list is the sorted part,
its last element first. -/
def sink (less : α → α → Bool) (x : α) : List α → List α
  | [] => [x]
  | y :: rest => if less x y then y :: sink less x rest else x :: y :: rest

/-- The elements inserted one after another, the sorted part last element first. -/
def sinkAll (less : α → α → Bool) : List α → List α → List α
  | acc, [] => acc
  | acc, x :: rest => sinkAll less (sink less x acc) rest

def insertSort (less : α → α → Bool) (l : List α) : List α := (sinkAll less [] l).reverse

def firstMin (less : α → α → Bool) : List α → Option α
  | [] => none
  | x :: rest => some (rest.foldl (fun best y => if less y best then y else best) x)

/-- `less` is a strict weak order: not being less is transitive. -/
def NegTrans (less : α → α → Bool) : Prop :=
  ∀ a b c, less a b = false → less b c = false → less a c = false

/-- The sorted part, last element first: nothing is less than what follows it. -/
def Falling (less : α → α → Bool) (l : List α) : Prop := l.Pairwise fun a b => less a b = false

theorem mem_sink (less : α → α → Bool) (x y : α) (l : List α) :
    y ∈ sink less x l ↔ y = x ∨ y ∈ l := by
  induction l with
  | nil => simp [sink]
  | cons z t ih =>
    unfold sink
    split_ifs
    · simp only [List.mem_cons]; tauto
    · simp

theorem mem_sinkAll (less : α → α → Bool) (y : α) (l acc : List α) :
    y ∈ sinkAll less acc l ↔ y ∈ acc ∨ y ∈ l := by
  induction l generalizing acc with
  | nil => simp [sinkAll]
  | cons x t ih => simp only [sinkAll, ih, mem_sink, List.mem_cons]; tauto

@[simp] theorem mem_insertSort (less : α → α → Bool) (y : α) (l : List α) :
    y ∈ insertSort less l ↔ y ∈ l := by
  simp [insertSort, mem_sinkAll]

theorem map_sink (less : β → β → Bool) (g : α → β) (x : α) (l : List α) :
    (sink (fun a b => less (g a) (g b)) x l).map g = sink less (g x) (l.map g) := by
  induction l with
  | nil => rfl
  | cons y t ih =>
    simp only [sink, List.map_cons]
    split_ifs
    · simp [ih]
    · rfl

theorem map_insertSort (less : β → β → Bool) (g : α → β) (l : List α) :
    (insertSort (fun a b => less (g a) (g b)) l).map g = insertSort less (l.map g) := by
  have key : ∀ acc, (sinkAll (fun a b => less (g a) (g b)) acc l).map g
      = sinkAll less (acc.map g) (l.map g) := by
    induction l with
    | nil => intro acc; rfl
    | cons x t ih => intro acc; simp [sinkAll, ih, map_sink]
  simp [insertSort, key]

theorem sink_of_not_less {less : α → α → Bool} {x : α}
    (hl : ∀ z ∈ l, less x z = false) : sink less x l = x :: l := by
  cases l with
  | nil => rfl
  | cons z t => simp [sink, hl z (by simp)]

section Stable

variable {less : α → α → Bool} (nt : NegTrans less) (asymm : ∀ a b, less a b → less b a = false)
include nt asymm

theorem falling_sink (x : α) (h : Falling less l) : Falling less (sink less x l) := by
  induction l with
  | nil => simp [sink, Falling]
  | cons y t ih =>
    obtain ⟨hy, ht⟩ := List.pairwise_cons.1 h
    unfold sink
    split_ifs with hxy
    · refine List.pairwise_cons.2 ⟨fun z hz => ?_, ih ht⟩
      rcases (mem_sink less x z t).1 hz with rfl | hz
      · exact asymm _ _ hxy
      · exact hy z hz
    · have hxy : less x y = false := by simpa using hxy
      refine List.pairwise_cons.2 ⟨fun z hz => ?_, h⟩
      rcases List.mem_cons.1 hz with rfl | hz
      · exact hxy
      · exact nt _ _ _ hxy (hy z hz)

omit asymm in
theorem filter_sink (P : α → Bool) (x : α) (h : Falling less l) :
    (sink less x l).filter P = if P x then sink less x (l.filter P) else l.filter P := by
  induction l with
  | nil => cases hP : P x <;> simp [sink, hP]
  | cons y t ih =>
    obtain ⟨hy, ht⟩ := List.pairwise_cons.1 h
    by_cases hxy : less x y = true
    · cases hPy : P y <;> simp [sink, hxy, hPy, ih ht]; split_ifs <;> rfl
    · have hxy : less x y = false := by simpa using hxy
      have hrest : ∀ z ∈ (y :: t).filter P, less x z = false := by
        intro z hz
        rcases List.mem_cons.1 (List.mem_filter.1 hz).1 with rfl | hz
        · exact hxy
        · exact nt _ _ _ hxy (hy z hz)
      rw [sink_of_not_less hrest]
      cases hP : P x <;> simp [sink, hxy, hP]

theorem filter_insertSort (P : α → Bool) (l : List α) :
    (insertSort less l).filter P = insertSort less (l.filter P) := by
  have key : ∀ acc, Falling less acc →
      (sinkAll less acc l).filter P = sinkAll less (acc.filter P) (l.filter P) := by
    induction l with
    | nil => intro acc _; rfl
    | cons x t ih =>
      intro acc hacc
      rw [sinkAll, ih _ (falling_sink nt asymm x hacc), filter_sink nt P x hacc]
      cases hP : P x <;> simp [hP, sinkAll]
  simp [insertSort, key [] List.Pairwise.nil]

omit asymm in
/-- The least element of the sorted part, its last, after one more insertion. -/
theorem getLast?_sink (x b : α) (h : Falling less l) (hb : l.getLast? = some b) :
    (sink less x l).getLast? = some (if less x b then x else b) := by
  induction l with
  | nil => simp at hb
  | cons y t ih =>
    obtain ⟨hy, ht⟩ := List.pairwise_cons.1 h
    cases t with
    | nil =>
      obtain rfl : y = b := by simpa using hb
      cases hxy : less x y <;> simp [sink, hxy]
    | cons z u =>
      have hb' : (z :: u).getLast? = some b := by simpa using hb
      have hmem : b ∈ z :: u := List.mem_of_getLast? hb'
      by_cases hxy : less x y = true
      · have hne : sink less x (z :: u) ≠ [] := by unfold sink; split_ifs <;> simp
        rw [sink, if_pos hxy, List.getLast?_cons_of_ne_nil hne]
        exact ih ht hb'
      · have hxy : less x y = false := by simpa using hxy
        have hxb : less x b = false := nt _ _ _ hxy (hy b hmem)
        simp [sink, hxy, hxb] at hb ⊢
        exact hb

theorem getLast?_sinkAll (l : List α) (b : α) {acc : List α} (h : Falling less acc)
    (hb : acc.getLast? = some b) :
    (sinkAll less acc l).getLast? =
      some (l.foldl (fun best y => if less y best then y else best) b) := by
  induction l generalizing acc b with
  | nil => exact hb
  | cons x t ih =>
    exact ih _ (falling_sink nt asymm x h) (getLast?_sink nt x b h hb)

theorem head?_insertSort (l : List α) : (insertSort less l).head? = firstMin less l := by
  cases l with
  | nil => rfl
  | cons x t =>
    rw [insertSort, List.head?_reverse]
    exact getLast?_sinkAll nt asymm t x (List.pairwise_singleton _ _) rfl

theorem find?_insertSort (P : α → Bool) (l : List α) :
    (insertSort less l).find? P = firstMin less (l.filter P) := by
  rw [← List.head?_filter, filter_insertSort nt asymm, head?_insertSort nt asymm]

end Stable

end Molebridge
