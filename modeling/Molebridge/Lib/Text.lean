import Mathlib.Data.List.DropRight
import Mathlib.Data.List.Basic

/-! Texts as lists of characters: cutting at a separator and trimming. Splitting at every
separator is the library's `List.splitOn`. -/

namespace Molebridge.Text

variable {α : Type*} {s : List α}

def trim (p : α → Bool) (s : List α) : List α :=
  (s.dropWhile p).rdropWhile p

theorem trim_eq_self {p : α → Bool} (hhead : ∀ x ∈ s.head?, p x = false)
    (hlast : ∀ x ∈ s.getLast?, p x = false) : trim p s = s := by
  have hdrop : s.dropWhile p = s := by
    cases s with
    | nil => rfl
    | cons x rest => rw [List.dropWhile_cons_of_neg (by simpa using hhead x rfl)]
  rw [trim, hdrop, List.rdropWhile_eq_self_iff]
  intro hne
  rw [hlast _ (List.getLast?_eq_getLast_of_ne_nil hne)]
  exact Bool.false_ne_true

/-- What a text gains: a word that was not in it is in the last part of it with what was added,
if that part is all but a character as long as the word. -/
theorem infix_append_iff {word kept read more : List α} (hnew : ¬ word <:+: read) (hkept : kept <:+ read)
    (hlong : kept = read ∨ word.length ≤ kept.length + 1) : word <:+: read ++ more ↔ word <:+: kept ++ more := by
  obtain ⟨front, rfl⟩ := hkept
  constructor
  · rintro ⟨before, after, h⟩
    by_cases hle : front.length ≤ before.length
    · rw [List.append_assoc, List.append_assoc] at h
      obtain ⟨before', rfl⟩ := List.prefix_of_prefix_length_le ⟨_, rfl⟩ (h ▸ List.prefix_append _ _) hle
      exact ⟨before', after, by simpa using h⟩
    · refine absurd ?_ hnew
      have hshort : (before ++ word).length ≤ (front ++ kept).length := by
        rcases hlong with hlong | hlong
        · have := congrArg List.length hlong
          simp only [List.length_append] at this
          omega
        · simp only [List.length_append]
          omega
      obtain ⟨rest, hrest⟩ := List.prefix_of_prefix_length_le ⟨_, h⟩ (List.prefix_append _ _) hshort
      exact ⟨before, rest, hrest⟩
  · rintro ⟨before, after, h⟩
    exact ⟨front ++ before, after, by simp [← h]⟩

theorem getLast?_intercalate {sep : α} {fields : List (List α)} (h : ∀ f ∈ fields, sep ∉ f ∧ f ≠ []) :
    ([sep].intercalate fields).getLast? ≠ some sep := by
  induction fields with
  | nil => simp
  | cons f rest ih =>
    have hf := h f (.head _)
    have hrest := ih fun g hg => h g (.tail _ hg)
    cases rest with
    | nil =>
      rw [List.intercalate_singleton]
      exact fun hlast => hf.1 (List.mem_of_getLast? hlast)
    | cons g rest =>
      have hne : [sep].intercalate (g :: rest) ≠ [] := by
        have hg := (h g (.tail _ (.head _))).2
        cases rest <;> simp [hg]
      rw [List.intercalate_cons_cons, List.getLast?_append_of_ne_nil _ hne]
      exact hrest

variable [DecidableEq α] {sep : α} {front back : List α}

def cut (sep : α) : List α → Option (List α × List α)
  | [] => none
  | x :: rest => if x = sep then some ([], rest) else (cut sep rest).map fun p => (x :: p.1, p.2)

def cutLast (sep : α) (s : List α) : Option (List α × List α) :=
  (cut sep s.reverse).map fun p => (p.2.reverse, p.1.reverse)

/-- The text before and after the first doubled separator. -/
def cutDouble (sep : α) : List α → Option (List α × List α)
  | x :: y :: rest =>
    if x = sep ∧ y = sep then some ([], rest)
    else (cutDouble sep (y :: rest)).map fun p => (x :: p.1, p.2)
  | _ => none

theorem cut_append (h : sep ∉ front) (back : List α) :
    cut sep (front ++ sep :: back) = some (front, back) := by
  induction front with
  | nil => simp [cut]
  | cons x rest ih =>
    simp only [List.mem_cons, not_or] at h
    rw [List.cons_append, cut, if_neg (Ne.symm h.1), ih h.2]
    rfl

/-- No doubled separator up to the first one, and none that starts earlier. -/
theorem cutDouble_append (h : cutDouble sep front = none) (hend : front.getLast? ≠ some sep)
    (back : List α) : cutDouble sep (front ++ sep :: sep :: back) = some (front, back) := by
  induction front with
  | nil => simp [cutDouble]
  | cons x rest ih =>
    cases rest with
    | nil =>
      have hx : x ≠ sep := by simpa using hend
      simp [cutDouble, hx]
    | cons y rest =>
      rw [cutDouble] at h
      split_ifs at h with hxy
      have hrest : cutDouble sep (y :: rest) = none := by simpa using h
      rw [List.cons_append, List.cons_append, cutDouble, if_neg hxy, ← List.cons_append,
        ih hrest (by simpa using hend)]
      rfl

theorem cutDouble_cons_none {x : α} (hx : x ≠ sep ∨ s.head? ≠ some sep) (h : cutDouble sep s = none) :
    cutDouble sep (x :: s) = none := by
  cases s with
  | nil => rfl
  | cons y rest =>
    have hxy : ¬ (x = sep ∧ y = sep) := by
      rintro ⟨rfl, rfl⟩
      rcases hx with hx | hx
      · exact hx rfl
      · exact hx rfl
    rw [cutDouble, if_neg hxy, h]
    rfl

theorem cutDouble_append_none (hfront : sep ∉ front) (h : cutDouble sep s = none) :
    cutDouble sep (front ++ s) = none := by
  induction front with
  | nil => exact h
  | cons x rest ih =>
    simp only [List.mem_cons, not_or] at hfront
    exact cutDouble_cons_none (.inl (Ne.symm hfront.1)) (ih hfront.2)

theorem cutDouble_intercalate {fields : List (List α)} (h : ∀ f ∈ fields, sep ∉ f ∧ f ≠ []) :
    cutDouble sep ([sep].intercalate fields) = none := by
  induction fields with
  | nil => rfl
  | cons f rest ih =>
    have hf := h f (.head _)
    have hrest := ih fun g hg => h g (.tail _ hg)
    cases rest with
    | nil =>
      exact cutDouble_append_none hf.1 rfl
    | cons g rest =>
      have hg := h g (.tail _ (.head _))
      refine cutDouble_append_none hf.1 (cutDouble_cons_none (.inr ?_) hrest)
      obtain ⟨y, g, rfl⟩ := List.exists_cons_of_ne_nil hg.2
      have hy : y ≠ sep := fun h => hg.1 (h ▸ (.head _))
      cases rest with
      | nil => simpa using hy
      | cons => simpa using hy

end Molebridge.Text
