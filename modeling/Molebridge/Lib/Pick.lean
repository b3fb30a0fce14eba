import Mathlib.Data.List.Nodup
import Mathlib.Data.List.Perm.Subperm
import Mathlib.Tactic

/-! One representative for each signature: `pick sig l` keeps the first element
of each class of `l` that `sig` cannot tell apart. -/

namespace Molebridge

variable {α β γ : Type} [DecidableEq β] [DecidableEq γ]

variable {l : List α} {a : α} {sig : α → β}

def pickFrom (sig : α → β) : List β → List α → List α
  | _, [] => []
  | seen, a :: rest =>
    if sig a ∈ seen then pickFrom sig seen rest else a :: pickFrom sig (sig a :: seen) rest

def pick (sig : α → β) (l : List α) : List α := pickFrom sig [] l

theorem pickFrom_subset (sig : α → β) (seen : List β) (l : List α) : pickFrom sig seen l ⊆ l := by
  induction l generalizing seen with
  | nil => simp [pickFrom]
  | cons a t ih =>
    unfold pickFrom
    split_ifs
    · exact List.Subset.trans (ih seen) (List.subset_cons_self a t)
    · exact List.cons_subset_cons a (ih _)

theorem pick_subset (sig : α → β) (l : List α) : pick sig l ⊆ l := pickFrom_subset sig [] l

theorem mem_of_mem_pick (h : a ∈ pick sig l) : a ∈ l :=
  pick_subset sig l h

theorem sig_mem_pickFrom (sig : α → β) (seen : List β) (l : List α) (h : a ∈ l) :
    sig a ∈ seen ∨ ∃ b ∈ pickFrom sig seen l, sig b = sig a := by
  induction l generalizing seen with
  | nil => cases h
  | cons x t ih =>
    unfold pickFrom
    split_ifs with hx
    · rcases List.mem_cons.1 h with rfl | h
      · exact .inl hx
      · exact ih seen h
    · rcases List.mem_cons.1 h with rfl | h
      · exact .inr ⟨a, by simp, rfl⟩
      · rcases ih (sig x :: seen) h with hs | ⟨b, hb, he⟩
        · rcases List.mem_cons.1 hs with he | hs
          · exact .inr ⟨x, by simp, he.symm⟩
          · exact .inl hs
        · exact .inr ⟨b, .tail _ hb, he⟩

theorem exists_mem_pick (sig : α → β) (h : a ∈ l) :
    ∃ b ∈ pick sig l, sig b = sig a :=
  (sig_mem_pickFrom sig [] l h).resolve_left (by simp)

theorem pickFrom_nodup (sig : α → β) (seen : List β) (l : List α) :
    ((pickFrom sig seen l).map sig).Nodup ∧ ∀ b ∈ pickFrom sig seen l, sig b ∉ seen := by
  induction l generalizing seen with
  | nil => simp [pickFrom]
  | cons x t ih =>
    unfold pickFrom
    split_ifs with hx
    · exact ih seen
    · obtain ⟨hnd, hns⟩ := ih (sig x :: seen)
      refine ⟨?_, ?_⟩
      · rw [List.map_cons, List.nodup_cons]
        refine ⟨fun hmem => ?_, hnd⟩
        obtain ⟨b, hb, he⟩ := List.mem_map.1 hmem
        exact hns b hb (by simp [he])
      · intro b hb
        rcases List.mem_cons.1 hb with rfl | hb
        · exact hx
        · exact fun hmem => hns b hb (.tail _ hmem)

/-- A coarser signature over fewer elements picks fewer representatives. -/
theorem length_pick_le {sig' : α → γ} {l' : List α} (hl : l' ⊆ l)
    (hsig : ∀ a ∈ l', ∀ b ∈ l', sig a = sig b → sig' a = sig' b) :
    (pick sig' l').length ≤ (pick sig l).length := by
  have hnd := (pickFrom_nodup sig' [] l').1
  have hinj : ∀ a ∈ pick sig' l', ∀ b ∈ pick sig' l', sig a = sig b → a = b := by
    intro a ha b hb he
    exact List.inj_on_of_nodup_map hnd ha hb (hsig a (mem_of_mem_pick ha) b (mem_of_mem_pick hb) he)
  have hmap : ((pick sig' l').map sig).Nodup := List.Nodup.map_on hinj (List.Nodup.of_map _ hnd)
  have hsub : (pick sig' l').map sig ⊆ (pick sig l).map sig := by
    intro x hx
    obtain ⟨a, ha, rfl⟩ := List.mem_map.1 hx
    obtain ⟨b, hb, he⟩ := exists_mem_pick sig (hl (mem_of_mem_pick ha))
    exact List.mem_map.2 ⟨b, hb, he⟩
  simpa using (List.subperm_of_subset hmap hsub).length_le

end Molebridge
