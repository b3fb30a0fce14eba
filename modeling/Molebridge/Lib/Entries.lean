import Mathlib.Tactic

/-! Finite maps as lists of entries: replacing an entry, the entries of a function,
and what is stored under keys laid out one key after another; and lists that take up
each element once. -/

namespace Molebridge

variable {α β : Type} [DecidableEq α]

theorem lookup_map_entry (t u : α) (b : β) (l : List (α × β)) :
    (l.map fun e => if e.1 = t then (e.1, b) else e).lookup u =
      if u = t then (l.lookup t).map fun _ => b else l.lookup u := by
  induction l with
  | nil => simp
  | cons e rest ih =>
    obtain ⟨k, x⟩ := e
    by_cases hk : k = t
    · subst hk
      by_cases hu : u = k
      · simp [hu]
      · have hne : (u == k) = false := by simpa using hu
        rw [List.map_cons, if_pos rfl, List.lookup_cons, hne, ih, if_neg hu, if_neg hu, List.lookup_cons, hne]
    · have htk : (t == k) = false := by simpa using Ne.symm hk
      rw [List.map_cons, if_neg hk, List.lookup_cons, List.lookup_cons, List.lookup_cons, htk, ih]
      by_cases hu : u = t
      · subst hu
        simp [htk]
      · simp [hu]

theorem lookup_map_graph (g : α → β) {l : List α} {t : α} (h : t ∈ l) :
    (l.map fun u => (u, g u)).lookup t = some (g t) := by
  induction l with
  | nil => cases h
  | cons u rest ih =>
    rw [List.map_cons, List.lookup_cons]
    by_cases hu : t = u
    · simp [hu]
    · have hne : (t == u) = false := by simpa using hu
      rw [hne]
      exact ih (List.mem_of_ne_of_mem hu h)

theorem filter_flatMap_key {key : β → α} {g : α → List β} (hg : ∀ u, ∀ x ∈ g u, key x = u) {l : List α}
    (hl : l.Nodup) {t : α} (h : t ∈ l) : (l.flatMap g).filter (fun x => key x == t) = g t := by
  have hself : ∀ u, (g u).filter (fun x => key x == t) = if u = t then g u else [] := by
    intro u
    split_ifs with hu
    · exact List.filter_eq_self.2 fun x hx => by simp [hg u x hx, hu]
    · exact List.filter_eq_nil_iff.2 fun x hx => by simp [hg u x hx, hu]
  induction l with
  | nil => cases h
  | cons u rest ih =>
    obtain ⟨hu, hrest⟩ := List.nodup_cons.1 hl
    rw [List.flatMap_cons, List.filter_append, hself]
    by_cases ht : u = t
    · subst ht
      have hnone : (rest.flatMap g).filter (fun x => key x == u) = [] := by
        refine List.filter_eq_nil_iff.2 fun x hx => ?_
        obtain ⟨v, hv, hxv⟩ := List.mem_flatMap.1 hx
        rw [hg v x hxv]
        simpa using fun heq : v = u => hu (heq ▸ hv)
      rw [if_pos rfl, hnone, List.append_nil]
    · rw [if_neg ht, List.nil_append]
      exact ih hrest (List.mem_of_ne_of_mem (Ne.symm ht) h)

theorem mem_foldl_add {α : Type*} [BEq α] [LawfulBEq α] (l out : List α) (x : α) :
    x ∈ l.foldl (fun out a => if out.contains a then out else out ++ [a]) out ↔ x ∈ out ∨ x ∈ l := by
  induction l generalizing out with
  | nil => simp
  | cons a t ih =>
    rw [List.foldl_cons, ih]
    split_ifs with h
    · have h : a ∈ out := by simpa using h
      simp only [List.mem_cons]
      constructor
      · tauto
      · rintro (hx | rfl | hx) <;> tauto
    · simp [or_assoc]

end Molebridge
