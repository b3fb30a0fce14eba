import Mathlib.Data.List.Basic
import Mathlib.Tactic

/-! Queues, one for each of some keys, taken from in turn. -/

namespace Molebridge.RoundRobin

variable {κ α : Type*} [DecidableEq κ] {of : α → κ}

theorem perm_of_filter [DecidableEq α] (of : α → κ) {l l' : List α}
    (h : ∀ k, (l.filter fun a => decide (of a = k)).Perm (l'.filter fun a => decide (of a = k))) : l.Perm l' := by
  refine List.perm_iff_count.2 fun a => ?_
  have hcount := (h (of a)).count_eq a
  rwa [List.count_filter (by simp), List.count_filter (by simp)] at hcount

theorem filter_flatMap {keys : List κ} (hkeys : keys.Nodup) {g : κ → List α} (hown : ∀ k, ∀ a ∈ g k, of a = k) (k : κ) :
    (keys.flatMap g).filter (fun a => decide (of a = k)) = if k ∈ keys then g k else [] := by
  induction keys with
  | nil => rfl
  | cons k' rest ih =>
    obtain ⟨hk', hrest⟩ := List.nodup_cons.1 hkeys
    rw [List.flatMap_cons, List.filter_append, ih hrest]
    by_cases hk : k = k'
    · subst hk
      rw [if_neg hk', if_pos (.head _), List.append_nil]
      exact List.filter_eq_self.2 fun a ha => by simp [hown k a ha]
    · have hnone : (g k').filter (fun a => decide (of a = k)) = [] :=
        List.filter_eq_nil_iff.2 fun a ha => by simpa [hown k' a ha] using Ne.symm hk
      rw [hnone, List.nil_append]
      simp [hk]

/-- What the queues have at a depth. -/
def turn (keys : List κ) (queue : κ → List α) (depth : ℕ) : List α := keys.filterMap fun k => (queue k)[depth]?

def rounds (keys : List κ) (queue : κ → List α) : ℕ → List α
  | 0 => []
  | n + 1 => rounds keys queue n ++ turn keys queue n

omit [DecidableEq κ] in
theorem rounds_isPrefix (keys : List κ) (queue : κ → List α) {m n : ℕ} (h : m ≤ n) :
    rounds keys queue m <+: rounds keys queue n := by
  induction n, h using Nat.le_induction with
  | base => exact List.prefix_refl _
  | succ n _ ih => exact ih.trans (List.prefix_append _ _)

section Own

variable {keys : List κ} {queue : κ → List α} (hkeys : keys.Nodup) (hown : ∀ k, ∀ a ∈ queue k, of a = k)
  (hqueue : ∀ k ∉ keys, queue k = [])
include hkeys hown hqueue

theorem filter_turn (depth : ℕ) (k : κ) :
    (turn keys queue depth).filter (fun a => decide (of a = k)) = ((queue k)[depth]?).toList := by
  rw [turn, List.filterMap_eq_flatMap_toList,
    filter_flatMap hkeys fun k a ha => hown k a (List.mem_of_getElem? (Option.mem_toList.1 ha))]
  split_ifs with hk
  · rfl
  · simp [hqueue k hk]

theorem filter_rounds (n : ℕ) (k : κ) :
    (rounds keys queue n).filter (fun a => decide (of a = k)) = (queue k).take n := by
  induction n with
  | zero => simp [rounds]
  | succ n ih => rw [rounds, List.filter_append, ih, filter_turn hkeys hown hqueue, List.take_add_one]

/-- Cut in the turn after `n` full ones: a queue that is not used up has given as many as
any other but for one. -/
theorem balanced {m n : ℕ} (hm : (rounds keys queue n).length ≤ m) {a : α} (ha : a ∈ queue (of a))
    (hleft : a ∉ (rounds keys queue (n + 1)).take m) (k : κ) :
    ((rounds keys queue (n + 1)).take m).countP (fun x => decide (of x = k)) ≤
      ((rounds keys queue (n + 1)).take m).countP (fun x => decide (of x = of a)) + 1 := by
  have hcut : (rounds keys queue (n + 1)).take m =
      rounds keys queue n ++ (turn keys queue n).take (m - (rounds keys queue n).length) := by
    rw [rounds, List.take_append, List.take_of_length_le hm]
  have hcount : ∀ k, (rounds keys queue n).countP (fun x => decide (of x = k)) = min n (queue k).length := by
    intro k
    rw [List.countP_eq_length_filter, filter_rounds hkeys hown hqueue, List.length_take]
  have hpart : ((turn keys queue n).take (m - (rounds keys queue n).length)).countP (fun x => decide (of x = k)) ≤ 1 := by
    refine ((List.take_sublist _ _).countP_le).trans ?_
    rw [List.countP_eq_length_filter, filter_turn hkeys hown hqueue]
    cases (queue k)[n]? <;> simp
  have hlong : n < (queue (of a)).length := by
    by_contra hshort
    have hall := filter_rounds hkeys hown hqueue n (of a)
    rw [List.take_of_length_le (Nat.le_of_not_lt hshort)] at hall
    rw [← hall] at ha
    exact hleft (hcut ▸ List.mem_append_left _ (List.mem_of_mem_filter ha))
  rw [hcut, List.countP_append, List.countP_append, hcount, hcount]
  omega

end Own

end Molebridge.RoundRobin
