import Molebridge.Lib.Entries
import Molebridge.Spec.Requests

/-! The policy model of a snapshot agrees with the kernel the snapshot shows, and
the owner's requests change both alike. -/

namespace Molebridge

variable {tables : List ℕ} {m m' : State} {k k' : Kern}

variable {rules : List Rule} {rk : List Route}

/-- The model's rules and the routes of its known tables are the kernel's. -/
structure State.Agrees (m : State) (k : Kern) : Prop where
  rules : ∀ f, m.rules f = k.rules f
  routes : ∀ f, ∀ t ∈ m.known, (m.routes f).lookup t = some (k.routes f t)

theorem Kern.wanted_filter (k : Kern) (f : Family) {t : ℕ} (ht : t ∈ tables) :
    (k.wanted tables f).filter (·.table == t) = k.routes f t :=
  filter_flatMap_key (k.routes_table f) (List.nodup_dedup _) (List.mem_dedup.2 ht)

theorem Kern.routes_eq_of_view (h : k.view tables = k'.view tables) (f : Family) {t : ℕ}
    (ht : t ∈ tables) : k.routes f t = k'.routes f t := by
  have hw : k.wanted tables f = k'.wanted tables f := congrFun (congrArg Snapshot.routes h) f
  rw [← k.wanted_filter f ht, ← k'.wanted_filter f ht, hw]

theorem State.Agrees.of_view (h : m.Agrees k) (hm : ∀ t ∈ m.known, t ∈ tables)
    (hv : k'.view tables = k.view tables) : m.Agrees k' where
  rules f := (h.rules f).trans (congrFun (congrArg Snapshot.rules hv) f).symm
  routes f t ht := by rw [h.routes f t ht, Kern.routes_eq_of_view hv f (hm t ht)]

theorem sortedRules_eq {l : List Rule} (h : l.Pairwise fun a b => a.priority ≤ b.priority) :
    sortedRules l = l := List.Pairwise.insertionSort_eq h

theorem agrees_fromSnapshot (spec : Spec) (k : Kern) :
    (State.fromSnapshot spec (k.view spec.interest)).Agrees k where
  rules f := sortedRules_eq (k.rules_sorted f)
  routes f t ht := by
    replace ht : t ∈ spec.interest.dedup := ht
    show (spec.interest.dedup.map fun t => (t, (k.view spec.interest).routesInTable f t)).lookup t = _
    rw [lookup_map_graph _ ht]
    exact congrArg some (k.wanted_filter f (List.mem_dedup.1 ht))

/-! ### The effect of the owner's requests -/

theorem State.Agrees.setRules (h : m.Agrees k) (f : Family)
    (hs : rules.Pairwise fun a b => a.priority ≤ b.priority) :
    (m.setRules f rules).Agrees (k.setRules f rules hs) where
  rules g := by
    show Function.update m.rules f rules g = Function.update k.rules f rules g
    rw [funext h.rules]
  routes := h.routes

theorem State.Agrees.setTable (h : m.Agrees k) (f : Family) (t : ℕ) {rm : List Route}
    (hr : ∀ r ∈ rk, r.table = t) (heq : t ∈ m.known → rm = rk) :
    (m.setTable f t rm).Agrees (k.setTable f t rk hr) where
  rules := h.rules
  routes g u hu := by
    show (Function.update m.routes f _ g).lookup u =
      some (Function.update k.routes f (Function.update (k.routes f) t rk) g u)
    have hold := h.routes g u hu
    by_cases hg : g = f
    · subst hg
      rw [Function.update_self, Function.update_self, lookup_map_entry]
      split_ifs with hut
      · subst hut
        rw [hold, Function.update_self, heq hu]
        rfl
      · rw [hold, Function.update_of_ne hut]
    · rw [Function.update_of_ne hg, Function.update_of_ne hg, hold]

theorem State.Agrees.setTable_self (h : m.Agrees k) (f : Family) (t : ℕ)
    (hr : ∀ r ∈ rk, r.table = t) (heq : t ∈ m.known → rk = k.routes f t) :
    m.Agrees (k.setTable f t rk hr) where
  rules := h.rules
  routes g u hu := by
    show _ = some (Function.update k.routes f (Function.update (k.routes f) t rk) g u)
    rw [h.routes g u hu]
    by_cases hg : g = f
    · subst hg
      rw [Function.update_self]
      by_cases hut : u = t
      · subst hut
        rw [Function.update_self, heq hu]
      · rw [Function.update_of_ne hut]
    · rw [Function.update_of_ne hg]

theorem agrees_withRule (r : Rule) (h : m.Agrees k) : (m.withRule r).Agrees (k.withRule r) := by
  unfold State.withRule Kern.withRule
  simp only [h.rules r.family]
  exact h.setRules r.family _

theorem eraseP_eq_self {α : Type} {p : α → Bool} {l : List α} (h : ¬l.any p = true) : l.eraseP p = l := by
  refine List.eraseP_of_forall_not fun a ha hp => h ?_
  exact List.any_eq_true.2 ⟨a, ha, hp⟩

theorem State.Agrees.setRules_self (h : m.Agrees k) (f : Family)
    (hs : rules.Pairwise fun a b => a.priority ≤ b.priority) (heq : rules = k.rules f) :
    m.Agrees (k.setRules f rules hs) where
  rules g := by
    show m.rules g = Function.update k.rules f rules g
    rw [heq, Function.update_eq_self, h.rules]
  routes := h.routes

theorem agrees_withoutRule (r : Rule) (h : m.Agrees k) :
    (m.withoutRule r).1.Agrees (k.withoutRule r) := by
  unfold State.withoutRule Kern.withoutRule
  simp only [h.rules r.family]
  split_ifs with hany
  · exact h.setRules r.family _
  · exact h.setRules_self r.family _ (eraseP_eq_self hany)

theorem agrees_withoutPriority (f : Family) (priority : ℕ) (h : m.Agrees k) :
    (m.withoutPriority f priority).1.Agrees (k.withoutPriority f priority) := by
  unfold State.withoutPriority Kern.withoutPriority
  simp only [h.rules f]
  split_ifs with hany
  · exact h.setRules f _
  · exact h.setRules_self f _ (eraseP_eq_self hany)

theorem agrees_withRoute (r : Route) (h : m.Agrees k) : (m.withRoute r).Agrees (k.withRoute r) := by
  have hknown := h.routes r.family r.table
  unfold State.withRoute Kern.withRoute
  cases hl : (m.routes r.family).lookup r.table with
  | none =>
    refine h.setTable_self r.family r.table _ fun ht => ?_
    cases hl.symm.trans (hknown ht)
  | some routes =>
    refine h.setTable r.family r.table _ fun ht => ?_
    rw [Option.some.inj (hl.symm.trans (hknown ht))]

theorem agrees_withoutRoute (r : Route) (h : m.Agrees k) :
    (m.withoutRoute r).1.Agrees (k.withoutRoute r) := by
  have hknown := h.routes r.family r.table
  unfold State.withoutRoute Kern.withoutRoute
  cases hl : (m.routes r.family).lookup r.table with
  | none =>
    refine h.setTable_self r.family r.table _ fun ht => ?_
    cases hl.symm.trans (hknown ht)
  | some routes =>
    have hroutes : r.table ∈ m.known → routes = k.routes r.family r.table := fun ht =>
      Option.some.inj (hl.symm.trans (hknown ht))
    dsimp only
    split_ifs with hany
    · exact h.setTable r.family r.table _ fun ht => by rw [hroutes ht]
    · refine h.setTable_self r.family r.table _ fun ht => ?_
      rw [hroutes ht] at hany
      exact eraseP_eq_self hany

end Molebridge
