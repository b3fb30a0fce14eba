import Molebridge.Spec.Owner

/-! A Conn as the owner's kernel: its requests take effect under the rtnl lock, as
the policy model's `withRule` and the others say, and their notifications carry
the port id of the Conn's request socket. -/

namespace Molebridge

theorem insertRule_cons (r x : Rule) (l : List Rule) : State.insertRule r (x :: l) =
    if x.priority ≤ r.priority then x :: State.insertRule r l else r :: x :: l := by
  unfold State.insertRule
  split_ifs with h
  · simp [h]
  · simp [h]

theorem mem_insertRule {r x : Rule} {l : List Rule} : x ∈ State.insertRule r l ↔ x = r ∨ x ∈ l := by
  induction l with
  | nil => simp [State.insertRule]
  | cons y t ih =>
    rw [insertRule_cons]
    split_ifs
    · rw [List.mem_cons, ih, List.mem_cons]
      tauto
    · simp

theorem insertRule_sorted (r : Rule) {l : List Rule} (h : l.Pairwise fun a b => a.priority ≤ b.priority) :
    (State.insertRule r l).Pairwise fun a b => a.priority ≤ b.priority := by
  induction l with
  | nil => simp [State.insertRule]
  | cons x t ih =>
    obtain ⟨hx, ht⟩ := List.pairwise_cons.1 h
    rw [insertRule_cons]
    split_ifs with hle
    · refine List.pairwise_cons.2 ⟨fun b hb => ?_, ih ht⟩
      rcases mem_insertRule.1 hb with rfl | hb
      · exact hle
      · exact hx b hb
    · refine List.pairwise_cons.2 ⟨fun b hb => ?_, h⟩
      rcases List.mem_cons.1 hb with rfl | hb
      · omega
      · have := hx b hb
        omega

namespace Kern

/-- The rules of a family replaced by others in priority order. -/
def setRules (k : Kern) (f : Family) (rules : List Rule)
    (h : rules.Pairwise fun a b => a.priority ≤ b.priority) : Kern :=
  { k with rules := Function.update k.rules f rules
           rules_sorted := by
             intro g
             by_cases hg : g = f
             · subst hg
               simpa using h
             · rw [Function.update_of_ne hg]
               exact k.rules_sorted g }

/-- The routes of a table replaced by others of the table. -/
def setTable (k : Kern) (f : Family) (t : ℕ) (routes : List Route) (h : ∀ r ∈ routes, r.table = t) : Kern :=
  { k with routes := Function.update k.routes f (Function.update (k.routes f) t routes)
           routes_table := by
             intro g u r hr
             by_cases hg : g = f
             · subst hg
               rw [Function.update_self] at hr
               by_cases hu : u = t
               · subst hu
                 exact h r (by simpa using hr)
               · rw [Function.update_of_ne hu] at hr
                 exact k.routes_table g u r hr
             · rw [Function.update_of_ne hg] at hr
               exact k.routes_table g u r hr }

theorem setTable_elsewhere (k : Kern) (f : Family) (t : ℕ) (routes : List Route) (h : ∀ r ∈ routes, r.table = t)
    (g : Family) {u : ℕ} (hu : u ≠ t) : (k.setTable f t routes h).routes g u = k.routes g u := by
  show Function.update k.routes f (Function.update (k.routes f) t routes) g u = k.routes g u
  by_cases hg : g = f
  · subst hg
    rw [Function.update_self, Function.update_of_ne hu]
  · rw [Function.update_of_ne hg]

def withRule (k : Kern) (r : Rule) : Kern :=
  k.setRules r.family (State.insertRule r (k.rules r.family)) (insertRule_sorted r (k.rules_sorted _))

def withoutRule (k : Kern) (req : Rule) : Kern :=
  k.setRules req.family ((k.rules req.family).eraseP (deleteMatches req))
    ((k.rules_sorted _).sublist List.eraseP_sublist)

def withoutPriority (k : Kern) (f : Family) (priority : ℕ) : Kern :=
  k.setRules f ((k.rules f).eraseP (·.priority == priority)) ((k.rules_sorted _).sublist List.eraseP_sublist)

theorem mem_replaceRoute {r x : Route} {l : List Route} (h : x ∈ State.replaceRoute r l) : x = r ∨ x ∈ l := by
  induction l with
  | nil => simpa [State.replaceRoute] using h
  | cons y t ih =>
    unfold State.replaceRoute at h
    split_ifs at h
    · rcases List.mem_cons.1 h with rfl | h
      · exact Or.inl rfl
      · exact Or.inr (List.mem_cons_of_mem y h)
    · rcases List.mem_cons.1 h with rfl | h
      · exact Or.inr List.mem_cons_self
      · exact (ih h).imp_right (List.mem_cons_of_mem y)

def withRoute (k : Kern) (r : Route) : Kern :=
  k.setTable r.family r.table (State.replaceRoute r (k.routes r.family r.table)) fun x hx => by
    rcases mem_replaceRoute hx with rfl | hx
    · rfl
    · exact k.routes_table _ _ x hx

def withoutRoute (k : Kern) (r : Route) : Kern :=
  k.setTable r.family r.table ((k.routes r.family r.table).eraseP (State.routeDeleteMatches r))
    fun x hx => k.routes_table _ _ x (List.mem_of_mem_eraseP hx)

end Kern

/-! ### The Conn's own requests -/

/-- A request for a change of rules, stamped with the port id. -/
def ruleChange (apply : Kern → Kern) (pid : ℕ) : Change where
  event := { kind := .rule, pid := pid }
  apply := apply
  elsewhere := fun _ h => absurd h (by simp)

/-- A request for a change of one table, stamped with the port id. -/
def routeChange (table : ℕ) (apply : Kern → Kern) (h : ∀ k, (apply k).rules = k.rules ∧
    (apply k).addrs = k.addrs ∧ (apply k).links = k.links ∧
      ∀ f t, t ≠ table → (apply k).routes f t = k.routes f t) (pid : ℕ) : Change where
  event := { kind := .route, table := table, pid := pid }
  apply := apply
  elsewhere := fun k _ _ => h k

/-- A request took effect: it was acknowledged, or failed on the way back. -/
def Move.effective (mv : Move) : Bool :=
  match mv.fault with
  | .done => true
  | .exist | .notExist => false
  | _ => mv.reached

/-- A change of the Conn's own takes effect and is notified at once. -/
def World.own (w : World) (c : ℕ → Change) : World := (w.change (c w.pid)).release (c w.pid).event

/-- request: it waits for the lock, takes effect and notifies under it. -/
def request (c : ℕ → Change) : ConnM (Option RtErr) := do
  let mv := (← get).move
  modify World.pass
  modify World.notify
  modify fun w => if mv.effective then w.own c else w
  requested mv

def conn : Kernel World where
  expired := expired
  take := takeContext
  foreignChange := foreignChange
  rulesStable := rulesStable
  addRule := fun r => request (ruleChange (·.withRule r))
  delRule := fun r => request (ruleChange (·.withoutRule r))
  delRulePriority := fun f p => request (ruleChange (·.withoutPriority f p))
  replaceRoute := fun r => request (routeChange r.table (·.withRoute r)
    fun k => ⟨rfl, rfl, rfl, fun f _ => k.setTable_elsewhere _ _ _ _ f⟩)
  delRoute := fun r => request (routeChange r.table (·.withoutRoute r)
    fun k => ⟨rfl, rfl, rfl, fun f _ => k.setTable_elsewhere _ _ _ _ f⟩)

/-! ### Operations -/

/-- What an operation of the owner can do. -/
inductive TxOp where
  | snapshot
  | confirmed (f : Family) (rules : List Rule)
  | addRule (r : Rule)
  | delRule (r : Rule)
  | delRulePriority (f : Family) (priority : ℕ)
  | replaceRoute (r : Route)
  | delRoute (r : Route)

namespace Tx

def step (tx : Tx World) : TxOp → Tx World
  | .snapshot => (snapshot conn tx).2
  | .confirmed f rules => (confirmed conn f rules tx).2
  | .addRule r => (addRule conn r tx).2
  | .delRule r => (delRule conn r tx).2
  | .delRulePriority f p => (delRulePriority conn f p tx).2
  | .replaceRoute r => (replaceRoute conn r tx).2
  | .delRoute r => (delRoute conn r tx).2

def run (tx : Tx World) (ops : List TxOp) : Tx World := ops.foldl step tx

end Tx
end Molebridge
