import Molebridge.Proofs.Items
import Molebridge.Proofs.Walk

/-! Where a walk cannot get out of. Rules that can only pass a packet on, reject
it or send it to places it may go (`Harmless`), with one among them that surely
ends the walk (`Stops`), hold the packet whatever rules follow
(`mem_walkFrom_of_stops`). The rules of a native overlay's contract are such a
list for the packets it protects. -/

namespace Molebridge

variable {r : Rule} {later low : List Rule} {acc : List Outcome × Bool}

def Rule.rejects (r : Rule) : Prop :=
  r.action = frActUnreachable ∨ r.action = frActProhibit ∨ r.action = frActBlackhole

namespace State

section Walls

variable (s : State) (p : Packet) (C : Outcome → Prop)

/-- The rule leads the packet to no place outside `C` by itself. -/
def Harmless (r : Rule) : Prop :=
  ruleMatches r p = .no ∨ r.rejects ∨
    (r.action = frActToTbl ∧ ∀ o ∈ places (s.lookup r p).1, C o)

def Stops (r : Rule) : Prop :=
  ruleMatches r p = .yes ∧ (r.rejects ∨ (r.action = frActToTbl ∧ (s.lookup r p).2 = false))

variable {s p C}

theorem Harmless.takenFrom (h : s.Harmless p C r) (hm : ruleMatches r p ≠ .no)
    (hC : C { kind := .stopped }) :
    ∀ o ∈ places (s.takenFrom p r later), C o ∨ o ∈ places (s.walkFrom p later) := by
  intro o ho
  rcases h with h | h | ⟨h, hout⟩
  · exact absurd h hm
  · rw [takenFrom_reject s p later h] at ho
    obtain rfl : o = { kind := .stopped } := by simpa [places, Outcome.place] using ho
    exact .inl hC
  · rcases (mem_places_takenFrom_lookup s p later h o).1 ho with ho | ⟨-, ho⟩
    · exact .inl (hout o ho)
    · exact .inr ho

theorem Harmless.walkFrom (h : s.Harmless p C r) (hC : C { kind := .stopped })
    :
    ∀ o ∈ places (s.walkFrom p (r :: later)), C o ∨ o ∈ places (s.walkFrom p later) := by
  intro o ho
  cases hm : ruleMatches r p with
  | no =>
    rw [walkFrom_cons_no s p later hm] at ho
    exact .inr ho
  | yes =>
    rw [walkFrom_cons_yes s p later hm] at ho
    exact h.takenFrom (by simp [hm]) hC o ho
  | maybe =>
    rcases (mem_places_walkFrom_cons_maybe s p later hm o).1 ho with ho | ho
    · exact h.takenFrom (by simp [hm]) hC o ho
    · exact .inr ho

theorem Stops.walkFrom (h : s.Stops p r) (hr : s.Harmless p C r)
    (hC : C { kind := .stopped }) :
    ∀ o ∈ places (s.walkFrom p (r :: later)), C o := by
  intro o ho
  obtain ⟨hm, h⟩ := h
  rw [walkFrom_cons_yes s p later hm] at ho
  rcases h with h | ⟨h, hend⟩
  · rw [takenFrom_reject s p later h] at ho
    obtain rfl : o = { kind := .stopped } := by simpa [places, Outcome.place] using ho
    exact hC
  · rcases (mem_places_takenFrom_lookup s p later h o).1 ho with ho | ⟨hfall, -⟩
    · rcases hr with hr | hr | ⟨-, hr⟩
      · rw [hr] at hm; cases hm
      · rcases hr with hr | hr | hr <;> rw [hr] at h <;> cases h
      · exact hr o ho
    · rw [hend] at hfall; cases hfall

theorem places_walkFrom_of_stops {high : List Rule} (hlow : ∀ r ∈ low, s.Harmless p C r)
    (hstop : ∃ r ∈ low, s.Stops p r) (hC : C { kind := .stopped }) :
    ∀ o ∈ places (s.walkFrom p (low ++ high)), C o := by
  induction low with
  | nil => simp at hstop
  | cons r t ih =>
    obtain ⟨hr, ht⟩ := List.forall_mem_cons.1 hlow
    rcases List.exists_mem_cons_iff _ _ _ |>.1 hstop with h | h
    · exact h.walkFrom hr hC
    · intro o ho
      rcases hr.walkFrom hC o ho with ho | ho
      · exact ho
      · exact ih ht h o ho

theorem mem_walkFrom_of_stops {high : List Rule} (hplace : ∀ o, C o.place → C o)
    (hlow : ∀ r ∈ low, s.Harmless p C r) (hstop : ∃ r ∈ low, s.Stops p r)
    (hC : C { kind := .stopped }) : ∀ o ∈ s.walkFrom p (low ++ high), C o :=
  fun o ho => hplace o (places_walkFrom_of_stops hlow hstop hC o.place (List.mem_map_of_mem ho))

end Walls

section Lookups

variable {s : State} {p : Packet} {r : Rule} {C : Outcome → Prop}

theorem addRoute_places {rt : Route}
    (hrt : ∀ o, disposition rt = some o → C o) (hacc : ∀ o ∈ acc.1, C o) :
    ∀ o ∈ (addRoute r rt acc).1, C o := by
  unfold addRoute
  cases hd : disposition rt with
  | none => exact hacc
  | some x =>
    have happ : ∀ o ∈ acc.1 ++ [x], C o := by
      intro o ho
      rcases List.mem_append.1 ho with ho | ho
      · exact hacc o ho
      · rw [List.mem_singleton.1 ho]
        exact hrt x hd
    dsimp only
    split_ifs
    · exact happ
    · exact hacc
    · exact happ

theorem scanRoutes_places (l : List Route) (hl : ∀ rt ∈ l, ∀ o, disposition rt = some o → C o)
    (hacc : ∀ o ∈ acc.1, C o) :
    ∀ o ∈ (s.scanRoutes r p l acc).1, C o := by
  induction l generalizing acc with
  | nil => exact hacc
  | cons rt t ih =>
    obtain ⟨hrt, ht⟩ := List.forall_mem_cons.1 hl
    unfold scanRoutes
    cases s.routeApplies rt p with
    | no => exact ih ht hacc
    | yes => exact addRoute_places hrt hacc
    | maybe => exact ih ht (addRoute_places hrt hacc)

theorem lookup_places (hloc : r.table ≠ tableLocal) (hknown : r.table ∈ s.known)
    (hroutes : ∀ rt ∈ s.tableRoutes p.f r.table, ∀ o, disposition rt = some o → C o) :
    ∀ o ∈ (s.lookup r p).1, C o := by
  unfold lookup
  rw [if_neg hloc, if_neg (by simpa using hknown)]
  refine scanRoutes_places _ (fun rt hrt => hroutes rt ?_) (by simp)
  exact (List.mem_filter.1 ((mem_insertSort _ _ _).1 hrt)).1

/-- A lookup without suppressors of a table with routes that all cover the
packet, apply and answer ends the walk. -/
theorem lookup_ends (hloc : r.table ≠ tableLocal) (hknown : r.table ∈ s.known)
    (hlen : r.suppressPrefixLen = none) (hgroup : r.suppressIfGroup = none)
    (hne : s.tableRoutes p.f r.table ≠ [])
    (hroutes : ∀ rt ∈ s.tableRoutes p.f r.table, (rt.dst.elim false (·.contains p.dst)) = true ∧
      s.routeApplies rt p = .yes ∧ (disposition rt).isSome = true) :
    (s.lookup r p).2 = false := by
  unfold lookup
  rw [if_neg hloc, if_neg (by simpa using hknown), candidates,
    List.filter_eq_self.2 fun rt hrt => (hroutes rt hrt).1]
  cases hl : insertSort (routeLess (p.f == .v4)) (s.tableRoutes p.f r.table) with
  | nil =>
    obtain ⟨rt, hrt⟩ := List.exists_mem_of_ne_nil _ hne
    have hmem := (mem_insertSort (routeLess (p.f == .v4)) rt (s.tableRoutes p.f r.table)).2 hrt
    simp [hl] at hmem
  | cons rt t =>
    have hmem : rt ∈ s.tableRoutes p.f r.table := by
      rw [← mem_insertSort (routeLess (p.f == .v4)), hl]
      exact .head _
    obtain ⟨-, happ, hd⟩ := hroutes rt hmem
    obtain ⟨o, ho⟩ := Option.isSome_iff_exists.1 hd
    unfold scanRoutes addRoute
    rw [happ, ho]
    dsimp only
    rw [hlen, hgroup]
    split_ifs with hkind hshort
    · rfl
    · cases hshort
    · rfl

end Lookups

section Congr

variable {s : State} {p : Packet} {C : Outcome → Prop} {r e : Rule}
  (h : equalItems r.items e.items = true) (hgoto : e.goto = none) (hu : e.unknown = [])

include h hgoto hu

theorem Harmless.congr (he : s.Harmless p C e) : s.Harmless p C r := by
  rcases he with he | he | ⟨ht, he⟩
  · exact .inl ((Rule.ruleMatches_eq h hu p).trans he)
  · exact .inr (.inl (by unfold Rule.rejects; rwa [Rule.action_eq h hgoto]))
  · refine .inr (.inr ⟨(Rule.action_eq h hgoto).trans ht, ?_⟩)
    rwa [Rule.lookup_eq h hgoto]

theorem Stops.congr (he : s.Stops p e) : s.Stops p r := by
  obtain ⟨hm, he⟩ := he
  refine ⟨(Rule.ruleMatches_eq h hu p).trans hm, ?_⟩
  rcases he with he | ⟨ht, _⟩
  · exact .inl (by unfold Rule.rejects; rwa [Rule.action_eq h hgoto])
  · exact .inr ⟨(Rule.action_eq h hgoto).trans ht, by rwa [Rule.lookup_eq h hgoto]⟩

end Congr

end State

end Molebridge
