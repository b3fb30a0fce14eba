import Molebridge.Proofs.Calls
import Molebridge.Proofs.DiffExact

/-! A priority is rebuilt without a gap. Each phase of the rebuild touches one
priority in one way: copies go in at the one before, the priority is cleared and
refilled, the copies come out. So the copies stand while the priority is cleared, and
what was refilled and read back stands while the copies come out. -/

namespace Molebridge

/-! ### What each phase does -/

structure Gains (f : Family) (p : ℕ) (k k' : Kern) : Prop where
  elsewhere : ∀ g q, ¬ (g = f ∧ q = p) → k'.rulesAt g q = k.rulesAt g q
  there : k.rulesAt f p <+: k'.rulesAt f p

structure Clears (f : Family) (p : ℕ) (k k' : Kern) : Prop where
  elsewhere : ∀ g q, ¬ (g = f ∧ q = p) → k'.rulesAt g q = k.rulesAt g q
  there : k'.rulesAt f p <:+ k.rulesAt f p

/-- Rules are taken away, at one priority and none of those named. -/
structure Drops (f : Family) (p : ℕ) (kept : Rule → Prop) (k k' : Kern) : Prop where
  elsewhere : ∀ g q, ¬ (g = f ∧ q = p) → k'.rulesAt g q = k.rulesAt g q
  there : ∀ x ∈ k.rulesAt f p, kept x → x ∈ k'.rulesAt f p

theorem gains_chains (f : Family) (p : ℕ) : Chains (Gains f p) where
  refl _ := ⟨fun _ _ _ => rfl, List.prefix_refl _⟩
  trans h h' := ⟨fun g q hq => (h'.elsewhere g q hq).trans (h.elsewhere g q hq), h.there.trans h'.there⟩

theorem clears_chains (f : Family) (p : ℕ) : Chains (Clears f p) where
  refl _ := ⟨fun _ _ _ => rfl, List.suffix_refl _⟩
  trans h h' := ⟨fun g q hq => (h'.elsewhere g q hq).trans (h.elsewhere g q hq), h'.there.trans h.there⟩

theorem drops_chains (f : Family) (p : ℕ) (kept : Rule → Prop) : Chains (Drops f p kept) where
  refl _ := ⟨fun _ _ _ => rfl, fun _ hx _ => hx⟩
  trans h h' := ⟨fun g q hq => (h'.elsewhere g q hq).trans (h.elsewhere g q hq),
    fun x hx hk => h'.there x (h.there x hx hk) hk⟩

theorem gains_withRule (k : Kern) (r : Rule) : Gains r.family r.priority k (k.withRule r) where
  elsewhere g q hq := by rw [k.rulesAt_withRule, if_neg hq]
  there := by
    rw [k.rulesAt_withRule, if_pos ⟨rfl, rfl⟩]
    exact List.prefix_append _ _

theorem clears_withoutPriority (k : Kern) (f : Family) (p : ℕ) : Clears f p k (k.withoutPriority f p) where
  elsewhere g q hq := by rw [k.rulesAt_withoutPriority, if_neg hq]
  there := by
    rw [k.rulesAt_withoutPriority, if_pos ⟨rfl, rfl⟩]
    exact List.tail_suffix _

theorem drops_withoutRule (k : Kern) (req : Rule) {kept : Rule → Prop}
    (h : ∀ x, kept x → deleteMatches req x = false) :
    Drops req.family req.priority kept k (k.withoutRule req) where
  elsewhere g q hq := by rw [k.rulesAt_withoutRule, if_neg hq]
  there x hx hk := by
    rw [k.rulesAt_withoutRule, if_pos ⟨rfl, rfl⟩]
    exact (List.mem_eraseP_of_neg (by simp [h x hk])).2 hx

section Phases

variable {f : Family} {p : ℕ}

theorem gains_asks (f : Family) (p : ℕ) :
    Asks (fun r => r.family = f ∧ r.priority = p) (fun _ => False) (fun _ _ => False) (Stepwise (Gains f p)) where
  toNeutral := neutral_stepwise (gains_chains f p)
  addRule := by
    rintro r ⟨rfl, rfl⟩ tx
    exact (addRule_spec tx r).stepwise fun _ => gains_withRule _ r
  delRule h := h.elim
  delRulePriority h := h.elim

theorem clearPriority_spec (f : Family) (p n : ℕ) (tx : Tx Quiet) :
    Stepwise (Clears f p) tx (Tx.clearPriority quiet f p n tx).2 ∧
      (tx.kernel.Honest → (Tx.clearPriority quiet f p n tx).1.2 = none →
        (tx.kernel.kern.rulesAt f p).length ≤ n →
        (Tx.clearPriority quiet f p n tx).2.kernel.kern.rulesAt f p = []) := by
  induction n generalizing tx with
  | zero =>
    refine ⟨(idle_chains.refl tx).stepwise, fun _ _ hlen => ?_⟩
    exact List.length_eq_zero_iff.1 (Nat.le_zero.1 hlen)
  | succ n ih =>
    have hdel := delRulePriority_spec tx f p
    unfold Tx.clearPriority
    rw [bind_run]
    rcases hrun : Tx.delRulePriority quiet f p tx with ⟨⟨gone, err⟩, tx'⟩
    rw [hrun] at hdel
    have hstep := hdel.stepwise fun _ => clears_withoutPriority _ f p
    cases err with
    | some e => exact ⟨hstep, fun _ h => (nomatch h)⟩
    | none =>
      cases gone with
      | false =>
        refine ⟨hstep, fun hhonest _ _ => ?_⟩
        have hnone := hdel.denied hhonest rfl
        split_ifs at hnone with hany
        change tx'.kernel.kern.rulesAt f p = []
        rw [(hdel.idle rfl).kern]
        refine List.filter_eq_nil_iff.2 fun x hx hp => hany ?_
        exact List.any_eq_true.2 ⟨x, hx, hp⟩
      | true =>
        obtain ⟨hrest, hempty⟩ := ih tx'
        refine ⟨(stepwise_chains (clears_chains f p)).trans hstep hrest, fun hhonest herr hlen => ?_⟩
        obtain ⟨-, hmade, -⟩ := hdel.made rfl
        refine hempty (fun m => hmade.answers ▸ hhonest m) herr ?_
        rw [hmade.kern, Kern.rulesAt_withoutPriority, if_pos ⟨rfl, rfl⟩, List.length_tail]
        omega

theorem refill_spec {want : List Rule} (h : ∀ w ∈ want, w.family = f ∧ w.priority = p) (tx : Tx Quiet) :
    Stepwise (Gains f p) tx (Tx.refill quiet want tx).2 ∧ ∃ added, added.Sublist want ∧
      (Tx.refill quiet want tx).2.kernel.kern.rulesAt f p = tx.kernel.kern.rulesAt f p ++ added := by
  induction want generalizing tx with
  | nil => exact ⟨(idle_chains.refl tx).stepwise, [], List.Sublist.slnil, by simp [Tx.refill, pure_run]⟩
  | cons w t ih =>
    obtain ⟨rfl, rfl⟩ := h w (.head _)
    have hadd := addRule_spec tx w
    unfold Tx.refill
    rw [bind_run]
    rcases hrun : Tx.addRule quiet w tx with ⟨⟨changed, _⟩, tx'⟩
    rw [hrun] at hadd
    obtain ⟨hrest, added, hsub, hrules⟩ := ih (fun x hx => h x (.tail w hx)) tx'
    refine ⟨(stepwise_chains (gains_chains _ _)).trans (hadd.stepwise fun _ => gains_withRule _ w) hrest, ?_⟩
    cases changed with
    | false =>
      rw [(hadd.idle rfl).kern] at hrules
      exact ⟨added, hsub.cons w, hrules⟩
    | true =>
      rw [(hadd.made rfl).2.1.kern, Kern.rulesAt_withRule, if_pos ⟨rfl, rfl⟩, List.append_assoc] at hrules
      exact ⟨w :: added, hsub.cons_cons w, hrules⟩

theorem drops_asks (f : Family) (p : ℕ) (kept : Rule → Prop) :
    Asks (fun _ => False) (fun r => r.family = f ∧ r.priority = p ∧ ∀ x, kept x → deleteMatches r x = false)
      (fun _ _ => False) (Stepwise (Drops f p kept)) where
  toNeutral := neutral_stepwise (drops_chains f p kept)
  addRule h := h.elim
  delRule := by
    rintro r ⟨rfl, rfl, hkept⟩ tx
    exact (delRule_spec tx r).stepwise fun _ => drops_withoutRule _ r hkept
  delRulePriority h := h.elim

end Phases

/-! ### The whole rebuild -/

def ContractRules (c : Config) (f : Family) (p : ℕ) (want : List Rule) : Prop :=
  ∀ w ∈ want, w.family = f ∧ w.priority = p ∧
    ∃ e, AddedRule c f e ∧ e.priority = p ∧ equalItems w.items e.items = true

/-- What no step of a rebuild touches: the other priorities, and at the one before the
rules the contract has there. -/
structure Spares (c : Config) (f : Family) (p : ℕ) (k k' : Kern) : Prop where
  elsewhere : ∀ g q, ¬ (g = f ∧ (q = p ∨ q = p - 1)) → k'.rulesAt g q = k.rulesAt g q
  neighbours : ∀ e, AddedRule c f e → e.priority = p - 1 → k.has f (p - 1) e → k'.has f (p - 1) e

/-- What a rebuild leaves on its way: first kernels in which nothing has gone from the
priority, then ones in which each of the rules stands there or one priority earlier. -/
structure NoGap (c : Config) (f : Family) (p : ℕ) (want : List Rule) (tx : Tx Quiet)
    (err : Option OpError) (tx' : Tx Quiet) (before after : List Kern) : Prop where
  since : Since tx (before ++ after) tx'
  untouched : ∀ k ∈ before, k.rulesAt f p = tx.kernel.kern.rulesAt f p
  grown : ∀ k ∈ before, tx.kernel.kern.rulesAt f (p - 1) <+: k.rulesAt f (p - 1)
  covered : ∀ k ∈ after, ∀ w ∈ want, k.has f p w ∨ k.has f (p - 1) w
  restored : err = none → ∀ w ∈ want, tx'.kernel.kern.has f p w
  only : err = none → tx.kernel.Honest → (tx.kernel.kern.rulesAt f p).length ≤ 32 →
    (tx'.kernel.kern.rulesAt f p).Sublist want
  spares : ∀ k ∈ before ++ after, Spares c f p tx.kernel.kern k

theorem priorities_bounds {c : Config} {p : ℕ} (h : p ∈ c.priorities) : 1 ≤ p ∧ p ≤ 104 := by
  unfold Config.priorities at h
  split_ifs at h
  · exact (by decide : ∀ q ∈ [88, 89, 90, 93, 94, 96, 97, 98], 1 ≤ q ∧ q ≤ 104) p h
  · exact (by decide : ∀ q ∈ [1, 80, 88, 89, 90, 91, 92, 94, 95, 96, 97, 102, 103, 104],
      1 ≤ q ∧ q ≤ 104) p h
  · exact (by decide : ∀ q ∈ [1, 80, 90, 94, 95, 96, 97, 98], 1 ≤ q ∧ q ≤ 104) p h

def copiesOf (p : ℕ) (want : List Rule) : List Rule := want.map fun w => { w with priority := p - 1 }

theorem spares_chains (c : Config) (f : Family) (p : ℕ) : Chains (Spares c f p) where
  refl _ := ⟨fun _ _ _ => rfl, fun _ _ _ h => h⟩
  trans h h' := ⟨fun g q hq => (h'.elsewhere g q hq).trans (h.elsewhere g q hq),
    fun e he hp hk => h'.neighbours e he hp (h.neighbours e he hp hk)⟩

section Spares

variable {c : Config} {f : Family} {p : ℕ} {k k' : Kern}

theorem Gains.spares_copies (h : Gains f (p - 1) k k') : Spares c f p k k' where
  elsewhere g q hq := h.elsewhere g q fun hn => hq ⟨hn.1, .inr hn.2⟩
  neighbours _ _ _ := Kern.has_of_prefix h.there

theorem Gains.spares (hp : 1 ≤ p) (h : Gains f p k k') : Spares c f p k k' where
  elsewhere g q hq := h.elsewhere g q fun hn => hq ⟨hn.1, .inl hn.2⟩
  neighbours _ _ _ := (Kern.has_congr (h.elsewhere f (p - 1) (by omega))).2

theorem Clears.spares (hp : 1 ≤ p) (h : Clears f p k k') : Spares c f p k k' where
  elsewhere g q hq := h.elsewhere g q fun hn => hq ⟨hn.1, .inl hn.2⟩
  neighbours _ _ _ := (Kern.has_congr (h.elsewhere f (p - 1) (by omega))).2

/-- The rules with the items of one the contract has at the priority before. -/
def Neighbour (c : Config) (f : Family) (p : ℕ) (x : Rule) : Prop :=
  ∃ e, AddedRule c f e ∧ e.priority = p - 1 ∧ equalItems x.items e.items = true

theorem Drops.spares (h : Drops f (p - 1) (Neighbour c f p) k k') : Spares c f p k k' where
  elsewhere g q hq := h.elsewhere g q fun hn => hq ⟨hn.1, .inr hn.2⟩
  neighbours e he hp := by
    rintro ⟨x, hx, hitems⟩
    exact ⟨x, h.there x hx ⟨e, he, hp, hitems⟩, hitems⟩

end Spares

section Rebuild

variable {c : Config} {f : Family} {p : ℕ} {want : List Rule}

/-- The second half, behind the copies: each rule stands at one of the two priorities
all the way. -/
theorem refillBehind_spec (hp : 1 ≤ p) (hwant : ∀ w ∈ want, w.family = f ∧ w.priority = p)
    {installed : List Rule} (hinst : ∀ cp ∈ installed, cp.family = f ∧ cp.priority = p - 1 ∧
      ∀ x, Neighbour c f p x → deleteMatches cp x = false)
    (tx : Tx Quiet) (hcopied : ∀ w ∈ want, tx.kernel.kern.has f (p - 1) w) :
    ∃ ks, Since tx ks (Tx.refillBehind quiet f p want installed tx).2 ∧
      (∀ k ∈ ks, ∀ w ∈ want, k.has f p w ∨ k.has f (p - 1) w) ∧
      (∀ k ∈ ks, Spares c f p tx.kernel.kern k) ∧
      ((Tx.refillBehind quiet f p want installed tx).1.2 = none →
        (∀ w ∈ want, (Tx.refillBehind quiet f p want installed tx).2.kernel.kern.has f p w) ∧
        (tx.kernel.kern.rulesAt f p = [] →
          ((Tx.refillBehind quiet f p want installed tx).2.kernel.kern.rulesAt f p).Sublist want)) := by
  obtain ⟨⟨ks, hsince, hks⟩, _, hsub, hrules⟩ := refill_spec hwant tx
  have hcov : ∀ k ∈ ks, ∀ w ∈ want, k.has f p w ∨ k.has f (p - 1) w := fun k hk w hw =>
    .inr ((Kern.has_congr ((hks k hk).elsewhere f (p - 1) (by omega))).2 (hcopied w hw))
  have hspare : ∀ k ∈ ks, Spares c f p tx.kernel.kern k := fun k hk => (hks k hk).spares hp
  unfold Tx.refillBehind
  rw [bind_run]
  rcases hrun : Tx.refill quiet want tx with ⟨⟨n, err⟩, tx'⟩
  rw [hrun] at hsince hrules
  cases err with
  | some e => exact ⟨ks, hsince, hcov, hspare, fun h => (nomatch h)⟩
  | none =>
    dsimp only
    rw [bind_run]
    obtain ⟨hidle, hread⟩ := confirmed_spec f want tx'
    rcases hconf : Tx.confirmed quiet f want tx' with ⟨e, tx''⟩
    rw [hconf] at hidle hread
    cases e with
    | some e =>
      have hall := hsince.trans hidle.since
      rw [List.append_nil] at hall
      exact ⟨ks, hall, hcov, hspare, fun h => (nomatch h)⟩
    | none =>
      have hstands : ∀ w ∈ want, tx''.kernel.kern.has f p w := by
        intro w hw
        have := (hasExact_iff _ _ _).1 (hread rfl w hw)
        rwa [(hwant w hw).2, ← hidle.kern] at this
      obtain ⟨ks', hsince', hks'⟩ := (drops_asks f (p - 1) _).removeCopies hinst tx''
      have hkeep : ∀ k ∈ ks', ∀ w ∈ want, k.has f p w := fun k hk w hw =>
        (Kern.has_congr ((hks' k hk).elsewhere f p (by omega))).2 (hstands w hw)
      have hkern : tx''.kernel.kern = tx'.kernel.kern := hidle.kern
      have hspare' : Spares c f p tx.kernel.kern tx''.kernel.kern := by
        rw [hkern]
        exact hsince.last (spares_chains c f p) hspare
      refine ⟨ks ++ ks', hsince.trans (hidle.since.trans hsince'), fun k hk => ?_,
        fun k hk => ?_, fun _ => ⟨fun w hw => ?_, fun hempty => ?_⟩⟩
      · rcases List.mem_append.1 hk with hk | hk
        · exact hcov k hk
        · exact fun w hw => .inl (hkeep k hk w hw)
      · rcases List.mem_append.1 hk with hk | hk
        · exact hspare k hk
        · exact (spares_chains c f p).trans hspare' (hks' k hk).spares
      · exact (Kern.has_congr ((hsince'.last (drops_chains f (p - 1) _) hks').elsewhere f p (by omega))).2
          (hstands w hw)
      · have hlast := (hsince'.last (drops_chains f (p - 1) _) hks').elsewhere f p (by omega)
        change (Tx.removeCopies quiet installed tx'').2.kernel.kern.rulesAt f p |>.Sublist want
        rw [hlast, hkern, hrules, hempty]
        exact hsub

theorem noGap_copies {tx tx' : Tx Quiet} {ks : List Kern} (hp : 1 ≤ p) (h : Since tx ks tx')
    (hks : ∀ k ∈ ks, Gains f (p - 1) tx.kernel.kern k) (e : OpError) :
    NoGap c f p want tx (some e) tx' ks [] where
  since := by rwa [List.append_nil]
  untouched k hk := (hks k hk).elsewhere f p (by omega)
  grown k hk := (hks k hk).there
  covered := by simp
  restored h := (nomatch h)
  only h := (nomatch h)
  spares k hk := (hks k (by simpa using hk)).spares_copies

theorem noGap_behind {tx tx₂ tx' : Tx Quiet} {ks ks' : List Kern} {err : Option OpError} (hp : 1 ≤ p)
    (h : Since tx ks tx₂) (hks : ∀ k ∈ ks, Gains f (p - 1) tx.kernel.kern k) (h' : Since tx₂ ks' tx')
    (hcov : ∀ k ∈ ks', ∀ w ∈ want, k.has f p w ∨ k.has f (p - 1) w)
    (hspare : ∀ k ∈ ks', Spares c f p tx₂.kernel.kern k)
    (hdone : err = none → (∀ w ∈ want, tx'.kernel.kern.has f p w) ∧
      (tx₂.kernel.Honest → (tx₂.kernel.kern.rulesAt f p).length ≤ 32 →
        (tx'.kernel.kern.rulesAt f p).Sublist want)) :
    NoGap c f p want tx err tx' ks ks' where
  since := h.trans h'
  untouched k hk := (hks k hk).elsewhere f p (by omega)
  grown k hk := (hks k hk).there
  covered := hcov
  restored he := (hdone he).1
  only he hhonest hlen := by
    refine (hdone he).2 (fun n => h.answers ▸ hhonest n) ?_
    rwa [(h.last (gains_chains f (p - 1)) hks).elsewhere f p (by omega)]
  spares k hk := by
    rcases List.mem_append.1 hk with hk | hk
    · exact (hks k hk).spares_copies
    · exact (spares_chains c f p).trans (h.last (gains_chains f (p - 1)) hks).spares_copies (hspare k hk)

theorem rebuild_spec (hc : c.Named) (hne : want ≠ []) (hwant : ContractRules c f p want) (tx : Tx Quiet) :
    ∃ before after, NoGap c f p want tx (Tx.rebuild quiet f p want tx).1.2
      (Tx.rebuild quiet f p want tx).2 before after := by
  have hbounds : 1 ≤ p ∧ p ≤ 104 := by
    obtain ⟨w, hw⟩ := List.exists_mem_of_ne_nil want hne
    obtain ⟨-, -, e, he, hep, -⟩ := hwant w hw
    exact priorities_bounds (hep ▸ he.priority_mem)
  have hprev : (p + (2 ^ 32 - 1)) % 2 ^ 32 = p - 1 := by omega
  have hcopies : ∀ cp ∈ copiesOf p want, cp.family = f ∧ cp.priority = p - 1 := by
    intro cp hcp
    obtain ⟨w, hw, rfl⟩ := List.mem_map.1 hcp
    exact ⟨(hwant w hw).1, rfl⟩
  -- nothing of the contract at the priority before is taken for a copy
  have hdiffer : ∀ cp ∈ copiesOf p want, ∀ x, Neighbour c f p x → deleteMatches cp x = false := by
    rintro cp hcp x ⟨_, he', hep', hx⟩
    obtain ⟨w, hw, rfl⟩ := List.mem_map.1 hcp
    obtain ⟨-, -, e, he, _, hitems⟩ := hwant w hw
    exact neighbours_differ hc he (by omega) hitems he' hep' hx
  obtain ⟨ks, hsince, hks⟩ := (gains_asks f (p - 1)).installCopies hcopies tx
  have hinst := installCopies_mem (copiesOf p want) tx
  unfold Tx.rebuild
  rw [if_neg (by simpa using hne), hprev,
    show (want.map fun w => { w with priority := p - 1 }) = copiesOf p want from rfl, bind_run]
  rcases hrun : Tx.installCopies quiet (copiesOf p want) tx with ⟨⟨_, err⟩, tx₁⟩
  rw [hrun] at hsince hinst
  cases err with
  | some e => exact ⟨ks, [], noGap_copies hbounds.1 hsince hks _⟩
  | none =>
    dsimp only
    rw [bind_run]
    obtain ⟨hidle, hread⟩ := confirmed_spec f (copiesOf p want) tx₁
    rcases hconf : Tx.confirmed quiet f (copiesOf p want) tx₁ with ⟨e, tx₂⟩
    rw [hconf] at hidle hread
    have hsince₂ := hsince.trans hidle.since
    rw [List.append_nil] at hsince₂
    cases e with
    | some e => exact ⟨ks, [], noGap_copies hbounds.1 hsince₂ hks _⟩
    | none =>
      have hcopied : ∀ w ∈ want, tx₂.kernel.kern.has f (p - 1) w := by
        intro w hw
        have := (hasExact_iff _ _ _).1 (hread rfl _ (List.mem_map_of_mem hw))
        rw [hidle.kern]
        exact this
      obtain ⟨⟨ks₃, hsince₃, hks₃⟩, hempty⟩ := clearPriority_spec f p 32 tx₂
      have hcov₃ : ∀ k ∈ ks₃, ∀ w ∈ want, k.has f p w ∨ k.has f (p - 1) w := fun k hk w hw =>
        .inr ((Kern.has_congr ((hks₃ k hk).elsewhere f (p - 1) (by omega))).2 (hcopied w hw))
      have hspare₃ : ∀ k ∈ ks₃, Spares c f p tx₂.kernel.kern k := fun k hk => (hks₃ k hk).spares hbounds.1
      dsimp only
      rw [bind_run]
      rcases hclear : Tx.clearPriority quiet f p 32 tx₂ with ⟨⟨_, err⟩, tx₃⟩
      rw [hclear] at hsince₃ hempty
      cases err with
      | some e =>
        exact ⟨ks, ks₃, noGap_behind hbounds.1 hsince₂ hks hsince₃ hcov₃ hspare₃ fun h => (nomatch h)⟩
      | none =>
        have hlast := hsince₃.last (clears_chains f p) hks₃
        obtain ⟨ks₄, hsince₄, hcov₄, hspare₄, hdone⟩ := refillBehind_spec hbounds.1
          (fun w hw => ⟨(hwant w hw).1, (hwant w hw).2.1⟩)
          (fun cp hcp => ⟨(hcopies cp (hinst cp hcp)).1, (hcopies cp (hinst cp hcp)).2, hdiffer cp (hinst cp hcp)⟩)
          tx₃ fun w hw => (Kern.has_congr (hlast.elsewhere f (p - 1) (by omega))).2 (hcopied w hw)
        refine ⟨ks, ks₃ ++ ks₄, noGap_behind hbounds.1 hsince₂ hks (hsince₃.trans hsince₄) (fun k hk => ?_)
          (fun k hk => ?_) fun he => ⟨(hdone he).1, fun hhonest hlen => (hdone he).2 (hempty hhonest rfl hlen)⟩⟩
        · rcases List.mem_append.1 hk with hk | hk
          · exact hcov₃ k hk
          · exact hcov₄ k hk
        · rcases List.mem_append.1 hk with hk | hk
          · exact hspare₃ k hk
          · exact (spares_chains c f p).trans (hlast.spares hbounds.1) (hspare₄ k hk)

end Rebuild

theorem eq_of_sublist_of_items {l want : List Rule} (h : l.Sublist want)
    (hnodup : (want.map Rule.itemSet).Nodup)
    (hall : ∀ w ∈ want, ∃ x ∈ l, equalItems x.items w.items = true) : l = want := by
  refine h.eq_of_length_le ?_
  have hsub : want.map Rule.itemSet ⊆ l.map Rule.itemSet := by
    intro i hi
    obtain ⟨w, hw, rfl⟩ := List.mem_map.1 hi
    obtain ⟨x, hx, hitems⟩ := hall w hw
    exact List.mem_map.2 ⟨x, hx, (equalItems_iff_itemSet x w).1 hitems⟩
  simpa using (hnodup.subperm hsub).length_le

/-- While a priority is rebuilt, whatever fails and whatever cannot be read: from the
first deletion on each of its rules stands there or one priority earlier. -/
theorem rebuild_leaves_no_gap (s : Spec) (hc : s.config.Named) (f : Family) (p : ℕ) (want : List Rule)
    (hne : want ≠ []) (hwant : ContractRules s.config f p want) (tx : Tx Quiet)
    (hhonest : tx.kernel.Honest) :
    ∃ before after, Since tx (before ++ after) (Tx.rebuild quiet f p want tx).2 ∧
      (∀ k ∈ before, k.rulesAt f p = tx.kernel.kern.rulesAt f p) ∧
      (∀ k ∈ after, ∀ w ∈ want, k.has f p w ∨ k.has f (p - 1) w) ∧
      ((Tx.rebuild quiet f p want tx).1.2 = none →
        (∀ w ∈ want, (Tx.rebuild quiet f p want tx).2.kernel.kern.has f p w) ∧
        ((tx.kernel.kern.rulesAt f p).length ≤ 32 →
          ((Tx.rebuild quiet f p want tx).2.kernel.kern.rulesAt f p).Sublist want ∧
          ((want.map Rule.itemSet).Nodup →
            (Tx.rebuild quiet f p want tx).2.kernel.kern.rulesAt f p = want))) ∧
      ∀ k ∈ before ++ after,
        (∀ g q, ¬ (g = f ∧ (q = p ∨ q = p - 1)) → k.rulesAt g q = tx.kernel.kern.rulesAt g q) ∧
        ∀ e ∈ s.rulesAt f (p - 1), tx.kernel.kern.has f (p - 1) e → k.has f (p - 1) e := by
  obtain ⟨before, after, h⟩ := rebuild_spec hc hne hwant tx
  refine ⟨before, after, h.since, h.untouched, h.covered, fun herr => ⟨h.restored herr, fun hlen => ?_⟩,
    fun k hk => ⟨(h.spares k hk).elsewhere, fun e he => ?_⟩⟩
  · have hsub := h.only herr hhonest hlen
    exact ⟨hsub, fun hnodup => eq_of_sublist_of_items hsub hnodup (h.restored herr)⟩
  · obtain ⟨he, hep⟩ := List.mem_filter.1 he
    exact (h.spares k hk).neighbours e (addedRule_of_mem (mem_rules he).2) (by simpa using hep)

/-- Somebody's reject at the priority of the overlay reject of a native exit. -/
def strayReject : Tx Quiet where
  kernel :=
    { kern :=
        { rules := fun f => if f = .v4 then [rejectRule prioIngressReject .v4] else []
          rules_sorted := fun f => by cases f <;> decide
          routes_table := Kern.no_routes } }
  spec := { config := { kind := .overlay, backend := .native, overlayIf := "wt0", exitIf := "mole0", table := 1000 } }

theorem rebuild_leaves_no_gap_reject :
    (Tx.rebuild quiet .v4 prioIngressReject (strayReject.spec.rulesAt .v4 prioIngressReject)
      strayReject).2.kernel.kern.rulesAt .v4 prioIngressReject =
        strayReject.spec.rulesAt .v4 prioIngressReject := by
  have hwant : ContractRules strayReject.spec.config .v4 prioIngressReject
      (strayReject.spec.rulesAt .v4 prioIngressReject) := by
    intro w hw
    obtain ⟨hw, hp⟩ := List.mem_filter.1 hw
    have hadded := addedRule_of_mem (mem_rules hw).2
    exact ⟨hadded.family, by simpa using hp, w, hadded, by simpa using hp, equalItems_refl _⟩
  obtain ⟨before, after, -, -, -, hdone, -⟩ := rebuild_leaves_no_gap strayReject.spec
    (.inr ⟨by decide, by decide⟩) .v4 prioIngressReject _ (by decide) hwant strayReject
    fun _ => ⟨nofun, nofun⟩
  exact ((hdone (by decide +kernel)).2 (by decide)).2 (by decide)

end Molebridge
