import Molebridge.Lib.Stateful
import Molebridge.Spec.Repair

/-! What the owner's calls do to a kernel that nobody else changes. Looking, judging
and reading back leave it as it is (`Idle`); a request makes its one change, which is
noted, or none (`Effect`), whatever fails. -/

namespace Molebridge

variable {R : Kern → Kern → Prop} {cps l : List Rule}

structure Idle (tx tx' : Tx Quiet) : Prop where
  kern : tx'.kernel.kern = tx.kernel.kern
  past : tx'.kernel.past = tx.kernel.past
  answers : tx'.kernel.answers = tx.kernel.answers
  spec : tx'.spec = tx.spec
  retiring : tx'.retiring = tx.retiring

theorem idle_chains : Chains Idle where
  refl _ := ⟨rfl, rfl, rfl, rfl, rfl⟩
  trans h h' := ⟨h'.kern.trans h.kern, h'.past.trans h.past, h'.answers.trans h.answers,
    h'.spec.trans h.spec, h'.retiring.trans h.retiring⟩

/-! ### Looks and judgements -/

theorem idle_call {α : Type} (g : Answer → Kern → α) : Along Idle (ask (Quiet.call g)) := fun _ =>
  ⟨rfl, rfl, rfl, rfl, rfl⟩

theorem idle_setModel (m : Option State) : Along Idle (setModel m : TxM Quiet Unit) :=
  along_modify fun _ => ⟨rfl, rfl, rfl, rfl, rfl⟩

theorem idle_budget : Along Idle (Tx.budget quiet) :=
  idle_chains.bind (idle_call _) fun _ => idle_chains.pure _

theorem idle_snapshot : Along Idle (Tx.snapshot quiet) := by
  refine idle_chains.bind idle_budget fun e => ?_
  cases e with
  | some e => exact idle_chains.pure _
  | none =>
    refine idle_chains.bind idle_chains.get fun tx₀ => idle_chains.bind (idle_call _) fun x => ?_
    cases x with
    | error | ok => exact idle_chains.bind (idle_setModel _) fun _ => idle_chains.pure _

theorem idle_freshModel : Along Idle (Tx.freshModel quiet) := by
  refine idle_chains.bind idle_snapshot fun x => ?_
  cases x with
  | error e => exact idle_chains.pure _
  | ok snap => exact idle_chains.bind idle_chains.get fun _ => idle_chains.pure _

theorem idle_currentModel : Along Idle (Tx.currentModel quiet) := by
  refine idle_chains.bind idle_chains.get fun tx₀ => ?_
  cases tx₀.model with
  | none => exact idle_freshModel
  | some m =>
    refine idle_chains.bind idle_chains.get fun tx₁ => idle_chains.bind (idle_call _) fun x => ?_
    cases x with
    | error e => exact idle_chains.pure _
    | ok foreign =>
      cases foreign with
      | false => exact idle_chains.pure _
      | true => exact idle_chains.bind (idle_setModel _) fun _ => idle_freshModel

theorem idle_approve (remove : State → State × Bool) :
    Yields Idle (fun x => ∀ e, x = .error e → e = .unsafeDeletion) (Tx.approve quiet remove) := by
  refine idle_chains.yields_bind idle_chains.get fun tx₀ => ?_
  dsimp only
  split_ifs
  · exact idle_chains.yields_pure (by simp)
  · refine idle_chains.yields_bind idle_currentModel fun x => ?_
    rcases x with e | _ | m
    · exact idle_chains.yields_pure (by simp)
    · exact idle_chains.yields_pure (by simp)
    · dsimp only
      split_ifs <;> exact idle_chains.yields_pure (by simp)

theorem confirmed_spec (f : Family) (rules : List Rule) (tx : Tx Quiet) :
    Idle tx (Tx.confirmed quiet f rules tx).2 ∧ ((Tx.confirmed quiet f rules tx).1 = none →
      ∀ r ∈ rules, Tx.hasExact (tx.kernel.kern.rules f) r = true) := by
  have hidle := idle_budget tx
  unfold Tx.confirmed
  rw [bind_run]
  rcases hb : Tx.budget quiet tx with ⟨e, tx'⟩
  rw [hb] at hidle
  cases e with
  | some e => exact ⟨hidle, by simp [pure_run]⟩
  | none =>
    dsimp only
    have hcall : Idle tx (ask (quiet.rulesStable f) tx').2 := idle_chains.trans hidle ⟨rfl, rfl, rfl, rfl, rfl⟩
    have hread : (ask (quiet.rulesStable f) tx').1 = tx'.kernel.answer.fault.elim
        (.ok (tx'.kernel.kern.rules f, tx'.kernel.answer.blurred.isNone)) Except.error := by
      cases hf : tx'.kernel.answer.fault <;> simp [ask, quiet, Quiet.call, hf]
    rw [bind_run, hread]
    cases tx'.kernel.answer.fault with
    | some e => exact ⟨hcall, by simp [pure_run]⟩
    | none =>
      refine ⟨hcall, fun h r hr => ?_⟩
      have hall : (tx'.kernel.answer.blurred.isNone &&
          rules.all (Tx.hasExact (tx'.kernel.kern.rules f))) = true := by
        by_contra hno
        simp only [Option.elim_none] at h
        rw [pure_run, if_neg hno] at h
        cases h
      rw [Bool.and_eq_true, List.all_eq_true, hidle.kern] at hall
      exact hall.2 r hr

/-- A relation that reading back moves along, and that can be chained. -/
structure Neutral (R : Tx Quiet → Tx Quiet → Prop) : Prop extends Chains R where
  confirmed : ∀ f rules, Along R (Tx.confirmed quiet f rules)

theorem neutral_of_idle {R : Tx Quiet → Tx Quiet → Prop} (h : Chains R)
    (hi : ∀ {tx tx'}, Idle tx tx' → R tx tx') : Neutral R := ⟨h, fun f rules tx => hi (confirmed_spec f rules tx).1⟩

/-! ### Requests -/

/-- A kernel that says a rule is there, or is not, only where that is so. -/
def Quiet.Honest (w : Quiet) : Prop :=
  ∀ n, (w.answers n).fault ≠ some .exist ∧ (w.answers n).fault ≠ some .notExist

structure Made (change : Kern → Kern) (tx tx' : Tx Quiet) : Prop where
  kern : tx'.kernel.kern = change tx.kernel.kern
  past : tx'.kernel.past = change tx.kernel.kern :: tx.kernel.past
  answers : tx'.kernel.answers = tx.kernel.answers
  spec : tx'.spec = tx.spec
  retiring : tx'.retiring = tx.retiring

variable {change : Kern → Kern} {tx tx' tx'' : Tx Quiet} {f : Family} {q : ℕ}

theorem Idle.made (h : Idle tx tx') (h' : Made change tx' tx'') : Made change tx tx'' :=
  ⟨by rw [h'.kern, h.kern], by rw [h'.past, h.kern, h.past], h'.answers.trans h.answers,
    h'.spec.trans h.spec, h'.retiring.trans h.retiring⟩

/-- A request, answered: the change is made when there is no error, and an answer
that the rule is there or is not says so of the kernel. -/
structure Requested (refused : Kern → Option RtErr) (change : Kern → Kern) (tx : Tx Quiet)
    (err : Option RtErr) (tx' : Tx Quiet) : Prop where
  made : err = none → Made change tx tx' ∧ refused tx.kernel.kern = none
  idle : ∀ e, err = some e → Idle tx tx'
  denied : tx.kernel.Honest → ∀ e, err = some e → e = .exist ∨ e = .notExist →
    refused tx.kernel.kern = some e

variable {refused : Kern → Option RtErr}

theorem Requested.of_idle
    {err : Option RtErr} (h : Idle tx tx') (h' : Requested refused change tx' err tx'') :
    Requested refused change tx err tx'' where
  made he := ⟨h.made (h'.made he).1, h.kern ▸ (h'.made he).2⟩
  idle e he := idle_chains.trans h (h'.idle e he)
  denied hhonest e he hb := h.kern ▸ h'.denied (fun n => h.answers ▸ hhonest n) e he hb

def ruleAdded (r : Rule) (err : Option RtErr) (m : State) : Option State :=
  match err with
  | none => some (m.withRule r)
  | some .exist => some m
  | some _ => none

def routeReplaced (r : Route) (err : Option RtErr) (m : State) : Option State :=
  match err with
  | none => some (m.withRoute r)
  | some _ => none

def deleted (after : State) (changed : Bool) (err : Option RtErr) (m : State) : Option State :=
  match err with
  | some _ => none
  | none => some (if changed then after else m)

theorem requested_submit (refused : Kern → Option RtErr) (change : Kern → Kern)
    (next : Option RtErr → State → Option State) (tx : Tx Quiet) :
    Requested refused change tx (Quiet.submit refused change tx.kernel).1
      { tx with kernel := (Quiet.submit refused change tx.kernel).2,
                model := tx.model.bind (next (Quiet.submit refused change tx.kernel).1) } := by
  unfold Quiet.submit
  cases hf : (tx.kernel.answer.fault <|> refused tx.kernel.kern) with
  | some e =>
    refine ⟨fun h => (nomatch h), fun _ _ => ⟨rfl, rfl, rfl, rfl, rfl⟩, fun hhonest e' he hbenign => ?_⟩
    obtain rfl : e = e' := Option.some.inj he
    cases hfault : tx.kernel.answer.fault with
    | none => simpa [hfault] using hf
    | some e' =>
      obtain rfl : e' = e := by simpa [hfault] using hf
      have hno : tx.kernel.answer.fault ≠ _ ∧ tx.kernel.answer.fault ≠ _ := hhonest tx.kernel.tick
      rw [hfault] at hno
      rcases hbenign with rfl | rfl
      · exact absurd rfl hno.1
      · exact absurd rfl hno.2
  | none =>
    refine ⟨fun _ => ⟨⟨rfl, rfl, rfl, rfl, rfl⟩, ?_⟩, fun e he => (nomatch he), fun _ e he => (nomatch he)⟩
    cases hfault : tx.kernel.answer.fault with
    | none => simpa [hfault] using hf
    | some e => simp [hfault] at hf

theorem requested_kDelete (remove : State → State × Bool) (refused : Kern → Option RtErr)
    (change : Kern → Kern) (tx : Tx Quiet) :
    Requested refused change tx (Tx.kDelete quiet remove (Quiet.submit refused change) tx).1
      (Tx.kDelete quiet remove (Quiet.submit refused change) tx).2 := by
  obtain ⟨hidle, herr⟩ := idle_approve remove tx
  unfold Tx.kDelete
  rw [bind_run]
  rcases hrun : Tx.approve quiet remove tx with ⟨x, tx'⟩
  rw [hrun] at hidle herr
  cases x with
  | error e =>
    refine ⟨fun h => (nomatch h), fun _ _ => hidle, fun _ e' he hb => ?_⟩
    obtain rfl : e = e' := Option.some.inj he
    obtain rfl := herr e rfl
    rcases hb with hb | hb <;> cases hb
  | ok out =>
    exact Requested.of_idle hidle (requested_submit refused change (deleted out.1 out.2) tx')

/-- The same within the operation's budget: whether the kernel changed, and the error. -/
structure Answered (refused : Kern → Option RtErr) (change : Kern → Kern) (benign : RtErr) (tx : Tx Quiet)
    (res : Bool × Option RtErr) (tx' : Tx Quiet) : Prop where
  made : res.1 = true → res.2 = none ∧ Made change tx tx' ∧ refused tx.kernel.kern = none
  idle : res.1 = false → Idle tx tx'
  denied : tx.kernel.Honest → res = (false, none) → refused tx.kernel.kern = some benign

theorem answered_within {benign : RtErr}
    (hb : benign = .exist ∨ benign = .notExist) {x : TxM Quiet (Option RtErr)}
    (hx : ∀ tx, Requested refused change tx (x tx).1 (x tx).2) (tx : Tx Quiet) :
    Answered refused change benign tx (Tx.within quiet benign x tx).1 (Tx.within quiet benign x tx).2 := by
  have hidle := idle_budget tx
  unfold Tx.within
  rw [bind_run]
  rcases hbud : Tx.budget quiet tx with ⟨e, tx'⟩
  rw [hbud] at hidle
  cases e with
  | some e => exact ⟨fun h => (nomatch h), fun _ => hidle, fun _ h => (nomatch h)⟩
  | none =>
    have hreq := (hx tx').of_idle hidle
    dsimp only
    rw [bind_run]
    rcases hrun : x tx' with ⟨err, _⟩
    rw [hrun] at hreq
    cases err with
    | none => exact ⟨fun _ => ⟨rfl, hreq.made rfl⟩, fun h => (nomatch h), fun _ h => (nomatch h)⟩
    | some e =>
      refine ⟨fun h => (nomatch h), fun _ => hreq.idle e rfl, fun hhonest h => ?_⟩
      have he : e = benign := by
        by_contra hne
        dsimp only at h
        rw [pure_run, if_neg hne] at h
        cases h
      exact hreq.denied hhonest e rfl (he ▸ hb) ▸ congrArg some he

section Requests

variable (tx : Tx Quiet)

theorem addRule_spec (r : Rule) :
    Answered (fun k => if (k.rules r.family).any (sameButInvert r) then some .exist else none)
      (·.withRule r) .exist tx (Tx.addRule quiet r tx).1 (Tx.addRule quiet r tx).2 :=
  answered_within (.inl rfl) (requested_submit _ _ (ruleAdded r)) tx

theorem delRule_spec (r : Rule) :
    Answered (fun k => if (k.rules r.family).any (deleteMatches r) then none else some .notExist)
      (·.withoutRule r) .notExist tx (Tx.delRule quiet r tx).1 (Tx.delRule quiet r tx).2 :=
  answered_within (.inr rfl) (requested_kDelete _ _ _) tx

theorem delRulePriority_spec (f : Family) (p : ℕ) :
    Answered (fun k => if (k.rules f).any (·.priority == p) then none else some .notExist)
      (·.withoutPriority f p) .notExist tx (Tx.delRulePriority quiet f p tx).1
      (Tx.delRulePriority quiet f p tx).2 :=
  answered_within (.inr rfl) (requested_kDelete _ _ _) tx

theorem delRoute_spec (r : Route) :
    Answered (fun k => if (k.routes r.family r.table).any (State.routeDeleteMatches r) then none
        else some .notExist)
      (·.withoutRoute r) .notExist tx (Tx.delRoute quiet r tx).1 (Tx.delRoute quiet r tx).2 :=
  answered_within (.inr rfl) (requested_kDelete _ _ _) tx

theorem replaceRoute_spec (r : Route) :
    Made (·.withRoute r) tx (Tx.replaceRoute quiet r tx).2 ∨ Idle tx (Tx.replaceRoute quiet r tx).2 := by
  have hidle := idle_budget tx
  unfold Tx.replaceRoute
  rw [bind_run]
  rcases hb : Tx.budget quiet tx with ⟨e, tx'⟩
  rw [hb] at hidle
  cases e with
  | some e => exact .inr hidle
  | none =>
    have hreq := Requested.of_idle hidle (requested_submit (fun _ => none) (·.withRoute r)
      (routeReplaced r) tx')
    cases hs : (Quiet.submit (fun _ => none) (·.withRoute r) tx'.kernel).1 with
    | none => exact .inl (hreq.made hs).1
    | some e => exact .inr (hreq.idle e hs)

end Requests

theorem installCopies_mem (cps : List Rule) (tx : Tx Quiet) :
    ∀ cp ∈ (Tx.installCopies quiet cps tx).1.1, cp ∈ cps := by
  induction cps generalizing tx with
  | nil => simp [Tx.installCopies, pure_run]
  | cons cp t ih =>
    unfold Tx.installCopies
    rw [bind_run]
    rcases hrun : Tx.addRule quiet cp tx with ⟨⟨-, err⟩, tx'⟩
    cases err with
    | some e => simp [pure_run]
    | none =>
      dsimp only
      intro x hx
      split_ifs at hx
      · rcases List.mem_cons.1 hx with rfl | hx
        · exact .head _
        · exact .tail cp (ih tx' x hx)
      · exact .tail cp (ih tx' x hx)

/-! ### The kernels on the way -/

/-- The kernels noted since, oldest first; the last of them is the kernel now. -/
structure Since (tx : Tx Quiet) (ks : List Kern) (tx' : Tx Quiet) : Prop where
  past : tx'.kernel.past = ks.reverse ++ tx.kernel.past
  kern : tx'.kernel.kern = ks.getLastD tx.kernel.kern
  answers : tx'.kernel.answers = tx.kernel.answers
  spec : tx'.spec = tx.spec

theorem Idle.since (h : Idle tx tx') : Since tx [] tx' :=
  ⟨h.past, h.kern, h.answers, h.spec⟩

theorem Made.since (h : Made change tx tx') :
    Since tx [change tx.kernel.kern] tx' := ⟨h.past, h.kern, h.answers, h.spec⟩

theorem Since.trans {ks ks' : List Kern} (h : Since tx ks tx')
    (h' : Since tx' ks' tx'') : Since tx (ks ++ ks') tx'' where
  past := by rw [h'.past, h.past, List.reverse_append, List.append_assoc]
  kern := by
    rw [h'.kern, h.kern]
    cases ks'.getLast? <;> simp
  answers := h'.answers.trans h.answers
  spec := h'.spec.trans h.spec

def Stepwise (R : Kern → Kern → Prop) (tx tx' : Tx Quiet) : Prop :=
  ∃ ks, Since tx ks tx' ∧ ∀ k ∈ ks, R tx.kernel.kern k

section Stepwise

variable {R : Kern → Kern → Prop} (hR : Chains R)

include hR

theorem Since.last {ks : List Kern} (h : Since tx ks tx')
    (hks : ∀ k ∈ ks, R tx.kernel.kern k) : R tx.kernel.kern tx'.kernel.kern := by
  rw [h.kern]
  cases hl : ks.getLast? with
  | none =>
    rw [List.getLastD_eq_getLast?, hl]
    exact hR.refl _
  | some k =>
    rw [List.getLastD_eq_getLast?, hl]
    exact hks k (List.mem_of_getLast? hl)

theorem stepwise_chains : Chains (Stepwise R) where
  refl tx := ⟨[], (idle_chains.refl tx).since, by simp⟩
  trans := by
    rintro a b c ⟨ks, h, hks⟩ ⟨ks', h', hks'⟩
    refine ⟨ks ++ ks', h.trans h', fun k hk => ?_⟩
    rcases List.mem_append.1 hk with hk | hk
    · exact hks k hk
    · exact hR.trans (h.last hR hks) (hks' k hk)

omit hR in
theorem Idle.stepwise (h : Idle tx tx') : Stepwise R tx tx' := ⟨[], h.since, by simp⟩

omit hR in
theorem Made.stepwise (h : Made change tx tx')
    (hr : R tx.kernel.kern (change tx.kernel.kern)) : Stepwise R tx tx' :=
  ⟨_, h.since, by simpa using hr⟩

theorem Stepwise.last (h : Stepwise R tx tx') : R tx.kernel.kern tx'.kernel.kern := by
  obtain ⟨_, hs, hks⟩ := h
  exact hs.last hR hks

end Stepwise

theorem Answered.stepwise {benign : RtErr} {res : Bool × Option RtErr}
    (h : Answered refused change benign tx res tx')
    (hr : refused tx.kernel.kern = none → R tx.kernel.kern (change tx.kernel.kern)) : Stepwise R tx tx' := by
  cases hres : res.1 with
  | false => exact (h.idle hres).stepwise
  | true => exact (h.made hres).2.1.stepwise (hr (h.made hres).2.2)

theorem neutral_stepwise (h : Chains R) : Neutral (Stepwise R) :=
  neutral_of_idle (stepwise_chains h) Idle.stepwise

/-! ### Requests along a relation -/

/-- Requests that move along the relation: for rules to put in, rules to take out, and
places to clear. -/
structure Asks (A D : Rule → Prop) (C : Family → ℕ → Prop) (R : Tx Quiet → Tx Quiet → Prop) : Prop
    extends Neutral R where
  addRule : ∀ {r}, A r → Along R (Tx.addRule quiet r)
  delRule : ∀ {r}, D r → Along R (Tx.delRule quiet r)
  delRulePriority : ∀ {f q}, C f q → Along R (Tx.delRulePriority quiet f q)

/-- The rules a rebuild puts in, there and one priority earlier, and where it takes out. -/
structure LimitedRebuild (A D : Rule → Prop) (C : Family → ℕ → Prop) (f : Family) (q : ℕ) (want : List Rule) :
    Prop where
  rules : ∀ w ∈ want, A w
  copies : ∀ w ∈ want, A { w with priority := (q + (2 ^ 32 - 1)) % 2 ^ 32 }
  there : C f q
  before : ∀ w ∈ want, D { w with priority := (q + (2 ^ 32 - 1)) % 2 ^ 32 }

section Asks

variable {A D : Rule → Prop} {C : Family → ℕ → Prop} {R : Tx Quiet → Tx Quiet → Prop} (h : Asks A D C R)

include h

theorem Asks.installCopies (hc : ∀ cp ∈ cps, A cp) :
    Along R (Tx.installCopies quiet cps) := by
  have hs := h.toChains
  induction cps with
  | nil => exact hs.pure _
  | cons cp t ih =>
    refine hs.bind (h.addRule (hc cp (.head _))) fun x => ?_
    rcases x with ⟨-, _ | e⟩
    · exact hs.bind (ih fun cp hcp => hc cp (.tail _ hcp)) fun _ => hs.pure _
    · exact hs.pure _

theorem Asks.clearPriority (hq : C f q) (n : ℕ) :
    Along R (Tx.clearPriority quiet f q n) := by
  have hs := h.toChains
  induction n with
  | zero => exact hs.pure _
  | succ n ih =>
    refine hs.bind (h.delRulePriority hq) fun x => ?_
    rcases x with ⟨_ | _, _ | e⟩
    · exact hs.pure _
    · exact hs.pure _
    · exact hs.bind ih fun _ => hs.pure _
    · exact hs.pure _

variable {want : List Rule}

theorem Asks.refill (hw : ∀ w ∈ want, A w) : Along R (Tx.refill quiet want) := by
  have hs := h.toChains
  induction want with
  | nil => exact hs.pure _
  | cons w t ih =>
    refine hs.bind (h.addRule (hw w (.head _))) fun _ => ?_
    exact hs.bind (ih fun w hm => hw w (.tail _ hm)) fun _ => hs.pure _

theorem Asks.removeCopies (hc : ∀ cp ∈ cps, D cp) :
    Along R (Tx.removeCopies quiet cps) := by
  have hs := h.toChains
  induction cps with
  | nil => exact hs.pure _
  | cons cp t ih =>
    refine hs.bind (h.delRule (hc cp (.head _))) fun _ => ?_
    exact hs.bind (ih fun cp hm => hc cp (.tail _ hm)) fun _ => hs.pure _

theorem Asks.refillBehind {installed : List Rule} (hw : ∀ w ∈ want, A w)
    (hc : ∀ cp ∈ installed, D cp) (f : Family) (q : ℕ) :
    Along R (Tx.refillBehind quiet f q want installed) := by
  have hs := h.toChains
  refine hs.bind (h.refill hw) fun x => ?_
  rcases x with ⟨-, _ | e⟩
  · refine hs.bind (h.toNeutral.confirmed _ _) fun e => ?_
    cases e with
    | some e => exact hs.pure _
    | none => exact hs.bind (h.removeCopies hc) fun _ => hs.pure _
  · exact hs.pure _

theorem Asks.rebuild (hr : LimitedRebuild A D C f q want) :
    Along R (Tx.rebuild quiet f q want) := by
  have hs := h.toChains
  have hcopies : ∀ cp ∈ want.map fun w => { w with priority := (q + (2 ^ 32 - 1)) % 2 ^ 32 },
      A cp ∧ D cp := by
    intro cp hcp
    obtain ⟨w, hm, rfl⟩ := List.mem_map.1 hcp
    exact ⟨hr.copies w hm, hr.before w hm⟩
  refine along_ite (hs.pure _) (hs.bind_yields (P := fun x => ∀ cp ∈ x.1, D cp)
    (fun tx => ⟨h.installCopies (fun cp hcp => (hcopies cp hcp).1) tx,
      fun cp hcp => (hcopies cp (installCopies_mem _ tx cp hcp)).2⟩) ?_)
  rintro ⟨_, _ | e⟩ hinst
  · refine hs.bind (h.toNeutral.confirmed _ _) fun e => ?_
    cases e with
    | some e => exact hs.pure _
    | none =>
      refine hs.bind (h.clearPriority hr.there 32) fun x => ?_
      rcases x with ⟨-, _ | e⟩
      · exact hs.bind (h.refillBehind hr.rules hinst f q) fun _ => hs.pure _
      · exact hs.pure _
  · exact hs.pure _

theorem Asks.deleteRule {p : Plan} {a : Action} (ha : D a.rule ∧ C p.family a.priority) :
    Along R (Tx.deleteRule quiet p a) := by
  have hs := h.toChains
  refine hs.bind (h.delRule ha.1) fun x => ?_
  rcases x with ⟨-, _ | e⟩
  · exact hs.pure _
  · exact along_ite (h.delRulePriority ha.2) (hs.pure _)

end Asks

/-! ### The rules of a priority -/

/-- The rules of a family at a priority, in the kernel's order. -/
def Kern.rulesAt (k : Kern) (f : Family) (p : ℕ) : List Rule := (k.rules f).filter (·.priority == p)

def Kern.has (k : Kern) (f : Family) (p : ℕ) (r : Rule) : Prop :=
  ∃ x ∈ k.rulesAt f p, equalItems x.items r.items = true

instance (k : Kern) (f : Family) (p : ℕ) (r : Rule) : Decidable (k.has f p r) :=
  inferInstanceAs (Decidable (∃ x ∈ k.rulesAt f p, equalItems x.items r.items = true))

theorem hasExact_iff (k : Kern) (f : Family) (r : Rule) :
    Tx.hasExact (k.rules f) r = true ↔ k.has f r.priority r := by
  simp [Tx.hasExact, Kern.has, Kern.rulesAt, and_assoc]

namespace Kern

variable (k : Kern)

variable {k : Kern} {p : ℕ} {r : Rule}

theorem mem_rulesAt {x : Rule} :
    x ∈ k.rulesAt f p ↔ x ∈ k.rules f ∧ x.priority = p := by
  simp [rulesAt]

theorem setRules_rules (f g : Family) {rules : List Rule} (h : rules.Pairwise fun a b => a.priority ≤ b.priority) :
    (k.setRules f rules h).rules g = if g = f then rules else k.rules g := by
  by_cases hg : g = f
  · subst hg
    simp [setRules]
  · simp [setRules, hg]

theorem filter_insertRule_ne (h : q ≠ r.priority) :
    (State.insertRule r l).filter (·.priority == q) = l.filter (·.priority == q) := by
  have hr : (r.priority == q) = false := by simpa using h.symm
  induction l with
  | nil => simp [State.insertRule, hr]
  | cons x t ih =>
    rw [insertRule_cons]
    split_ifs
    · simp only [List.filter_cons, ih]
    · simp [hr]

theorem filter_insertRule (h : l.Pairwise fun a b => a.priority ≤ b.priority) :
    (State.insertRule r l).filter (·.priority == r.priority) = l.filter (·.priority == r.priority) ++ [r] := by
  induction l with
  | nil => simp [State.insertRule]
  | cons x t ih =>
    obtain ⟨hx, ht⟩ := List.pairwise_cons.1 h
    rw [insertRule_cons]
    split_ifs with hle
    · rw [List.filter_cons, List.filter_cons, ih ht]
      split_ifs <;> rfl
    · have hnone : (x :: t).filter (·.priority == r.priority) = [] := by
        refine List.filter_eq_nil_iff.2 fun y hy => ?_
        rcases List.mem_cons.1 hy with rfl | hy
        · simp only [beq_iff_eq]
          omega
        · have := hx y hy
          simp only [beq_iff_eq]
          omega
      rw [List.filter_cons_of_pos (by simp), hnone]
      rfl

theorem rulesAt_withRule (r : Rule) (g : Family) (q : ℕ) : (k.withRule r).rulesAt g q =
    if g = r.family ∧ q = r.priority then k.rulesAt g q ++ [r] else k.rulesAt g q := by
  unfold rulesAt withRule
  rw [setRules_rules]
  by_cases hg : g = r.family
  · subst hg
    by_cases hq : q = r.priority
    · subst hq
      simp only [and_self]
      exact filter_insertRule (k.rules_sorted _)
    · simp only [true_and, hq, if_false]
      exact filter_insertRule_ne hq
  · simp [hg]

theorem filter_eraseP {α : Type*} {m q : α → Bool} (h : ∀ x, m x = true → q x = true) (l : List α) :
    (l.eraseP m).filter q = (l.filter q).eraseP m := by
  induction l with
  | nil => rfl
  | cons x t ih =>
    by_cases hm : m x = true
    · rw [List.eraseP_cons_of_pos hm, List.filter_cons_of_pos (h x hm), List.eraseP_cons_of_pos hm]
    · rw [List.eraseP_cons_of_neg hm, List.filter_cons, List.filter_cons]
      split_ifs
      · rw [List.eraseP_cons_of_neg hm, ih]
      · exact ih

theorem filter_eraseP_of_disjoint {α : Type*} {m q : α → Bool} (h : ∀ x, m x = true → q x = false) (l : List α) :
    (l.eraseP m).filter q = l.filter q := by
  induction l with
  | nil => rfl
  | cons x t ih =>
    by_cases hm : m x = true
    · rw [List.eraseP_cons_of_pos hm, List.filter_cons_of_neg (by simp [h x hm])]
    · rw [List.eraseP_cons_of_neg hm, List.filter_cons, List.filter_cons, ih]

theorem rulesAt_withoutRule (req : Rule) (g : Family) (q : ℕ) : (k.withoutRule req).rulesAt g q =
    if g = req.family ∧ q = req.priority then (k.rulesAt g q).eraseP (deleteMatches req)
    else k.rulesAt g q := by
  have hprio : ∀ x, deleteMatches req x = true → x.priority = req.priority := by
    intro x hx
    simp only [deleteMatches, List.all_cons, Bool.and_eq_true, id_eq, beq_iff_eq] at hx
    exact hx.1.symm
  unfold rulesAt withoutRule
  rw [setRules_rules]
  by_cases hg : g = req.family
  · subst hg
    by_cases hq : q = req.priority
    · subst hq
      simp only [and_self]
      exact filter_eraseP (fun x hx => by simpa using hprio x hx) _
    · simp only [true_and, hq, if_false]
      exact filter_eraseP_of_disjoint (fun x hx => by simpa [hprio x hx] using Ne.symm hq) _
  · simp [hg]

theorem rulesAt_withoutPriority (f : Family) (p : ℕ) (g : Family) (q : ℕ) :
    (k.withoutPriority f p).rulesAt g q =
      if g = f ∧ q = p then (k.rulesAt g q).tail else k.rulesAt g q := by
  unfold rulesAt withoutPriority
  rw [setRules_rules]
  by_cases hg : g = f
  · subst hg
    by_cases hq : q = p
    · subst hq
      simp only [if_true]
      rw [filter_eraseP fun _ h => h]
      cases hl : (k.rules g).filter (·.priority == q) with
      | nil => rfl
      | cons x t =>
        have hx : x ∈ (k.rules g).filter (·.priority == q) := by simp [hl]
        rw [List.eraseP_cons_of_pos (by simpa using (List.mem_filter.1 hx).2)]
        rfl
    · simp only [true_and, hq, if_false]
      refine filter_eraseP_of_disjoint (fun x hx => ?_) _
      rw [beq_iff_eq] at hx
      simpa [hx] using Ne.symm hq
  · simp [hg]

theorem has_of_prefix {k' : Kern}
    (h : k.rulesAt f p <+: k'.rulesAt f p) (hr : k.has f p r) : k'.has f p r := by
  obtain ⟨x, hx, hitems⟩ := hr
  exact ⟨x, h.subset hx, hitems⟩

theorem has_congr {k' : Kern} (h : k'.rulesAt f p = k.rulesAt f p) : k'.has f p r ↔ k.has f p r := by
  unfold Kern.has
  rw [h]

theorem has_withRule {g : Family} {e : Rule} (h : k.has g q e) (r : Rule) :
    (k.withRule r).has g q e := by
  obtain ⟨x, hx, hitems⟩ := h
  refine ⟨x, ?_, hitems⟩
  rw [k.rulesAt_withRule]
  split_ifs
  · exact List.mem_append_left _ hx
  · exact hx

end Kern

end Molebridge
