import Molebridge.Proofs.Fresh

/-! No deletion is judged on a stale model: the model `currentModel` hands out is
the kernel at the barrier made for it, unless a read-back of rules discarded the
notification of somebody else's change while the model was held, having read it or
replaced the subscription it was waiting on. -/

namespace Molebridge

variable {tx tx' : Tx World} {m : State} {r : Option RtErr}

variable {c : ℕ → Change} {x : Except RtErr (Option State)} {remove : State → State × Bool} {route : Route}

/-- What holds between the calls of an operation: the model that is held, if one
is, is fresh. -/
structure Tx.Inv (tx : Tx World) : Prop where
  apart : tx.kernel.Apart
  lossless : tx.kernel.Lossless
  known : ∀ m, tx.model = some m → ∀ t ∈ m.known, t ∈ tx.spec.interest
  fresh : ∀ m, tx.model = some m → Fresh tx.spec.interest m tx.kernel

/-- The model is the kernel at a barrier of the call that led here. -/
def Tx.Barred (tx tx' : Tx World) (m : State) : Prop :=
  m.Agrees tx'.kernel.quiet ∧ ∃ i, tx.kernel.past.length ≤ i ∧ i ≤ tx'.kernel.past.length ∧
    tx'.kernel.quiet = tx'.kernel.kernAt i

theorem of_ask {σ α : Type} {x : StateM σ α} {tx tx' : Tx σ} {a : α} (h : ask x tx = (a, tx')) :
    ∃ s, x tx.kernel = (a, s) ∧ tx' = { tx with kernel := s } := by
  cases h
  exact ⟨_, rfl, rfl⟩

namespace Tx

theorem Inv.asked (hi : tx.Inv) {w : World} (hs : Sound tx.kernel w)
    (hf : ∀ m, (∀ t ∈ m.known, t ∈ tx.spec.interest) → Fresh tx.spec.interest m tx.kernel →
      tx.model = some m → Fresh tx.spec.interest m w) : Inv { tx with kernel := w } where
  apart := hs.apart hi.apart
  lossless := hs.lossless hi.lossless
  known := hi.known
  fresh m hm := hf m (hi.known m hm) (hi.fresh m hm) hm

theorem Inv.setModel {σ : Option State} (hi : tx.Inv) (hk : ∀ m, σ = some m → ∀ t ∈ m.known, t ∈ tx.spec.interest)
    (hf : ∀ m, σ = some m → Fresh tx.spec.interest m tx.kernel) : Inv { tx with model := σ } :=
  ⟨hi.apart, hi.lossless, hk, hf⟩

theorem Inv.dropped (hi : tx.Inv) : Inv { tx with model := none } := hi.setModel (by simp) (by simp)

theorem budget_inv (hi : tx.Inv) (h : budget conn tx = (r, tx')) :
    tx'.Inv ∧ tx'.spec = tx.spec ∧ tx'.retiring = tx.retiring ∧ tx'.model = tx.model ∧
      tx'.kernel.read = tx.kernel.read ∧ tx'.kernel.env = tx.kernel.env ∧
      tx.kernel.past.length ≤ tx'.kernel.past.length := by
  obtain ⟨_, _, h₁, h⟩ := exists_of_bind h
  obtain ⟨w, hw, rfl⟩ := of_ask h₁
  cases h
  have hread : w.read = tx.kernel.read := unread_waits.expired.run hw
  have hgrows : Grows [] tx.kernel w := grows_reads.expired.run hw
  refine ⟨hi.asked (sound_reads.expired.run hw) fun m hk hf _ => ?_, rfl, rfl, rfl, hread,
    hgrows.env, hgrows.isPrefix.length_le⟩
  exact ((carries_renews hk).expired.run hw).fresh (by simp [hread]) hf

theorem snapshot_inv {x : Except RtErr Snapshot} (hi : tx.Inv) (h : snapshot conn tx = (x, tx')) :
    tx'.Inv ∧ tx'.spec = tx.spec ∧ tx'.retiring = tx.retiring ∧
      ∀ snap, x = .ok snap → snap.unstable = false → tx'.kernel.lost = false →
        ∃ m, tx'.model = some m ∧ Barred tx tx' m := by
  obtain ⟨e, tx₁, h₁, h⟩ := exists_of_bind h
  obtain ⟨hi₁, hspec, hret, -, -, -, hpast⟩ := budget_inv hi h₁
  cases e with
  | some e =>
    cases h
    exact ⟨hi₁, hspec, hret, by simp⟩
  | none =>
    replace h := of_get_bind h
    obtain ⟨y, _, h₂, h⟩ := exists_of_bind h
    obtain ⟨w, hw, rfl⟩ := of_ask h₂
    have hi₂ : Inv { tx₁ with kernel := w, model := none } :=
      hi₁.dropped.asked ((sound_reads.takeLoop _ _ _ _).run hw) (by simp)
    cases y with
    | error e =>
      cases h
      exact ⟨hi₂, hspec, hret, by simp⟩
    | ok snap =>
      cases h
      have hmodel : ∀ m, (if snap.unstable = true then none else some (State.fromSnapshot tx₁.spec snap)) = some m →
          snap.unstable = false ∧ m = State.fromSnapshot tx₁.spec snap := by
        intro m hm
        split_ifs at hm with hu
        exact ⟨by simpa using hu, (Option.some.inj hm).symm⟩
      refine ⟨hi₂.setModel (fun m hm => ?_) (fun m hm => ?_), hspec, hret, fun s hs hstable hlost => ?_⟩
      · obtain ⟨-, rfl⟩ := hmodel m hm
        exact fromSnapshot_known _ _
      · obtain ⟨hu, rfl⟩ := hmodel m hm
        cases hlost : w.lost with
        | true => exact .inl hlost
        | false => exact (takeContext_fresh hw hu hi₁.lossless hlost).1
      · cases hs
        obtain ⟨-, hagree, i, hi, hi', hq⟩ := takeContext_fresh hw hstable hi₁.lossless hlost
        exact ⟨_, by simp [hstable], hagree, i, hpast.trans hi, hi', hq⟩

theorem freshModel_inv (hi : tx.Inv) (h : freshModel conn tx = (x, tx')) :
    tx'.Inv ∧ tx'.spec = tx.spec ∧ tx'.retiring = tx.retiring ∧
      ∀ m, x = .ok (some m) → tx'.model = some m ∧ (tx'.kernel.lost = false → Barred tx tx' m) := by
  obtain ⟨y, _, h₁, h⟩ := exists_of_bind h
  obtain ⟨hi₁, hspec, hret, hbarred⟩ := snapshot_inv hi h₁
  cases y with
  | error e =>
    cases h
    exact ⟨hi₁, hspec, hret, by simp⟩
  | ok snap =>
    replace h := of_get_bind h
    cases h
    refine ⟨hi₁, hspec, hret, fun m hm => ?_⟩
    have hm' := Except.ok.inj hm
    split_ifs at hm' with hu
    refine ⟨hm', fun hlost => ?_⟩
    obtain ⟨_, hmodel, hb⟩ := hbarred snap rfl (by simpa using hu) hlost
    cases hm'.symm.trans hmodel
    exact hb

/-- The model that is handed out is held, and is the kernel at a barrier of this
call. -/
theorem currentModel_inv (hi : tx.Inv)
    (h : currentModel conn tx = (x, tx')) :
    tx'.Inv ∧ tx'.spec = tx.spec ∧ tx'.retiring = tx.retiring ∧
      ∀ m, x = .ok (some m) → tx'.model = some m ∧ (tx'.kernel.lost = false → Barred tx tx' m) := by
  replace h := of_get_bind h
  cases hm : tx.model with
  | none =>
    rw [hm] at h
    exact freshModel_inv hi h
  | some m =>
    rw [hm] at h
    replace h := of_get_bind h
    obtain ⟨y, _, h₁, h⟩ := exists_of_bind h
    obtain ⟨w, hw, rfl⟩ := of_ask h₁
    have hsound : Sound tx.kernel w := (sound_reads.renews.foreignChange _).run hw
    have hgrows : Grows tx.spec.interest tx.kernel w := (grows_reads.renews.foreignChange _).run hw
    split at h
    · cases h
      exact ⟨hi.asked hsound fun m hk hf _ => foreignChange_error hk hw hf, rfl, rfl, by simp⟩
    · cases h
      refine ⟨hi.asked hsound fun m hk hf _ => ?_, rfl, rfl, fun m' hm' => ?_⟩
      · cases hlost : w.lost with
        | true => exact .inl hlost
        | false => exact (foreignChange_ok hk hw hi.apart hf hlost).1
      · cases hm'
        exact ⟨hm, fun hlost => (foreignChange_ok (hi.known m hm) hw hi.apart (hi.fresh m hm) hlost).2⟩
    · obtain ⟨_, _, h₂, h⟩ := exists_of_bind h
      obtain rfl := of_modify h₂
      have hi₂ : Inv { tx with kernel := w, model := none } := hi.dropped.asked hsound (by simp)
      obtain ⟨hi₃, hspec, hret, hbarred⟩ := freshModel_inv hi₂ h
      refine ⟨hi₃, hspec, hret, fun m' hm' => ⟨(hbarred m' hm').1, fun hlost => ?_⟩⟩
      obtain ⟨hagree, i, hle, hrest⟩ := (hbarred m' hm').2 hlost
      exact ⟨hagree, i, hgrows.isPrefix.length_le.trans hle, hrest⟩

/-! ### Requests -/

/-- What a deletion does to the model is what its request does to the kernel. -/
structure Follows (remove : State → State × Bool) (c : ℕ → Change) : Prop where
  agrees : ∀ p m k, m.Agrees k → (remove m).1.Agrees ((c p).apply k)
  known : ∀ m, (remove m).1.known = m.known
  unchanged : ∀ m, (remove m).2 = false → (remove m).1 = m

theorem approve_inv {x : Except RtErr (State × Bool)} (hi : tx.Inv)
    (hside : tx.spec.config.isGluetunSidecar = false) (h : approve conn remove tx = (x, tx')) :
    tx'.Inv ∧ tx'.spec = tx.spec ∧ ∀ after changed, x = .ok (after, changed) →
      ∃ m, tx'.model = some m ∧ changed = (remove { m with spec := tx.judged }).2 ∧
        (changed = true → after = (remove { m with spec := tx.judged }).1) := by
  replace h := of_get_bind h
  rw [if_neg (by simpa [judged] using hside)] at h
  obtain ⟨y, _, h₁, h⟩ := exists_of_bind h
  obtain ⟨hi₁, hspec, -, hmodel⟩ := currentModel_inv hi h₁
  split at h
  · cases h
    exact ⟨hi₁, hspec, by simp⟩
  · cases h
    exact ⟨hi₁, hspec, by simp⟩
  · rename_i m
    dsimp only at h
    split_ifs at h with hchanged
    · obtain ⟨hx, rfl⟩ := of_pure h
      refine ⟨hi₁, hspec, fun after changed hok => ⟨m, (hmodel m rfl).1, ?_⟩⟩
      obtain ⟨rfl, rfl⟩ := Prod.mk.inj (Except.ok.inj (hx.trans hok))
      exact ⟨hchanged.symm, fun _ => rfl⟩
    · cases h
      exact ⟨hi₁, hspec, by simp⟩
    · obtain ⟨hx, rfl⟩ := of_pure h
      refine ⟨hi₁, hspec, fun after changed hok => ⟨m, (hmodel m rfl).1, ?_⟩⟩
      obtain ⟨-, rfl⟩ := Prod.mk.inj (Except.ok.inj (hx.trans hok))
      exact ⟨by simpa using hchanged, by simp⟩

/-- A request and its record: the model that is recorded follows an acknowledged
request, or is the one before a request that was refused as there already. -/
theorem Inv.recorded {err : Option RtErr} {w : World} {next : State → Option State} (hi : tx.Inv)
    (hw : request c tx.kernel = (err, w))
    (hnext : ∀ m m', tx.model = some m → next m = some m' → m'.known = m.known ∧
      (err = none ∧ (∀ p k, m.Agrees k → m'.Agrees ((c p).apply k)) ∨ err = some .exist ∧ m' = m)) :
    Inv { tx with kernel := w, model := tx.model.bind next } := by
  have hi₁ : Inv { tx with kernel := w, model := none } :=
    hi.dropped.asked ((sound_request c).run hw) (by simp)
  refine hi₁.setModel (fun m' hm' => ?_) (fun m' hm' => ?_)
  · obtain ⟨m, hm, hn⟩ := Option.bind_eq_some_iff.1 hm'
    rw [(hnext m m' hm hn).1]
    exact hi.known m hm
  · obtain ⟨m, hm, hn⟩ := Option.bind_eq_some_iff.1 hm'
    rcases (hnext m m' hm hn).2 with ⟨rfl, hstep⟩ | ⟨rfl, rfl⟩
    · exact request_done (hi.known m hm) hstep hw (hi.fresh m hm)
    · exact request_exist (hi.known m' hm) hw (hi.fresh m' hm)

theorem recorded_inv {next : Option RtErr → State → Option State} (hi : tx.Inv)
    (hnext : ∀ err m m', tx.model = some m → next err m = some m' → m'.known = m.known ∧
      (err = none ∧ (∀ p k, m.Agrees k → m'.Agrees ((c p).apply k)) ∨ err = some .exist ∧ m' = m))
    (h : (do let err ← ask (request c); record (next err); return err : TxM World (Option RtErr)) tx = (r, tx')) :
    tx'.Inv ∧ tx'.spec = tx.spec := by
  obtain ⟨err, _, h₁, h⟩ := exists_of_bind h
  obtain ⟨w, hw, rfl⟩ := of_ask h₁
  obtain ⟨_, _, h₂, h⟩ := exists_of_bind h
  obtain ⟨-, rfl⟩ := of_pure h
  obtain rfl := of_modify h₂
  exact ⟨hi.recorded hw (hnext err), rfl⟩

theorem kDelete_inv (hc : Follows remove c) (hi : tx.Inv)
    (hside : tx.spec.config.isGluetunSidecar = false) (h : kDelete conn remove (request c) tx = (r, tx')) :
    tx'.Inv ∧ tx'.spec = tx.spec := by
  obtain ⟨x, _, h₁, h⟩ := exists_of_bind h
  obtain ⟨hi₁, hspec, hx⟩ := approve_inv hi hside h₁
  cases x with
  | error e =>
    cases h
    exact ⟨hi₁, hspec⟩
  | ok x =>
    obtain ⟨after, changed⟩ := x
    obtain ⟨m, hm, hchanged, hafter⟩ := hx after changed rfl
    have hfollow : ∀ p k, m.Agrees k → (remove { m with spec := tx.judged }).1.Agrees ((c p).apply k) :=
      fun p k hk => hc.agrees p _ k ⟨hk.rules, hk.routes⟩
    refine (recorded_inv hi₁ (fun err m₁ m' hm₁ hn => ?_) h).imp_right fun hs => hs.trans hspec
    cases hm.symm.trans hm₁
    cases err with
    | some e => cases hn
    | none =>
      cases hn
      cases changed with
      | true =>
        rw [if_pos rfl, hafter rfl]
        exact ⟨hc.known _, .inl ⟨rfl, hfollow⟩⟩
      | false =>
        rw [hc.unchanged _ hchanged.symm] at hfollow
        exact ⟨rfl, .inl ⟨rfl, fun p k hk => ⟨(hfollow p k hk).rules, (hfollow p k hk).routes⟩⟩⟩

theorem kAddRule_inv {rule : Rule} (hi : tx.Inv) (h : kAddRule conn rule tx = (r, tx')) :
    tx'.Inv ∧ tx'.spec = tx.spec := by
  refine recorded_inv hi (fun err m m' _ hn => ?_) h
  split at hn
  · cases hn
    exact ⟨rfl, .inl ⟨rfl, fun _ _ hk => agrees_withRule rule hk⟩⟩
  · cases hn
    exact ⟨rfl, .inr ⟨rfl, rfl⟩⟩
  · cases hn

theorem withRoute_known (m : State) (route : Route) : (m.withRoute route).known = m.known := by
  unfold State.withRoute
  split <;> rfl

theorem kReplaceRoute_inv (hi : tx.Inv) (h : kReplaceRoute conn route tx = (r, tx')) :
    tx'.Inv ∧ tx'.spec = tx.spec := by
  refine recorded_inv hi (fun err m m' _ hn => ?_) h
  split at hn
  · cases hn
    exact ⟨withRoute_known m route, .inl ⟨rfl, fun _ _ hk => agrees_withRoute route hk⟩⟩
  · cases hn

/-! ### The deletions -/

theorem follows_withoutRule (rule : Rule) :
    Follows (·.withoutRule rule) (ruleChange (·.withoutRule rule)) where
  agrees _ _ _ h := agrees_withoutRule rule h
  known m := by
    unfold State.withoutRule
    split_ifs <;> rfl
  unchanged m h := by
    unfold State.withoutRule at h ⊢
    split_ifs at h ⊢ with hany
    rfl

theorem follows_withoutPriority (f : Family) (priority : ℕ) :
    Follows (·.withoutPriority f priority) (ruleChange (·.withoutPriority f priority)) where
  agrees _ _ _ h := agrees_withoutPriority f priority h
  known m := by
    unfold State.withoutPriority
    split_ifs <;> rfl
  unchanged m h := by
    unfold State.withoutPriority at h ⊢
    split_ifs at h ⊢ with hany
    rfl

theorem withoutRoute_cases (m : State) (route : Route) :
    (m.withoutRoute route).1.known = m.known ∧ ((m.withoutRoute route).2 = false → (m.withoutRoute route).1 = m) := by
  unfold State.withoutRoute
  split
  · exact ⟨rfl, fun _ => rfl⟩
  · split_ifs
    · exact ⟨rfl, by simp⟩
    · exact ⟨rfl, fun _ => rfl⟩

/-! ### Runs -/

theorem within_inv {benign : RtErr} {req : TxM World (Option RtErr)} {x : Bool × Option RtErr} (hi : tx.Inv)
    (hreq : ∀ tx₁ : Tx World, tx₁.Inv → tx₁.spec = tx.spec → ∀ r tx₂, req tx₁ = (r, tx₂) →
      tx₂.Inv ∧ tx₂.spec = tx₁.spec)
    (h : within conn benign req tx = (x, tx')) : tx'.Inv ∧ tx'.spec = tx.spec := by
  obtain ⟨e, tx₁, h₁, h⟩ := exists_of_bind h
  obtain ⟨hi₁, hspec, -⟩ := budget_inv hi h₁
  cases e with
  | some e =>
    cases h
    exact ⟨hi₁, hspec⟩
  | none =>
    obtain ⟨e, tx₂, h₂, h⟩ := exists_of_bind h
    obtain ⟨hi₂, hspec₂⟩ := hreq tx₁ hi₁ hspec e tx₂ h₂
    cases e with
    | none | some =>
      cases h
      exact ⟨hi₂, hspec₂.trans hspec⟩

theorem replaceRoute_inv (hi : tx.Inv) (h : replaceRoute conn route tx = (r, tx')) :
    tx'.Inv ∧ tx'.spec = tx.spec := by
  obtain ⟨e, _, h₁, h⟩ := exists_of_bind h
  obtain ⟨hi₁, hspec, -⟩ := budget_inv hi h₁
  cases e with
  | some e =>
    cases h
    exact ⟨hi₁, hspec⟩
  | none => exact (kReplaceRoute_inv hi₁ h).imp_right fun hs => hs.trans hspec

/-- A read-back that ends with a subscription, made while a model is held, has read
no notification of somebody else's change and thrown none away. -/
def Unswallowed (tx tx' : Tx World) : Prop :=
  tx.model.isSome = true → tx'.kernel.Subscribed →
    ∀ e ∈ tx'.kernel.read.drop tx.kernel.read.length, ¬tx.kernel.Foreign tx.spec.interest e

theorem confirmed_inv {f : Family} {rules : List Rule} (hi : tx.Inv)
    (h : confirmed conn f rules tx = (r, tx')) (hclear : Unswallowed tx tx') :
    tx'.Inv ∧ tx'.spec = tx.spec := by
  obtain ⟨e, tx₁, h₁, h⟩ := exists_of_bind h
  obtain ⟨hi₁, hspec, -, hmodel, hread, henv, -⟩ := budget_inv hi h₁
  cases e with
  | some e =>
    cases h
    exact ⟨hi₁, hspec⟩
  | none =>
    obtain ⟨x, _, h₂, h⟩ := exists_of_bind h
    obtain ⟨w, hw, rfl⟩ := of_ask h₂
    have htx : { tx₁ with kernel := w } = tx' := by
      cases x with
      | error e => exact (of_pure h).2
      | ok x => exact (of_pure h).2
    subst htx
    refine ⟨hi₁.asked ((sound_reads.renews.rulesLoop _ _ _).run hw) fun m hk hf hm => ?_, hspec⟩
    refine ((carries_renews hk).rulesLoop _ _ _).run hw |>.fresh (fun hsub e he => ?_) hf
    rw [World.foreign_congr henv, hspec]
    exact hclear (by rw [← hmodel, hm]; rfl) hsub e (by rwa [← hread])

def Clear (tx : Tx World) : List TxOp → Prop
  | [] => True
  | op :: rest => ((∃ f rules, op = .confirmed f rules) → Unswallowed tx (tx.step op)) ∧ (tx.step op).Clear rest

theorem step_inv (hi : tx.Inv) (hside : tx.spec.config.isGluetunSidecar = false) (op : TxOp)
    (hclear : (∃ f rules, op = .confirmed f rules) → Unswallowed tx (tx.step op)) :
    (tx.step op).Inv ∧ (tx.step op).spec = tx.spec := by
  cases op with
  | snapshot =>
    obtain ⟨h, hs, -⟩ := snapshot_inv hi rfl
    exact ⟨h, hs⟩
  | confirmed f rules => exact confirmed_inv hi rfl (hclear ⟨f, rules, rfl⟩)
  | addRule rule =>
    exact within_inv hi (fun _ hi₁ _ _ _ h => kAddRule_inv hi₁ h) rfl
  | delRule rule =>
    refine within_inv hi (fun tx₁ hi₁ hs _ _ h => ?_) rfl
    exact kDelete_inv (follows_withoutRule rule) hi₁ (by rw [hs, hside]) h
  | delRulePriority f p =>
    refine within_inv hi (fun tx₁ hi₁ hs _ _ h => ?_) rfl
    exact kDelete_inv (follows_withoutPriority f p) hi₁ (by rw [hs, hside]) h
  | replaceRoute route => exact replaceRoute_inv hi rfl
  | delRoute route =>
    refine within_inv hi (fun tx₁ hi₁ hs _ _ h => ?_) rfl
    exact kDelete_inv ⟨fun _ _ _ h => agrees_withoutRoute route h, fun m => (withoutRoute_cases m route).1,
      fun m => (withoutRoute_cases m route).2⟩ hi₁ (by rw [hs, hside]) h

theorem run_inv (hi : tx.Inv) (hside : tx.spec.config.isGluetunSidecar = false) {ops : List TxOp}
    (hclear : tx.Clear ops) : (tx.run ops).Inv := by
  induction ops generalizing tx with
  | nil => exact hi
  | cons op rest ih =>
    obtain ⟨hi₁, hs⟩ := step_inv hi hside op hclear.1
    exact ih hi₁ (by rw [hs, hside]) hclear.2

end Tx

/-- Whatever an operation did before, with any failures and between any changes of
others: the model `currentModel` hands out is the kernel at a barrier of that
call, when no read-back discarded a notification of theirs while a model was held. -/
theorem judged_model_current (tx : Tx World) (ops : List TxOp) (m : State) (tx' : Tx World)
    (hnew : tx.model = none) (hside : tx.spec.config.isGluetunSidecar = false) (hapart : tx.kernel.Apart)
    (hloss : tx.kernel.Lossless) (hclear : tx.Clear ops)
    (h : Tx.currentModel conn (tx.run ops) = (.ok (some m), tx')) (hlost : tx'.kernel.lost = false) :
    ∃ i, (tx.run ops).kernel.past.length ≤ i ∧ i ≤ tx'.kernel.past.length ∧
      tx'.kernel.quiet = tx'.kernel.kernAt i ∧ m.Agrees (tx'.kernel.kernAt i) := by
  have hi : tx.Inv := ⟨hapart, hloss, by simp [hnew], by simp [hnew]⟩
  obtain ⟨-, -, -, hmodel⟩ := Tx.currentModel_inv (Tx.run_inv hi hside hclear) h
  obtain ⟨hagree, i, hle, hle', hquiet⟩ := (hmodel m rfl).2 hlost
  exact ⟨i, hle, hle', hquiet, hquiet ▸ hagree⟩

/-! ### A read-back that swallows a notification -/

def watchedSpec : Spec :=
  { config := { kind := .overlay, backend := .native, overlayIf := "wt0", exitIf := "wg0", table := 7 } }

/-- Somebody else deletes the route of table 7 at one step of the code. -/
def disturbed (at_ : ℕ) : Tx World where
  kernel := { boot := tunnelKern true true, sub := some { cap := 8 }, pid := 1
              env := fun i => { acts := if i = at_ then [.change routeGone, .notify] else [], pid := 1 } }
  spec := watchedSpec

theorem disturbed_apart (n : ℕ) : (disturbed n).kernel.Apart := by
  rintro c ⟨i, hc⟩
  have hc' : Act.change c ∈ (if i = n then [.change routeGone, .notify] else []) := hc
  split_ifs at hc'
  · have : c = routeGone := by simpa using hc'
    subst this
    exact ⟨Nat.zero_ne_one, fun _ => Nat.zero_ne_one⟩
  · cases hc'

theorem disturbed_lossless (n : ℕ) : (disturbed n).kernel.Lossless := fun _ => ⟨rfl, fun s hs => by
  cases hs
  exact ⟨rfl, rfl⟩⟩

/-- The read-back of rules discards the notification that the route is gone, and
the next deletion is judged with the route. -/
theorem judged_model_stale :
    ¬ ∀ (tx : Tx World) (ops : List TxOp) (m : State) (tx' : Tx World),
      tx.model = none → tx.spec.config.isGluetunSidecar = false → tx.kernel.Apart → tx.kernel.Lossless →
      Tx.currentModel conn (tx.run ops) = (.ok (some m), tx') → tx'.kernel.lost = false →
      ∃ i, (tx.run ops).kernel.past.length ≤ i ∧ i ≤ tx'.kernel.past.length ∧
        m.Agrees (tx'.kernel.kernAt i) := by
  intro h
  have hrun : (Tx.currentModel conn ((disturbed 19).run [.snapshot, .confirmed .v4 []])).1.toOption.map
      (fun x => x.map fun m => (m.known, (m.routes .v4).lookup 7 == some [])) = some (some ([7], false)) := by
    decide +kernel
  have hkern : ((disturbed 19).run [.snapshot, .confirmed .v4 []]).kernel.past.length = 1 ∧
      (Tx.currentModel conn ((disturbed 19).run [.snapshot, .confirmed .v4 []])).2.kernel.past.length = 1 ∧
      (Tx.currentModel conn ((disturbed 19).run [.snapshot, .confirmed .v4 []])).2.kernel.lost = false ∧
      ((Tx.currentModel conn ((disturbed 19).run [.snapshot, .confirmed .v4 []])).2.kernel.kernAt 1).routes
        .v4 7 = [] := by
    decide +kernel
  rcases hcur : Tx.currentModel conn ((disturbed 19).run [.snapshot, .confirmed .v4 []]) with ⟨x, tx'⟩
  rw [hcur] at hrun hkern
  obtain ⟨hlen, hlen', hlost, hroutes⟩ := hkern
  cases x with
  | error e => cases hrun
  | ok x =>
    cases x with
    | none => cases hrun
    | some m =>
      obtain ⟨hknown, hlook⟩ : m.known = [7] ∧ ¬(m.routes .v4).lookup 7 = some [] := by
        simpa [Except.toOption] using hrun
      obtain ⟨i, hi, hi', hagree⟩ := h (disturbed 19) _ m tx' rfl rfl (disturbed_apart 19)
        (disturbed_lossless 19) hcur hlost
      obtain rfl : i = 1 := by
        have : tx'.kernel.past.length = 1 := hlen'
        omega
      refine hlook ((hagree.routes .v4 7 (by simp [hknown])).trans ?_)
      rw [hroutes]

/-- A change behind the read-back is heard of, and the model is made anew. -/
theorem judged_model_current_later :
    ∃ m tx', Tx.currentModel conn ((disturbed 32).run [.snapshot, .confirmed .v4 []]) = (.ok (some m), tx') ∧
      (m.routes .v4).lookup 7 = some [] ∧ m.Agrees tx'.kernel.quiet := by
  have hrun : (Tx.currentModel conn ((disturbed 32).run [.snapshot, .confirmed .v4 []])).1.toOption.map
      (fun x => x.map fun m => (m.routes .v4).lookup 7) = some (some (some [])) := by
    decide +kernel
  have hread : ((disturbed 32).run [.snapshot, .confirmed .v4 []]).kernel.read = [] ∧
      (Tx.currentModel conn ((disturbed 32).run [.snapshot, .confirmed .v4 []])).2.kernel.lost = false := by
    decide +kernel
  have hclear : (disturbed 32).Clear [.snapshot, .confirmed .v4 []] := by
    refine ⟨by simp, fun _ _ _ e he => ?_, trivial⟩
    have hnil : (((disturbed 32).step .snapshot).step (.confirmed .v4 [])).kernel.read = [] := hread.1
    cases he
  rcases hcur : Tx.currentModel conn ((disturbed 32).run [.snapshot, .confirmed .v4 []]) with ⟨x, tx'⟩
  rw [hcur] at hrun hread
  cases x with
  | error e => cases hrun
  | ok x =>
    cases x with
    | none => cases hrun
    | some m =>
      obtain ⟨i, -, -, hquiet, hagree⟩ := judged_model_current (disturbed 32) _ m tx' rfl rfl
        (disturbed_apart 32) (disturbed_lossless 32) hclear hcur hread.2
      exact ⟨m, tx', rfl, by simpa [Except.toOption] using hrun, hquiet ▸ hagree⟩

end Molebridge
