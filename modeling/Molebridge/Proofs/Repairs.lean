import Molebridge.Proofs.Passes
import Molebridge.Proofs.Repairable

/-! The repair opens no leak: along every pass over a kernel that nobody else
changes, whatever fails, the model that deletions are judged on is the model of the
kernel, what is added is the owner's, and so no state on the way has a violation. -/

namespace Molebridge

variable {refused : Kern → Option RtErr} {change : Kern → Kern}

structure Repairing (spec : Spec) (k₀ : Kern) (tx : Tx Quiet) : Prop where
  expects : SpecOf spec tx.spec
  kept : Kept spec k₀ tx.kernel.kern
  safe : (liveModel spec tx.kernel.kern).violations = []
  past : ∀ k ∈ tx.kernel.past, escapes spec k = []
  model : ∀ m, tx.model = some m → ∃ s : Spec, s.config = spec.config ∧ m = modelOf s tx.kernel.kern

def Repairs (spec : Spec) (k₀ : Kern) {α : Type} (x : TxM Quiet α) : Prop :=
  Ensures (Repairing spec k₀) x fun _ => Repairing spec k₀

section Calls

variable {spec : Spec} {k₀ : Kern}
variable (hc : spec.config.NativeOverlay)

theorem ensures_call {α : Type} (g : Answer → Kern → α) :
    Ensures (Repairing spec k₀) (ask (Quiet.call g)) fun a tx => Repairing spec k₀ tx ∧
      ∃ ans, a = g ans tx.kernel.kern :=
  fun tx h => ⟨⟨h.expects, h.kept, h.safe, h.past, h.model⟩, tx.kernel.answer, rfl⟩

theorem repairs_budget : Repairs spec k₀ (Tx.budget quiet) :=
  (ensures_call _).bind fun _ => .pure fun _ h => h.1

theorem shows_look {k : Kern} (h : Kept spec k₀ k) (tables : List ℕ) (seen : Option Snapshot) :
    Shows spec k₀ (seen.elim (k.view tables) (k.blur tables)) := by
  cases seen with
  | none => exact ⟨by simp [Kern.view, h.links], by simp [Kern.view, h.addrs], h.rules⟩
  | some snap =>
    refine ⟨fun x hx => ?_, fun f x hx => ?_, fun f x hx => ?_⟩
    · rw [← h.links]
      simpa using (List.mem_filter.1 hx).2
    · rw [← h.addrs]
      simpa using (List.mem_filter.1 hx).2
    · exact h.rules f x (by simpa using (List.mem_filter.1 hx).2)

theorem setModel_ensures {m : Option State} : Ensures (fun tx => Repairing spec k₀ tx ∧
    ∀ x, m = some x → ∃ s : Spec, s.config = spec.config ∧ x = modelOf s tx.kernel.kern) (setModel m)
      fun _ tx => Repairing spec k₀ tx ∧ tx.model = m :=
  .modify fun _ ⟨h, hm⟩ => ⟨⟨h.expects, h.kept, h.safe, h.past, hm⟩, rfl⟩

theorem ensures_snapshot : Ensures (Repairing spec k₀) (Tx.snapshot quiet) fun x tx => Repairing spec k₀ tx ∧
    ∀ snap, x = .ok snap → Shows spec k₀ snap := by
  refine repairs_budget.bind fun e => ?_
  cases e with
  | some e => exact .pure fun _ h => ⟨h, by simp⟩
  | none =>
    refine Ensures.get.bind fun tx₀ => ?_
    refine Ensures.bind (Q := fun x tx => Repairing spec k₀ tx ∧ tx₀.spec.config = spec.config ∧
      ∃ ans : Answer, x = ans.look tx₀.spec.interest tx.kernel.kern) (fun tx h => ?_) fun x => ?_
    · obtain ⟨h', ans, hx⟩ := ensures_call _ tx h.1
      exact ⟨h', h.2 ▸ h.1.expects.config, ans, hx⟩
    · cases x with
      | error e =>
        refine Ensures.bind (fun tx h => ?_) fun _ => .pure fun _ h => ⟨h, by simp⟩
        exact (setModel_ensures tx ⟨h.1, by simp⟩).1
      | ok snap =>
        refine Ensures.bind (Q := fun _ tx => Repairing spec k₀ tx ∧ Shows spec k₀ snap) (fun tx h => ?_)
          fun _ => .pure fun _ h => ⟨h.1, fun s hs => Except.ok.inj hs ▸ h.2⟩
        obtain ⟨h, hcfg, ans, hx⟩ := h
        unfold Answer.look at hx
        cases hf : ans.fault with
        | some e => simp [hf] at hx
        | none =>
          rw [hf] at hx
          cases hx
          refine ⟨(setModel_ensures tx ⟨h, fun m hm => ?_⟩).1, shows_look h.kept _ _⟩
          cases hb : ans.blurred with
          | some seen => simp [hb, Kern.blur] at hm
          | none =>
            rw [hb] at hm
            exact ⟨tx₀.spec, hcfg, (Option.some.inj hm).symm⟩

/-- The model that is handed out is the one that is held. -/
def Hands (spec : Spec) (k₀ : Kern) (x : Except RtErr (Option State)) (tx : Tx Quiet) : Prop :=
  Repairing spec k₀ tx ∧ ∀ m, x = .ok (some m) → tx.model = some m

theorem ensures_freshModel : Ensures (Repairing spec k₀) (Tx.freshModel quiet) (Hands spec k₀) := by
  refine ensures_snapshot.bind fun x => ?_
  cases x with
  | error e => exact .pure fun _ h => ⟨h.1, by simp⟩
  | ok snap =>
    refine Ensures.get.bind fun tx₀ => .pure fun tx h => ?_
    obtain ⟨⟨h, -⟩, rfl⟩ := h
    refine ⟨h, fun m hm => ?_⟩
    have hm := Except.ok.inj hm
    split_ifs at hm
    exact hm

theorem ensures_currentModel : Ensures (Repairing spec k₀) (Tx.currentModel quiet) (Hands spec k₀) := by
  refine Ensures.get.bind fun tx₀ => ?_
  cases hm₀ : tx₀.model with
  | none => exact fun tx h => ensures_freshModel tx h.1
  | some m =>
    refine Ensures.get.bind fun tx₁ => ?_
    refine Ensures.bind (Q := fun _ tx => Repairing spec k₀ tx ∧ tx.model = some m) (fun tx h => ?_) fun x => ?_
    · obtain ⟨⟨h, rfl⟩, rfl⟩ := h
      exact ⟨(ensures_call _ _ h).1, hm₀⟩
    · cases x with
      | error e => exact .pure fun _ h => ⟨h.1, by simp⟩
      | ok foreign =>
        cases foreign with
        | false =>
          refine .pure fun _ h => ⟨h.1, fun m' hm' => ?_⟩
          rw [h.2, Option.some.inj (Except.ok.inj hm')]
        | true =>
          refine Ensures.bind (fun tx h => ?_) fun _ => ensures_freshModel
          exact (setModel_ensures tx ⟨h.1, by simp⟩).1

/-- An approved deletion was judged on the model of the kernel. -/
def Approves (spec : Spec) (k₀ : Kern) (remove : State → State × Bool) (x : Except RtErr (State × Bool))
    (tx : Tx Quiet) : Prop :=
  Repairing spec k₀ tx ∧ ∀ after changed, x = .ok (after, changed) →
    ∃ s : Spec, s.config = spec.config ∧ changed = (remove (modelOf s tx.kernel.kern)).2 ∧
      (changed = true → after = (remove (modelOf s tx.kernel.kern)).1 ∧
        worsens (modelOf s tx.kernel.kern) after = [])

include hc

theorem ensures_approve (remove : State → State × Bool) :
    Ensures (Repairing spec k₀) (Tx.approve quiet remove) (Approves spec k₀ remove) := by
  refine Ensures.get.bind fun tx₀ tx h => ?_
  obtain ⟨h, rfl⟩ := h
  have hcfg : tx₀.judged.config = spec.config := h.expects.config
  rw [if_neg (by rw [hcfg, hc.not_gluetunSidecar]; decide)]
  refine Ensures.bind ensures_currentModel (fun x => ?_) tx₀ h
  cases x with
  | error e => exact .pure fun _ h => ⟨h.1, by simp⟩
  | ok om =>
    cases om with
    | none => exact .pure fun _ h => ⟨h.1, by simp⟩
    | some m =>
      intro tx hh
      obtain ⟨s, hs, rfl⟩ := hh.1.model m (hh.2 m rfl)
      have hbefore : { modelOf s tx.kernel.kern with spec := tx₀.judged } = modelOf tx₀.judged tx.kernel.kern :=
        modelOf_asOf (hcfg.trans hs.symm) _
      dsimp only
      rw [hbefore]
      cases hch : (remove (modelOf tx₀.judged tx.kernel.kern)).2 with
      | false =>
        refine ⟨hh.1, fun after changed hx => ⟨tx₀.judged, hcfg, ?_, ?_⟩⟩
        · cases hx
          exact hch.symm
        · cases hx
          exact fun h => absurd h (by decide)
      | true =>
        show Approves spec k₀ remove (if (worsens (modelOf tx₀.judged tx.kernel.kern)
          (remove (modelOf tx₀.judged tx.kernel.kern)).1).isEmpty then _ else _) tx
        refine ⟨hh.1, fun after changed hx => ⟨tx₀.judged, hcfg, ?_⟩⟩
        split_ifs at hx with hw
        cases hx
        exact ⟨hch.symm, fun _ => ⟨rfl, by simpa using hw⟩⟩

/-! ### The requests -/

theorem ensures_request
    (next : Option RtErr → State → Option State) {P : Tx Quiet → Prop}
    (hP : ∀ tx, P tx → Repairing spec k₀ tx)
    (hkept : ∀ tx, P tx → refused tx.kernel.kern = none →
      Kept spec k₀ (change tx.kernel.kern) ∧ (liveModel spec (change tx.kernel.kern)).violations = [])
    (hdone : ∀ tx, P tx → refused tx.kernel.kern = none → ∀ s : Spec, s.config = spec.config →
      ∀ m, next none (modelOf s tx.kernel.kern) = some m →
        ∃ s' : Spec, s'.config = spec.config ∧ m = modelOf s' (change tx.kernel.kern))
    (hfail : ∀ e s m, next (some e) s = some m → m = s) :
    Ensures P (do
      let err ← ask (Quiet.submit refused change)
      Tx.record (next err)
      return err) fun _ => Repairing spec k₀ := by
  intro tx htx
  have h := hP tx htx
  have hreq := requested_submit refused change next tx
  change Repairing spec k₀ { tx with
    kernel := (Quiet.submit refused change tx.kernel).2,
    model := tx.model.bind (next (Quiet.submit refused change tx.kernel).1) }
  cases herr : (Quiet.submit refused change tx.kernel).1 with
  | some e =>
    rw [herr] at hreq
    have hidle := hreq.idle e rfl
    refine ⟨h.expects, hidle.kern ▸ h.kept, hidle.kern ▸ h.safe, hidle.past ▸ h.past, fun m hm => ?_⟩
    obtain ⟨m₀, hm₀, hnext⟩ := Option.bind_eq_some_iff.1 hm
    obtain ⟨s, hs, rfl⟩ := h.model m₀ hm₀
    exact ⟨s, hs, by rw [hfail e _ m hnext, ← hidle.kern]⟩
  | none =>
    rw [herr] at hreq
    obtain ⟨hmade, hr⟩ := hreq.made rfl
    obtain ⟨hkept', hsafe'⟩ := hkept tx htx hr
    refine ⟨h.expects, hmade.kern ▸ hkept', hmade.kern ▸ hsafe', fun k hk => ?_, fun m hm => ?_⟩
    · rw [hmade.past] at hk
      rcases List.mem_cons.1 hk with rfl | hk
      · exact (escapes_eq_nil_iff hc rfl _).1 hsafe'
      · exact h.past k hk
    · obtain ⟨m₀, hm₀, hnext⟩ := Option.bind_eq_some_iff.1 hm
      obtain ⟨s, hs, rfl⟩ := h.model m₀ hm₀
      obtain ⟨s', hs', rfl⟩ := hdone tx htx hr s hs m hnext
      exact ⟨s', hs', by rw [← hmade.kern]⟩

theorem repairs_kDelete {remove : State → State × Bool}
    (hd : DeletesAs spec remove refused change) :
    Repairs spec k₀ (Tx.kDelete quiet remove (Quiet.submit refused change)) := by
  refine (ensures_approve hc remove).bind fun x => ?_
  cases x with
  | error e => exact .pure fun _ h => h.1
  | ok p =>
    obtain ⟨after, changed⟩ := p
    have hafter : ∀ tx, Approves spec k₀ remove (.ok (after, changed)) tx → refused tx.kernel.kern = none →
        changed = true ∧ ∃ s : Spec, s.config = spec.config ∧ after = (remove (modelOf s tx.kernel.kern)).1 ∧
          worsens (modelOf s tx.kernel.kern) after = [] := by
      intro tx h hr
      obtain ⟨s, hs, hch, hafter⟩ := h.2 after changed rfl
      have hch' : changed = true := by
        by_contra hfalse
        exact hd.refused s hs _ (hch ▸ Bool.eq_false_of_not_eq_true hfalse) hr
      exact ⟨hch', s, hs, hafter hch'⟩
    refine ensures_request hc (deleted after changed) (fun _ h => h.1) (fun tx h hr => ?_)
      (fun tx h hr s hs m hm => ?_) (fun e s m hm => by cases hm)
    · obtain ⟨-, s, hs, rfl, hw⟩ := hafter tx h hr
      exact h.1.kept.deleted hc hd h.1.safe hs hw
    · obtain ⟨rfl, s', hs', rfl, -⟩ := hafter tx h hr
      cases hm
      exact ⟨s', hs', hd.model s' hs' _⟩

variable {f : Family} {r : Route}

theorem repairs_kAddRule (ok : Repairable spec k₀) {r : Rule}
    (hr : r ∈ ownRules spec k₀ f) : Repairs spec k₀ (Tx.kAddRule quiet r) := by
  refine ensures_request hc (ruleAdded r) (fun _ h => h) (fun tx h _ => h.kept.withRule hc ok h.safe hr) (fun tx h _ s hs m hm => ?_)
    fun e s m hm => ?_
  · exact ⟨s, hs, by rw [modelOf_withRule]; exact (Option.some.inj hm).symm⟩
  · cases e <;> first | exact (Option.some.inj hm).symm | cases hm

theorem repairs_kReplaceRoute (ok : Repairable spec k₀)
    (hr : r ∈ ownRoutes spec k₀ f) : Repairs spec k₀ (Tx.kReplaceRoute quiet r) := by
  have ht : r.table = spec.config.table := (of_ownRoutes hr).2.1
  refine ensures_request hc (routeReplaced r) (fun _ h => h) (fun tx h _ => h.kept.withRoute hc ok h.safe hr) (fun tx h _ s hs m hm => ?_)
    fun e s m hm => by cases hm
  refine ⟨s, hs, ?_⟩
  rw [modelOf_withRoute s _ r (by rw [interest_native (hs ▸ hc), hs, ht]; exact List.mem_singleton.2 rfl)]
  exact (Option.some.inj hm).symm

omit hc

theorem repairs_within {benign : RtErr} {x : TxM Quiet (Option RtErr)} (hx : Repairs spec k₀ x) :
    Repairs spec k₀ (Tx.within quiet benign x) := by
  refine repairs_budget.bind fun e => ?_
  cases e with
  | some e => exact .pure fun _ h => h
  | none =>
    refine hx.bind fun e => ?_
    cases e with
    | none | some => exact .pure fun _ h => h

theorem repairs_confirmed (f : Family) (rules : List Rule) : Repairs spec k₀ (Tx.confirmed quiet f rules) := by
  refine repairs_budget.bind fun e => ?_
  cases e with
  | some e => exact .pure fun _ h => h
  | none =>
    refine Ensures.bind (ensures_call _) fun x => ?_
    cases x with
    | error | ok => exact .pure fun _ h => h.1

section Requests

variable (hc : spec.config.NativeOverlay)
include hc

theorem repairs_delRule (r : Rule) : Repairs spec k₀ (Tx.delRule quiet r) :=
  repairs_within (repairs_kDelete hc (deletesAs_rule r))

theorem repairs_delRulePriority (f : Family) (n : ℕ) : Repairs spec k₀ (Tx.delRulePriority quiet f n) :=
  repairs_within (repairs_kDelete hc (deletesAs_priority f n))

theorem repairs_delRoute (ht : r.table = spec.config.table) : Repairs spec k₀ (Tx.delRoute quiet r) :=
  repairs_within (repairs_kDelete hc (deletesAs_route hc r ht))

variable (ok : Repairable spec k₀)
include ok

theorem repairs_addRule {r : Rule} (hr : r ∈ ownRules spec k₀ f) :
    Repairs spec k₀ (Tx.addRule quiet r) := repairs_within (repairs_kAddRule hc ok hr)

theorem repairs_replaceRoute (hr : r ∈ ownRoutes spec k₀ f) :
    Repairs spec k₀ (Tx.replaceRoute quiet r) := by
  refine repairs_budget.bind fun e => ?_
  cases e with
  | some e => exact .pure fun _ h => h
  | none => exact repairs_kReplaceRoute hc ok hr

/-! ### The pass -/

theorem repairs_asks : Asks (fun r => ∃ f, r ∈ ownRules spec k₀ f) (fun _ => True) (fun _ _ => True)
    fun tx tx' => Repairing spec k₀ tx → Repairing spec k₀ tx' where
  refl _ h := h
  trans h h' hr := h' (h hr)
  confirmed := repairs_confirmed
  addRule := fun ⟨_, hr⟩ => repairs_addRule hc ok hr
  delRule _ := repairs_delRule hc _
  delRulePriority _ := repairs_delRulePriority hc _ _

theorem repairs_apply {p : Plan} (hp : PlanOf spec k₀ p) (removals : Bool) :
    Repairs spec k₀ (Tx.apply quiet p removals) := by
  have hasks := repairs_asks hc ok
  have hrebuild : ∀ n, LimitedRebuild (fun r => ∃ f, r ∈ ownRules spec k₀ f) (fun _ => True) (fun _ _ => True)
      p.family n (p.wantAt n) := by
    refine fun n => ⟨fun w hw => ⟨_, expected_mem_own (hp.want n w hw).1⟩, fun w hw => ?_, trivial, fun _ _ => trivial⟩
    obtain ⟨hexp, rfl⟩ := hp.want n w hw
    obtain ⟨-, _, _, -⟩ := of_expected hc hexp
    have hlower : (w.priority + (2 ^ 32 - 1)) % 2 ^ 32 = w.priority - 1 := by omega
    rw [hlower]
    exact ⟨_, lower_mem_own hexp⟩
  have hallows : Allows (fun tx tx' => Repairing spec k₀ tx → Repairing spec k₀ tx') p removals :=
    { toNeutral := hasks.toNeutral
      add := fun a ha hk => hasks.addRule ⟨_, hp.adds a ha hk⟩
      rebuild := fun _ a _ _ => hasks.rebuild (hrebuild a.priority)
      delete := fun _ a _ _ => hasks.deleteRule ⟨trivial, trivial⟩
      route := fun a ha hk => repairs_replaceRoute hc ok (hp.routes a ha hk)
      unroute := fun a ha => repairs_delRoute hc (hp.table a ha)
      host := fun hh => absurd (hp.refresh.symm.trans hh) nofun }
  exact hallows.apply

structure RoundOf (spec : Spec) (k₀ : Kern) (r : Round) : Prop where
  expects : SpecOf spec r.spec
  shows_ : Shows spec k₀ r.snap
  plans : ∀ f, PlanOf spec k₀ (r.plans f)

theorem ensures_installGuard (f : Family) (r : Round) :
    Ensures (fun tx => Repairing spec k₀ tx ∧ RoundOf spec k₀ r) (Tx.installGuard quiet r f)
      fun r tx => Repairing spec k₀ tx ∧ RoundOf spec k₀ r := by
  refine .assuming fun hr => ?_
  unfold Tx.installGuard
  split_ifs
  · exact .pure fun _ h => ⟨h, hr⟩
  · have hs := hr.expects.setGuard f true
    have hg : guardRule (r.spec.setGuard f true) f ∈ ownRules spec k₀ f := guardRule_mem_own hc hs f
    refine Ensures.bind
      (.modify fun _ h => ⟨hs, h.kept, h.safe, h.past, h.model⟩) fun _ =>
        (repairs_addRule hc ok hg).bind fun out => .pure fun _ h => ⟨h, ?_⟩
    have hshow : Shows spec k₀ (if out.1 = true then r.snap.withRule f (guardRule (r.spec.setGuard f true) f)
        else r.snap) := by
      split_ifs
      · exact hr.shows_.withRule hg
      · exact hr.shows_
    refine ⟨hs, hshow, fun g => ?_⟩
    by_cases hgf : g = f
    · subst hgf
      simp only [Function.update_self]
      exact planOf_planFamily hc hs hshow ok.names g false
    · simp only [Function.update_of_ne hgf]
      exact hr.plans g

theorem repairs_keeps (guardRepairs : Bool) : PassKeeps spec guardRepairs (Repairing spec k₀)
    (fun snap _ => Shows spec k₀ snap) (fun _ r _ => RoundOf spec k₀ r) where
  expects h := h.expects
  respec hs h := ⟨hs, h.kept, h.safe, h.past, h.model⟩
  look := ensures_snapshot
  start _ hs hshow := ⟨hs, hshow, fun f => planOf_planFamily hc hs hshow ok.names f false⟩
  unguard _ _ := repairs_delRule hc _
  install _ := ensures_installGuard hc ok
  apply f _ _ _ := .assuming fun hr => Ensures.bind (repairs_apply hc ok (hr.plans f) _) fun _ =>
    .pure fun _ h => ⟨h, hr.expects, hr.shows_, hr.plans⟩

theorem repairs_pass (guardRepairs : Bool) (reason : String) : Repairs spec k₀ (Tx.pass quiet guardRepairs reason) := by
  refine Ensures.bind (Q := fun _ => Repairing spec k₀)
    (.modify fun _ h => ⟨h.expects, h.kept, h.safe, h.past, by simp⟩) fun _ => ?_
  exact Ensures.get.bind fun tx₀ tx h => (repairs_keeps hc ok _).reconcile reason tx h.1

theorem repairs_passes (guardRepairs : Bool) (reasons : List String) :
    Repairs spec k₀ (passes quiet guardRepairs reasons) := by
  unfold passes
  induction reasons with
  | nil => exact .pure fun _ h => h
  | cons reason rest ih =>
    rw [List.mapM_cons]
    exact (repairs_pass hc ok guardRepairs reason).bind fun _ => Ensures.bind ih fun _ => .pure fun _ h => h

end Requests

end Calls

/-- The kernel's requests may fail, its looks may be late, unstable or fail: no state
a number of passes leads through has a violation for the live addresses. -/
theorem repair_opens_nothing (spec : Spec) (hc : spec.config.NativeOverlay) (w : Quiet) (hw : w.past = [])
    (ok : Repairable spec w.kern) (hsafe : escapes spec w.kern = []) (guardRepairs : Bool) (reasons : List String) :
    ∀ k ∈ (passes quiet guardRepairs reasons { kernel := w, spec := spec }).2.kernel.past, escapes spec k = [] := by
  refine (repairs_passes hc ok guardRepairs reasons _ ⟨⟨rfl, rfl, rfl⟩, ?_, ?_, ?_, by simp⟩).past
  · exact ⟨rfl, rfl, fun _ _ h => .inl h, fun _ _ h => .inl h⟩
  · exact (escapes_eq_nil_iff hc rfl _).2 hsafe
  · intro k hk
    simp [hw] at hk

/-! ### A foreign route in the exit table -/

def openSpec : Spec :=
  { config := { kind := .overlay, backend := .native, overlayIf := "wt0", exitIf := "mole0", table := 1000 } }

def openAddr : Addr := exitAddr

/-- Overlay traffic is rejected and the tunnel address is held by its backstop; the
rules that look the exit table up are still to come. -/
def openKern (exit : List Route) (h : ∀ r ∈ exit, r.table = 1000) : Kern where
  rules
    | .v4 => [Spec.localGuard openSpec.config .v4, ingressReject openSpec.config .v4, backstopRule .v4 openAddr,
        lookupRule 32766 .v4 tableMain]
    | .v6 => []
  routes f t := if f == .v4 && t == 1000 then exit else []
  links := [{ index := 2, name := "eth0" }, { index := 3, name := "wt0" },
    { index := 5, name := "mole0", flags := iffUp }]
  addrs
    | .v4 => [{ family := .v4, index := 5, loc := Prefix.host openAddr, scope := rtScopeUniverse }]
    | .v6 => []
  rules_sorted f := by cases f <;> decide
  routes_table f t r hr := by
    split_ifs at hr with ht
    · simp only [Bool.and_eq_true, beq_iff_eq] at ht
      rw [h r hr, ht.2]
    · simp at hr

def strayRoute : Route :=
  { family := .v4, dst := some (Prefix.default .v4), table := 1000, typ := rtnUnicast, oif := some 2 }

def strayKern : Kern := openKern [strayRoute, fallbackRoute .v4 1000] (by decide)

/-- Nothing escapes before the repair. It adds the rules that look the exit table up
before it removes the foreign route, and the kernel in between sends what comes from
the tunnel address out of eth0. -/
theorem repair_opens_stray_route :
    openSpec.config.NativeOverlay ∧ escapes openSpec strayKern = [] ∧
      ∃ k ∈ (passes quiet true ["start"] { kernel := { kern := strayKern }, spec := openSpec }).2.kernel.past,
        escapes openSpec k ≠ [] :=
  ⟨⟨rfl, rfl, by decide, by decide, by decide, by decide, by decide⟩, by decide +kernel, by decide +kernel⟩

def walledKern : Kern := openKern [fallbackRoute .v4 1000] (by decide)

theorem walledKern_repairable : Repairable openSpec walledKern where
  exitIf := by decide
  names := by decide
  index := by decide
  held f := by
    have h : ∀ f, ∀ rt ∈ (modelOf openSpec walledKern).tableRoutes f 1000,
        disposition rt = some { kind := .stopped } := by
      intro f
      cases f <;> decide +kernel
    refine ⟨List.elem_iff.1 rfl, fun rt hrt o ho => .inl ?_⟩
    rw [h f rt hrt, Option.some_inj] at ho
    rw [← ho]
  gotos f := by cases f <;> decide +kernel
  plain f := by cases f <;> decide +kernel
  within f := by cases f <;> decide +kernel
  seen f := by cases f <;> decide +kernel

theorem repair_opens_nothing_walled :
    ((passes quiet true ["start", "again"] { kernel := { kern := walledKern }, spec := openSpec }).2.kernel.past.all
      fun k => (escapes openSpec k).isEmpty) = true := by
  rw [List.all_eq_true]
  intro k hk
  have hnone : escapes openSpec k = [] :=
    repair_opens_nothing openSpec ⟨rfl, rfl, by decide, by decide, by decide, by decide, by decide⟩ { kern := walledKern }
      rfl walledKern_repairable (by decide +kernel) true ["start", "again"] k hk
  rw [hnone, List.isEmpty_nil]

end Molebridge
