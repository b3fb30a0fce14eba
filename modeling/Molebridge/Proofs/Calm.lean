import Molebridge.Lib.Fallible
import Molebridge.Spec.Moves

/-! The parts of the control loop that only look, save and publish: between two worlds
they lie apart there is nothing but time and quiet events (`Later`), and each of their
steps is a move of the machine. -/

namespace Molebridge.Applier

variable {applying : Bool} {target : Selection}

/-- The process moved as the machine can. -/
def Moves (w w' : World) : Prop := Relation.ReflTransGen Move w.view w'.view

theorem chains_moves : Chains Moves := ⟨fun _ => .refl, .trans⟩

structure Later (w w' : World) : Prop where
  attempt : w'.m.attempt = w.m.attempt
  target : w'.m.target = w.m.target
  clock : w.clock ≤ w'.clock
  trace : ∃ quiet, w'.trace = quiet ++ w.trace ∧ ∀ e ∈ quiet, e.quiet = true

def Calm (w w' : World) : Prop := Moves w w' ∧ Later w w'

theorem chains_calm : Chains Calm where
  refl _ := ⟨.refl, rfl, rfl, le_rfl, [], rfl, by simp⟩
  trans := by
    rintro a b c ⟨hab, h₁⟩ ⟨hbc, h₂⟩
    obtain ⟨q₁, ht₁, hq₁⟩ := h₁.trace
    obtain ⟨q₂, ht₂, hq₂⟩ := h₂.trace
    refine ⟨hab.trans hbc, h₂.attempt.trans h₁.attempt, h₂.target.trans h₁.target, h₁.clock.trans h₂.clock,
      q₂ ++ q₁, by rw [ht₂, ht₁, List.append_assoc], fun e he => ?_⟩
    rcases List.mem_append.1 he with he | he
    · exact hq₂ e he
    · exact hq₁ e he

variable {α β : Type} {env : Env}

/-- The computation keeps the attempt, the target and the pass. -/
def Calmly (x : AppM α) : Prop := Leads Calm (fun _ => True) x fun _ _ => True

theorem calm_pure (a : α) : Calmly (pure a) := leads_pure chains_calm fun _ _ => trivial

theorem calm_throw (e : Stop) : Calmly (throw e : AppM α) := leads_throw chains_calm e

theorem calm_bind {x : AppM α} {f : α → AppM β} (hx : Calmly x) (hf : ∀ a, Calmly (f a)) : Calmly (x >>= f) :=
  leads_bind chains_calm hx hf

theorem calm_get : Calmly (get : AppM World) := (leads_get chains_calm).mono fun _ _ _ => trivial

theorem calm_modify {g : World → World} (h : ∀ w, Calm w (g w)) : Calmly (modify g) :=
  Leads.modify fun w _ => ⟨h w, trivial⟩

theorem calm_memory : Calmly memory := calm_bind calm_get fun _ => calm_pure _

theorem calm_now : Calmly now := calm_bind calm_get fun _ => calm_pure _

theorem calm_wait {w : World} {t : ℚ} (n : ℕ) (h : w.clock ≤ t) : Calm w { w with calls := n, clock := t } :=
  ⟨.single (.wait h), rfl, rfl, h, [], rfl, by simp⟩

theorem ask_run (answer : ℕ → α) (w : World) : (ask env answer).run w =
    (if env.dies w.calls then .error .died else .ok (answer w.calls),
      { w with calls := w.calls + 1, clock := w.clock + env.lag w.calls }) := by
  show (if env.dies w.calls = true then throw .died else pure (answer w.calls) : AppM α).run _ = _
  split_ifs <;> rfl

theorem calm_ask (answer : ℕ → α) : Calmly (ask env answer) := by
  intro w _
  rw [ask_run]
  exact ⟨calm_wait _ (by linarith [env.lag_nonneg w.calls]), fun _ _ => trivial⟩

theorem calm_setMemory {g : Memory → Memory}
    (h : ∀ m, (g m).attempt = m.attempt ∧ (g m).target = m.target ∧ (g m).measurement = m.measurement) :
    Calmly (setMemory g) := by
  refine calm_modify fun w => ⟨?_, (h w.m).1, (h w.m).2.1, le_rfl, [], rfl, by simp⟩
  have hview : ({ w with m := g w.m } : World).view = w.view := by
    obtain ⟨h₁, h₂, h₃⟩ := h w.m
    simp only [World.view, h₁, h₂, h₃]
  rw [Moves, hview]

theorem calm_setNextHealth : Calmly setNextHealth :=
  calm_bind calm_now fun _ => calm_setMemory fun _ => ⟨rfl, rfl, rfl⟩

theorem calm_recordSelection : Calmly (recordSelection env) := by
  refine calm_bind calm_memory fun m => ?_
  split_ifs
  · refine calm_bind (calm_ask _) fun error => ?_
    cases error with
    | none => exact calm_pure _
    | some message => exact calm_throw _
  · exact calm_pure _

theorem calm_saveAttempt : Calmly (saveAttempt env) := by
  refine calm_bind (calm_ask _) fun error => ?_
  cases error with
  | some message => exact calm_throw _
  | none =>
    exact calm_modify fun w => ⟨.single .save, rfl, rfl, le_rfl, [.saved w.m.attempt], rfl, by simp [Event.quiet]⟩

theorem calm_trace {e : Event} (hmove : ∀ w : World, Move w.view { w.view with trace := e :: w.trace })
    (hquiet : e.quiet = true) : Calmly (trace e) :=
  calm_modify fun w => ⟨.single (hmove w), rfl, rfl, le_rfl, [e], rfl, by simpa using hquiet⟩

theorem calm_publishRecord {status : RecordStatus} {message server : String} {checks fields : Members} :
    Calmly (publishRecord env status message server checks fields) := by
  refine calm_bind (calm_ask _) fun p => calm_bind calm_memory fun m => calm_bind (calm_ask _) fun error => ?_
  cases error with
  | some message => exact calm_throw _
  | none => exact calm_bind (calm_trace (fun w => .publish _) rfl) fun _ => calm_pure _

theorem calm_emit {f : Finding} : Calmly (emit env f applying) :=
  calm_bind calm_memory fun _ => calm_publishRecord

theorem calm_remember {f : Finding} : Calmly (remember f) :=
  calm_modify fun w => ⟨.single (.inspect f), rfl, rfl, le_rfl, [.inspected f], rfl, by simp [Event.quiet]⟩

theorem calm_inspection : Calmly (inspection env applying) :=
  calm_bind calm_now fun _ => calm_bind (calm_ask _) fun _ => calm_bind calm_memory fun _ =>
    calm_bind calm_remember fun _ => calm_pure _

theorem calm_inspect : Calmly (inspect env applying) :=
  calm_bind calm_inspection fun _ => calm_emit

theorem calm_releaseSignature {why : Why} : Calmly (releaseSignature env why) := by
  refine calm_bind calm_memory fun m => ?_
  cases why with
  | credentials =>
    split_ifs
    · exact calm_ask _
    · exact calm_pure _
  | catalogue => exact calm_bind (calm_ask _) fun _ => calm_pure _
  | invalid => exact calm_pure _

theorem calm_liftedBy {why : Option Why} : Calmly (liftedBy env why) := by
  cases why with
  | none => exact calm_pure _
  | some why => exact calm_releaseSignature

theorem calm_refused {request : Request} : Calmly (refused env request) := by
  refine calm_bind calm_memory fun m => ?_
  cases m.attempt.rejected with
  | none => exact calm_pure _
  | some rejected =>
    dsimp only
    split_ifs
    · exact calm_bind calm_releaseSignature fun _ => calm_pure _
    · exact calm_pure _

theorem calm_restoreTarget : Calmly (restoreTarget env) :=
  calm_bind (calm_ask _) fun _ => calm_bind calm_memory fun _ => calm_pure _

theorem calm_resolve : Calmly (resolve env) := by
  refine calm_bind calm_memory fun m => ?_
  split_ifs
  · exact calm_bind (calm_setMemory fun _ => ⟨rfl, rfl, rfl⟩) fun _ => calm_pure _
  · refine calm_bind (calm_ask _) fun x => calm_bind (calm_setMemory fun _ => ⟨rfl, rfl, rfl⟩) fun _ => ?_
    cases desiredRequest x.1 m.settings.provider with
    | none => exact calm_restoreTarget
    | some request =>
      refine calm_bind calm_refused fun refused => ?_
      split_ifs
      · exact calm_restoreTarget
      · exact calm_pure _

theorem calm_askedNow : Calmly (askedNow env target) :=
  calm_bind (calm_ask _) fun _ => calm_pure _

theorem calm_sleep : Calmly (sleep env) := by
  refine calm_bind (calm_ask _) fun canceled => ?_
  split_ifs
  · exact calm_modify fun w => calm_wait _ (by linarith)
  · exact calm_pure _

theorem calm_current : Calmly (current env) := by
  refine calm_bind (calm_ask _) fun keys => ?_
  cases keys with
  | none => exact calm_pure _
  | some keys => exact calm_bind (calm_ask _) fun _ => calm_pure _

theorem calm_gatePeers : Calmly (gatePeers env) := calm_bind (calm_ask _) fun _ => calm_pure _

theorem calm_gateSidecar {m : Memory} : Calmly (gateSidecar env m) := by
  unfold gateSidecar
  split_ifs
  · refine calm_bind (calm_ask _) fun routing => calm_bind (calm_ask _) fun firewall => ?_
    split_ifs
    · exact calm_pure _
    · exact calm_gatePeers
  · exact calm_gatePeers

theorem calm_gateRouting {m : Memory} : Calmly (gateRouting env m) := by
  unfold gateRouting
  split_ifs
  · refine calm_bind (calm_ask _) fun routing => ?_
    split_ifs
    · exact calm_pure _
    · refine calm_bind (calm_ask _) fun netbird => ?_
      split_ifs
      · exact calm_pure _
      · exact calm_gateSidecar
  · exact calm_gateSidecar

theorem calm_gate : Calmly (gate env target) := by
  refine calm_bind calm_memory fun m => calm_bind (calm_ask _) fun wall => ?_
  cases configurationError m wall with
  | some x => exact calm_pure _
  | none =>
    refine calm_bind (calm_ask _) fun wall => ?_
    split_ifs
    · exact calm_pure _
    · exact calm_pure _
    · exact calm_gateRouting

theorem calm_watchStall : Calmly (watchStall env) := by
  refine calm_bind calm_memory fun m => ?_
  split_ifs
  · refine calm_bind (calm_ask _) fun x => calm_bind calm_now fun t => ?_
    dsimp only
    split_ifs
    · exact calm_setMemory fun _ => ⟨rfl, rfl, rfl⟩
    · exact calm_setMemory fun _ => ⟨rfl, rfl, rfl⟩
    · exact calm_pure _
  · exact calm_pure _

end Molebridge.Applier
