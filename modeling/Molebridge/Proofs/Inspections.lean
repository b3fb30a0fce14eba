import Molebridge.Proofs.PassMoves

/-! An automatic mutation is inspected first, whatever the histories before it. -/

namespace Molebridge.Applier

variable {v v' : View}

/-- Every ApplyRelay call was for a request made just now, or inspected first. -/
def Inspected (v : View) : Prop :=
  ∀ later a before, v.trace = later ++ .applied a :: before → AskedNow before ∨ InspectedFirst a.server before

theorem Inspected.cons {e : Event} (h : Inspected v) (htrace : v'.trace = e :: v.trace)
    (happlied : ∀ a, e = .applied a → AskedNow v.trace ∨ InspectedFirst a.server v.trace) : Inspected v' := by
  intro later a before hsplit
  rw [htrace] at hsplit
  cases later with
  | nil =>
    cases hsplit
    exact happlied a rfl
  | cons e' later => exact h later a before (List.cons.inj hsplit).2

theorem Inspected.move (hmove : Move v v') (h : Inspected v) : Inspected v' := by
  cases hmove with
  | wait | touch | settle | unverify | fail | hold | stuck | reject | renew | mutate => exact h
  | apply call _ _ _ _ _ _ _ _ inspected =>
    refine h.cons rfl fun a ha => ?_
    obtain rfl : call = a := Event.applied.inj ha
    exact inspected
  | pass | inspect | publish | save | look | trigger | gate | reuse => exact h.cons rfl fun a ha => nomatch ha

theorem Inspected.turn (hturn : Turn v v') (h : Inspected v) : Inspected v' := by
  cases hturn with
  | move moved => exact h.move moved
  | boot => exact h.cons rfl fun a ha => nomatch ha

/-- Over any history, crashes and restarts included: a pass that is not for a request
made just now calls ApplyRelay only after an inspection that did not find the server live
and ok, nor live at all unless the pass is a lapse repair. The inspection is of the same
pass, after its gate; only a repair's may be a silent check from before. -/
theorem applied_inspected_first (env : Env) (b : Boot) (steps : List Step) (later before : List Event)
    (a : Application) (called : (history env b steps).trace = later ++ .applied a :: before) (automatic : ¬ AskedNow before) :
    InspectedFirst a.server before := by
  have hstart : Inspected (history env b []).view := by
    intro later a before hsplit
    have hmem : .applied a ∈ (history env b []).view.trace := hsplit ▸ List.mem_append_right _ (.head _)
    exact nomatch (List.mem_singleton.1 hmem : Event.applied a = .booted)
  have hinspected : Inspected (history env b steps).view := history_keeps Inspected.turn hstart
  exact (hinspected later a before called).resolve_left automatic

/-! ### A silent tunnel -/

def Event.call : Event → Option Application
  | .applied a => some a
  | _ => none

theorem split_at_call {events : List Event} {a : Application} (k : ℕ) (h : events[k]?.bind Event.call = some a) :
    events = events.take k ++ .applied a :: events.drop (k + 1) := by
  obtain ⟨e, he, hcall⟩ := Option.bind_eq_some_iff.1 h
  obtain ⟨hk, rfl⟩ := List.getElem?_eq_some_iff.1 he
  have hevent : events[k] = .applied a := by
    cases hevent : events[k] <;> rw [hevent] at hcall <;> simp_all [Event.call]
  rw [← hevent, ← List.drop_eq_getElem_cons hk, List.take_append_drop]

def Event.isGate : Event → Bool
  | .gatePassed => true
  | _ => false

theorem not_inspectedAfterGate {server : String} {trace : List Event}
    (h : ((currentPass trace).tails.all fun
      | .inspected _ :: earlier => !earlier.any Event.isGate
      | _ => true) = true) : ¬ InspectedAfterGate server trace := by
  rintro ⟨f, later, earlier, hsplit, hgate, -⟩
  have hmem : .inspected f :: earlier ∈ (currentPass trace).tails :=
    (List.mem_tails _ _).2 (hsplit ▸ List.suffix_append later _)
  have hnone := List.all_eq_true.1 h _ hmem
  rw [Bool.not_eq_true', List.any_eq_false] at hnone
  exact hnone _ hgate rfl

/-- A PIA tunnel falls silent a minute after its switch; publishing took ten seconds of
that minute, and the stalled counters pull the check forward. -/
def silentTunnel : Env :=
  { answering "de" with
    lag := fun n => if n = 13 then 10 else if n = 24 then 50 else 0
    lag_nonneg := fun n => by split_ifs <;> norm_num
    transfer := fun n => ("key", if n < 24 then ⟨0, 0⟩ else ⟨0, 4096⟩, true)
    reading := fun n =>
      if n < 10 then confirmedReading "" else if n < 24 then confirmedReading "de" else silentReading "de"
    apply := fun n => if n < 24 then .done else .canceled }

def silentHistory : World := history silentTunnel (configuredExit "pia" "de" pia_known) [.tick, .tick, .tick]

def repairCall : Application := ⟨"configured:de", "de", 60, 60, .canceled⟩

/-- Its repair is inspected first. -/
theorem applied_inspected_first_silent : InspectedFirst repairCall.server (silentHistory.trace.drop 1) :=
  applied_inspected_first silentTunnel (configuredExit "pia" "de" pia_known) [.tick, .tick, .tick]
    (silentHistory.trace.take 0) (silentHistory.trace.drop 1) repairCall (split_at_call 0 (by decide +kernel))
    (by unfold AskedNow; decide +kernel)

/-- But by the silent check, before its gate: since the gate nothing was inspected, and it
is the second call for the target. -/
theorem repair_not_inspected_after_gate :
    silentHistory.trace = [] ++ .applied repairCall :: silentHistory.trace.drop 1 ∧
      ((silentHistory.trace.drop 1).filterMap Event.call).map (·.key) = [repairCall.key] ∧
      ¬ InspectedAfterGate repairCall.server (silentHistory.trace.drop 1) :=
  ⟨split_at_call 0 (by decide +kernel), by decide +kernel, not_inspectedAfterGate (by decide +kernel)⟩

end Molebridge.Applier
