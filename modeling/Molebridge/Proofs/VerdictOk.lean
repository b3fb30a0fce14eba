import Molebridge.Spec.Verdict

/-! What a verdict of ok says about the record: every required check was measured,
is fresh and passed, and the record's server is the one the reader asked for. -/

namespace Molebridge

variable {display' checks : Checks} {found' : Issues} {base : Verdict} {result : Json}

/-! ### Reading values -/

variable {s : String} {state : CheckState} {check raw record selection : Members} {exit : ExitConfig}
  {name : CheckName} {now : ℤ} {display : Checks}

namespace Json

variable {v : Json}

theorem eq_str_of_string (h : v.string = some s) : v = str s := by
  cases v <;> simp_all [string]

theorem eq_obj_of_object {m : Members} (h : v.object = some m) : v = obj m := by
  cases v <;> simp_all [object]

theorem eq_of_isStr (h : v.isStr s = true) : v = str s :=
  eq_str_of_string (by simpa [isStr] using h)

theorem ne_null_of_isNull (h : v.isNull = false) : v ≠ null := by
  rintro rfl
  simp [isNull] at h

theorem eq_int_of_isInt {n : ℤ} (h : v.isInt = some n) : v = int n := by
  cases v with
  | int m =>
    simp only [isInt] at h
    split_ifs at h
    rw [Option.some.inj h]
  | _ => simp [isInt] at h

end Json

theorem CheckState.text_of_ofText (h : CheckState.ofText s = some state) :
    state.text = s := by
  simpa using List.find?_some h

/-- A timestamp that is well formed, not in the future and at most 150 seconds old. -/
def Measured (value : Json) (now : ℤ) : Prop :=
  ∃ t, parseTime value = some t ∧ t * second ≤ now ∧ now ≤ (t + evidenceMaxAge) * second

theorem measured_iff (value : Json) (now : ℤ) : fresh value now = true ↔ Measured value now := by
  unfold fresh freshFor Measured
  cases parseTime value with
  | none => simp
  | some t =>
    simp only [Option.elim_some, Bool.and_eq_true, decide_eq_true_eq, Option.some.injEq, exists_eq_left', add_mul]
    constructor <;> rintro ⟨_, _⟩ <;> constructor <;> omega

/-! ### One required check -/

def FreshHandshake (check : Members) : Prop :=
  ∃ age, check.get "age_s" = .int age ∧ 0 ≤ age ∧ age < handshakeFreshSec

/-- What an egress check that passed carries: families expected, each passing, and a
tier, which is the tunnel's only where the provider has no stronger one. -/
def ConfirmedEgress (exit : ExitConfig) (check : Members) : Prop :=
  (∃ (families : Members) (expected : List String), check.get "families" = .obj families ∧
    check.get "expected_families" = .arr (expected.map Json.str) ∧ expected ≠ [] ∧
    ∀ f ∈ expected, families.get f = .str "pass") ∧
  (check.get "tier" = .str "provider" ∨ (check.get "tier" = .str "tunnel" ∧ exit.gluetunSidecar = false ∧
    ∃ p, lookupProvider exit.provider = some p ∧ p.egressTier = .tunnel))

structure Passed (exit : ExitConfig) (server : Json) (now : ℤ) (name : CheckName) (check : Members) : Prop where
  state : check.get "state" = .str "pass"
  measured : Measured (check.get "at") now
  bound : name ∈ serverBound → Json.same (check.get "server") server = true ∧ server ≠ .null
  lease : name = .ownerRecord → check.has "expires_at" = true →
    ∃ t, parseTime (check.get "expires_at") = some t ∧ now < t * second
  handshake : name = .handshake → FreshHandshake check
  egress : name = .egress → ConfirmedEgress exit check

theorem freshHandshake_of_shape (h : handshakeShape check .pass = true) : FreshHandshake check := by
  simp only [handshakeShape, bne_self_eq_false, Bool.false_or, Bool.and_eq_true] at h
  obtain ⟨hnonneg, hfresh⟩ := h
  cases hage : (check.get "age_s").isInt with
  | none => simp [hage] at hfresh
  | some age =>
    have heq := Json.eq_int_of_isInt hage
    simp only [hage, Option.elim_some, decide_eq_true_eq] at hfresh hnonneg
    simp only [heq, Json.isNull, Bool.false_or, decide_eq_true_eq] at hnonneg
    exact ⟨age, heq, hnonneg, hfresh⟩

theorem mapM_string {items : List Json} {texts : List String} (h : items.mapM Json.string = some texts) :
    items = texts.map Json.str := by
  induction items generalizing texts with
  | nil =>
    obtain rfl : texts = [] := by simpa using h.symm
    rfl
  | cons v rest ih =>
    simp only [List.mapM_cons, Option.bind_eq_bind, Option.bind_eq_some_iff, Option.pure_def, Option.some.injEq] at h
    obtain ⟨s, hs, _, hts, rfl⟩ := h
    rw [Json.eq_str_of_string hs, ih hts, List.map_cons]

theorem confirmedEgress_of_shape (h : egressShape exit check .pass = true) :
    ConfirmedEgress exit check := by
  unfold egressShape at h
  split at h
  · rename_i families expected hfam hexp
    simp only [bne_self_eq_false, Bool.false_or, Bool.and_eq_true, List.all_eq_true] at h
    obtain ⟨-, hpass, htier⟩ := h
    refine ⟨⟨families, expected, Json.eq_obj_of_object hfam, ?_⟩, ?_⟩
    · unfold expectedFamilies at hexp
      split at hexp
      · rename_i items hitems
        obtain ⟨hmap, hok⟩ := Option.filter_eq_some_iff.1 hexp
        simp only [Bool.and_eq_true, Bool.not_eq_true', List.isEmpty_eq_false_iff] at hok
        exact ⟨by rw [hitems, mapM_string hmap], hok.1.1, fun f hf => Json.eq_of_isStr (hpass f hf)⟩
      · cases hexp
    · unfold tierShape at htier
      cases htext : (check.get "tier").string with
      | none => simp [htext] at htier
      | some text =>
        simp only [htext, Option.bind_some] at htier
        cases hof : Tier.ofText text with
        | none => simp [hof] at htier
        | some tier =>
          have hname : tier.text = text := by simpa using List.find?_some hof
          rw [Json.eq_str_of_string htext, ← hname]
          cases tier with
          | provider => exact .inl rfl
          | tunnel =>
            simp only [hof, Bool.and_eq_true, Bool.not_eq_true'] at htier
            refine .inr ⟨rfl, htier.1, ?_⟩
            cases hp : lookupProvider exit.provider with
            | none => simp [hp] at htier
            | some p => exact ⟨p, rfl, by simpa [hp] using htier.2⟩
  · cases h

theorem readState_some
    (h : readState exit raw name = some (check, state)) :
    raw.get name.text = .obj check ∧ check.get "state" = .str state.text ∧
      (state = .pass ∨ state = .fail ∨ state = .unknown) ∧
      (state ≠ .unknown → validShape exit name check state = true) := by
  unfold readState at h
  simp only [Option.bind_eq_bind, Option.bind_eq_some_iff] at h
  obtain ⟨c, hcheck, _, htext, read, hread, h⟩ := h
  split_ifs at h with hbad
  obtain ⟨rfl, rfl⟩ : c = _ ∧ read = _ := by simpa using h
  push Not at hbad
  refine ⟨Json.eq_obj_of_object hcheck, ?_, ?_, fun hne => by simpa using hbad.2.2 hne⟩
  · rw [Json.eq_str_of_string htext, CheckState.text_of_ofText hread]
  · cases read with
    | pass => exact .inl rfl
    | fail => exact .inr (.inl rfl)
    | unknown => exact .inr (.inr rfl)
    | na => exact absurd rfl hbad.1
    | notChecked => exact absurd rfl hbad.2.1
    | legacy => simp [CheckState.ofText] at hread

theorem passed_of_readCheck {server : Json} (h : readCheck exit server raw now name = some (state, none)) :
    state = .pass ∧ ∃ check : Members, raw.get name.text = .obj check ∧ Passed exit server now name check := by
  obtain ⟨⟨check, read⟩, hread, hjudge⟩ := Option.map_eq_some_iff.1 h
  obtain ⟨hcheck, htext, hstate, hshape⟩ := readState_some hread
  unfold judgeCheck at hjudge
  split_ifs at hjudge with hunknown hfresh hbound hfail
  · cases hjudge
  · cases hjudge
  · cases hjudge
  · cases hjudge
  · obtain rfl : CheckState.pass = state := (Prod.mk.inj hjudge).1
    push Not at hfail
    obtain rfl : read = .pass := by
      rcases hstate with rfl | rfl | rfl
      · rfl
      · exact absurd rfl hfail.1
      · exact absurd rfl hunknown
    replace hshape := hshape (by simp)
    refine ⟨rfl, check, hcheck, htext, (measured_iff _ _).1 (by simpa using hfresh), fun hb => ?_,
      fun howner hhas => ?_, ?_, ?_⟩
    · rw [show serverBound.contains name = true from List.contains_iff_mem.2 hb] at hbound
      simp only [Bool.true_and, beq_self_eq_true, Bool.and_true, Bool.or_eq_true, Bool.not_eq_true', not_or,
        Bool.not_eq_false, Bool.not_eq_true] at hbound
      exact ⟨hbound.1, Json.ne_null_of_isNull hbound.2⟩
    · have hlease : leaseLapsed check now = false := by simpa using hfail.2 howner
      simp only [leaseLapsed, hhas] at hlease
      cases hp : parseTime (check.get "expires_at") with
      | none => simp [hp] at hlease
      | some t => exact ⟨t, rfl, by simpa [hp] using hlease⟩
    · rintro rfl
      exact freshHandshake_of_shape hshape
    · rintro rfl
      exact confirmedEgress_of_shape hshape

/-! ### The loop over the required checks -/

theorem Checks.lookup_set (c : Checks) (name other : CheckName) (state : CheckState) :
    List.lookup other (c.set name state) = if other = name then some state else List.lookup other c := by
  unfold Checks.set
  split_ifs with hany hother hother
  · subst hother
    induction c with
    | nil => cases hany
    | cons x rest ih =>
      obtain ⟨n, s⟩ := x
      by_cases hn : n = other
      · simp [hn]
      · have hne : (other == n) = false := by simpa using Ne.symm hn
        rw [List.map_cons, if_neg hn, List.lookup_cons, hne]
        exact ih (by simpa [hn] using hany)
  · clear hany
    induction c with
    | nil => rfl
    | cons x rest ih =>
      obtain ⟨n, s⟩ := x
      by_cases hn : n = name
      · have hne : (other == name) = false := by simpa using hother
        subst hn
        simp [List.lookup_cons, hne, ih]
      · simp [List.lookup_cons, hn, ih]
  · subst hother
    have hnone : List.lookup other c = none := by
      simp only [List.any_eq_true, beq_iff_eq, not_exists, not_and] at hany
      exact List.lookup_eq_none_iff.2 fun x hx => bne_iff_ne.2 (Ne.symm (hany x hx))
    simp [List.lookup_append, hnone]
  · have hne : (other == name) = false := by simpa using hother
    simp [List.lookup_append, List.lookup_cons, hne]

def Issues.of (i : Issues) : CheckProblem → List CheckName
  | .failed => i.failed
  | .expired => i.expired
  | .unmeasured => i.unmeasured

theorem Issues.mem_add {i : Issues} {other : CheckName} {problem : Option CheckProblem} {p : CheckProblem} :
    other ∈ (i.add name problem).of p ↔ other ∈ i.of p ∨ (other = name ∧ problem = some p) := by
  rcases problem with - | (- | - | -) <;> cases p <;> simp [Issues.add, Issues.of]

def Issues.Clear (i : Issues) : Prop := ∀ p, i.of p = []

variable {found : Issues}

section Required

variable {exit : ExitConfig} {server : Json} {raw : Members} {now : ℤ}

variable {names : List CheckName}

theorem readRequired_ok (display : Checks) (found : Issues)
    (h : ∀ name ∈ names, (readCheck exit server raw now name).isSome = true) :
    ∃ x, readRequired exit server raw now names display found = .ok x := by
  induction names generalizing display found with
  | nil => exact ⟨_, rfl⟩
  | cons name rest ih =>
    obtain ⟨hname, hrest⟩ := List.forall_mem_cons.1 h
    obtain ⟨⟨state, problem⟩, hread⟩ := Option.isSome_iff_exists.1 hname
    obtain ⟨x, hx⟩ := ih (display.set name state) (found.add name problem) hrest
    exact ⟨x, by rw [readRequired, hread]; exact hx⟩

/-- What the loop has read: every check could be read, the problems are theirs, and
so are the display states. -/
structure ReadAs (exit : ExitConfig) (server : Json) (raw : Members) (now : ℤ) (names : List CheckName)
    (display display' : Checks) (found found' : Issues) : Prop where
  read : ∀ name ∈ names, (readCheck exit server raw now name).isSome = true
  issues : ∀ p name, name ∈ found'.of p ↔
    name ∈ found.of p ∨ name ∈ names ∧ ∃ state, readCheck exit server raw now name = some (state, some p)
  shown : ∀ name, List.lookup name display' =
    if name ∈ names then (readCheck exit server raw now name).map Prod.fst else List.lookup name display

theorem readAs_of_readRequired
    (h : readRequired exit server raw now names display found = .ok (display', found')) :
    ReadAs exit server raw now names display display' found found' := by
  induction names generalizing display found with
  | nil =>
    obtain ⟨rfl, rfl⟩ : _ = _ ∧ _ = _ := by simpa [readRequired] using h
    exact ⟨by simp, by simp, by simp⟩
  | cons name rest ih =>
    unfold readRequired at h
    cases hread : readCheck exit server raw now name with
    | none => simp [hread] at h
    | some x =>
      obtain ⟨_, _⟩ := x
      simp only [hread] at h
      obtain ⟨hrest, hissues, hshown⟩ := ih h
      refine ⟨List.forall_mem_cons.2 ⟨by simp [hread], hrest⟩, fun p other => ?_, fun other => ?_⟩
      · rw [hissues p other, Issues.mem_add]
        by_cases hother : other = name
        · subst hother
          simp [hread]
          tauto
        · simp [hother]
      · rw [hshown other, Checks.lookup_set]
        by_cases hother : other = name
        · subst hother
          simp [hread]
        · simp [hother]

theorem ReadAs.passes
    (h : ReadAs exit server raw now names display display' found found') (hclear : found'.Clear) :
    ∀ name ∈ names, readCheck exit server raw now name = some (.pass, none) := by
  intro name hname
  obtain ⟨⟨state, problem⟩, hread⟩ := Option.isSome_iff_exists.1 (h.read name hname)
  cases problem with
  | none => rw [hread, (passed_of_readCheck hread).1]
  | some p =>
    have hmem := (h.issues p name).2 (.inr ⟨hname, state, hread⟩)
    rw [hclear p] at hmem
    cases hmem

end Required

/-! ### The record -/

/-- The addresses of a record are those of the families that pass. -/
def CoversPassing (record check : Members) : Prop :=
  ∃ ips families : Members, record.get "egress_ips" = .obj ips ∧ check.get "families" = .obj families ∧
    ∀ f, f ∈ ips.keys ↔ f ∈ families.keys ∧ families.get f = .str "pass"

theorem has_iff_mem_keys (o : Members) (key : String) : o.has key = true ↔ key ∈ o.keys := by
  unfold Members.has Members.keys
  rw [List.mem_dedup, Option.isSome_iff_ne_none, Ne, List.lookup_eq_none_iff]
  simp only [not_forall, bne_iff_ne, not_not, List.mem_map]
  constructor
  · rintro ⟨x, hx, rfl⟩
    exact ⟨x, hx, rfl⟩
  · rintro ⟨x, hx, rfl⟩
    exact ⟨x, hx, rfl⟩

theorem coversPassing_of_consistent (hraw : record.get "checks" = .obj raw)
    (hcheck : raw.get "egress" = .obj check) {families : Members} (hfam : check.get "families" = .obj families)
    (h : egressIPsConsistent record = true) : CoversPassing record check := by
  unfold egressIPsConsistent at h
  split at h
  · rename_i check' ips hc hi
    rw [hraw, Json.object_obj, Option.getD_some, hcheck, Json.object_obj] at hc
    cases hc
    rw [hfam, Json.object_obj, Option.getD_some] at h
    simp only [Bool.and_eq_true, List.all_eq_true, beq_iff_eq] at h
    obtain ⟨hall, hlen⟩ := h
    have hsub : (families.keys.filter fun f => (families.get f).isStr "pass") ⊆ ips.keys :=
      fun f hf => (has_iff_mem_keys ips f).1 (hall f hf)
    have hnodup : (families.keys.filter fun f => (families.get f).isStr "pass").Nodup :=
      (List.nodup_dedup _).filter _
    -- as many distinct keys as passing families, so no others
    have hperm := (List.subperm_of_subset hnodup hsub).perm_of_length_le hlen.le
    refine ⟨ips, families, Json.eq_obj_of_object hi, hfam, fun f => ?_⟩
    rw [← hperm.mem_iff, List.mem_filter]
    refine and_congr_right fun _ => ⟨Json.eq_of_isStr, fun hpass => ?_⟩
    simp [hpass]
  · cases h

structure Proven (exit : ExitConfig) (record : Members) (now : ℤ) : Prop where
  kind : record.get "kind" = .str exit.kind.text
  provider : record.get "provider" = .str exit.provider
  backend : record.get "backend" = .str exit.backend.text
  checkedAt : Measured (record.get "checked_at") now
  checks : ∃ raw : Members, record.get "checks" = .obj raw ∧
    (∀ name ∈ exit.required, ∃ check : Members, raw.get name.text = .obj check ∧
      Passed exit (record.get "server") now name check ∧
      (name = .egress → CoversPassing record check) ∧
      (name = .trafficProtection → check.get "from" = .str "routing"))

theorem egress_mem_required (exit : ExitConfig) : CheckName.egress ∈ exit.required := by
  unfold ExitConfig.required
  cases exit.kind <;> cases exit.backend <;> decide

/-- A passed traffic protection that is not from routing, or beside a failed routing. -/
def badProtection (exit : ExitConfig) (raw : Members) (display : Checks) : Prop :=
  CheckName.trafficProtection ∈ exit.required ∧ List.lookup .trafficProtection display = some .pass ∧
    ((((raw.get "traffic_protection").object.getD []).get "from").isStr "routing" = false ∨
      List.lookup .routing display = some .fail)

theorem readChecks_eq_ok_iff :
    readChecks exit record now = .ok (display, found) ↔ ∃ raw : Members, record.get "checks" = .obj raw ∧
      readRequired exit (record.get "server") raw now exit.required (fixedChecks exit.kind exit.backend) {} =
        .ok (display, found) ∧ ¬ badProtection exit raw display ∧
      (List.lookup .egress display = some .pass → egressIPsConsistent record = true) := by
  unfold readChecks
  cases hraw : (record.get "checks").object with
  | none =>
    constructor
    · simp
    · rintro ⟨raw, hobj, -⟩
      simp [hobj] at hraw
  | some raw =>
    rw [Json.eq_obj_of_object hraw]
    simp only [Json.obj.injEq, exists_eq_left']
    cases readRequired exit (record.get "server") raw now exit.required (fixedChecks exit.kind exit.backend) {} with
    | error e => simp [bind, Except.bind]
    | ok x =>
      simp only [bind, Except.bind, pure, Except.pure, badProtection]
      split_ifs with hprot hips <;>
        grind

theorem proven_of_readChecks
    (h : readChecks exit record now = .ok (checks, found)) (hclear : found.Clear) :
    ∃ raw : Members, record.get "checks" = .obj raw ∧
      (∀ name ∈ exit.required, ∃ check : Members, raw.get name.text = .obj check ∧
        Passed exit (record.get "server") now name check ∧
        (name = .egress → CoversPassing record check) ∧
        (name = .trafficProtection → check.get "from" = .str "routing")) := by
  obtain ⟨raw, hobj, hreq, hprot, hips⟩ := readChecks_eq_ok_iff.1 h
  have hread := readAs_of_readRequired hreq
  have hpass := hread.passes hclear
  have hlookup : ∀ name ∈ exit.required, List.lookup name checks = some .pass := fun name hname => by
    rw [hread.shown, if_pos hname, hpass name hname, Option.map_some]
  refine ⟨raw, hobj, fun name hname => ?_⟩
  obtain ⟨-, check, hcheck, hpassed⟩ := passed_of_readCheck (hpass name hname)
  refine ⟨check, hcheck, hpassed, ?_, ?_⟩
  · rintro rfl
    obtain ⟨⟨_, -, hfam, -⟩, -⟩ := hpassed.egress rfl
    exact coversPassing_of_consistent hobj hcheck hfam (hips (hlookup _ hname))
  · rintro rfl
    have hraw : raw.get "traffic_protection" = .obj check := hcheck
    refine Json.eq_of_isStr (Bool.not_eq_false _ ▸ fun hfrom => hprot ⟨hname, hlookup _ hname, .inl ?_⟩)
    simpa [hraw] using hfrom

/-! ### The decision list -/

section Assess

variable {u : Unicode} {exit : ExitConfig} {record : Members} {target : Target} {now : ℤ}

theorem judgeChecks_ok
    (h : (judgeChecks exit record target selection base checks found).state = .ok) :
    found.Clear ∧ targetDisagreement record target selection base.configuredServer = none := by
  unfold judgeChecks at h
  dsimp only at h
  split_ifs at h with hsidecar hfailed hexpired hstatus hunmeasured hok
  all_goals
    simp only [Bool.or_eq_true, Bool.not_eq_true', not_or, Bool.not_eq_false, List.isEmpty_iff]
      at hfailed hexpired hunmeasured
    cases htarget : targetDisagreement record target selection base.configuredServer with
    | none => exact ⟨fun p => by cases p <;> simp [Issues.of, *], rfl⟩
    | some reason => simp [htarget] at h

theorem unacknowledged_ne_ok {state : VerdictState} {label reason : String}
    (h : unacknowledged record target now = some (state, label, reason)) : state ≠ .ok := by
  unfold unacknowledged at h
  split at h
  · split_ifs at h
    all_goals
      cases h
      simp
  · cases h

theorem assessRecord_ok
    (h : (assessRecord exit record target now selection base).state = .ok) :
    Proven exit record now ∧ unacknowledged record target now = none ∧
      targetDisagreement record target selection base.configuredServer = none := by
  unfold assessRecord at h
  cases hack : unacknowledged record target now with
  | some x =>
    simp only [hack] at h
    split_ifs at h
    exact absurd h (unacknowledged_ne_ok hack)
  | none =>
    cases hread : readChecks exit record now with
    | error checks =>
      simp only [hack, hread] at h
      split_ifs at h
    | ok x =>
      simp only [hack, hread] at h
      split_ifs at h with hkind hprovider hfresh
      simp only [Bool.or_eq_true, Bool.not_eq_true', not_or, Bool.not_eq_false] at hkind hprovider hfresh
      obtain ⟨hclear, htarget⟩ := judgeChecks_ok h
      exact ⟨⟨Json.eq_of_isStr hkind, Json.eq_of_isStr hprovider.1, Json.eq_of_isStr hprovider.2,
        (measured_iff _ _).1 hfresh, proven_of_readChecks hread hclear⟩, rfl, htarget⟩

theorem announce_configuredServer (v : Verdict) (selection : Members) :
    (v.announce selection).configuredServer = v.configuredServer := by
  unfold Verdict.announce
  split
  · split_ifs <;> rfl
  · rfl

theorem assessAt_ok (hschema : (record.get "schema").isInt = some 2)
    (h : (assessAt u exit (.obj record) target now).state = .ok) :
    Proven exit record now ∧ unacknowledged record target now = none ∧
      targetDisagreement record target ((record.get "selection").object.getD [])
        ((configuredServer u (.obj record)).getD "") = none := by
  have hhas : record.has "schema" = true := by
    cases hl : List.lookup "schema" record with
    | none => simp [Members.get, hl, Json.isInt] at hschema
    | some v => simp [Members.has, hl]
  unfold assessAt at h
  simp only [Json.object_obj, hhas, hschema] at h
  have hok := assessRecord_ok h
  rwa [announce_configuredServer] at hok

end Assess

/-! ### The target -/

theorem escapeChar_ne_nil (u : Unicode) (c : Char) : escapeChar u c ≠ [] := by
  unfold escapeChar
  split_ifs <;> simp

theorem configuredServer_ne_empty {u : Unicode} {server : String}
    (h : configuredServer u result = some server) : server ≠ "" := by
  unfold configuredServer at h
  simp only [Option.bind_eq_bind, Option.bind_eq_some_iff] at h
  obtain ⟨m, -, value, -, h⟩ := h
  split_ifs at h with hne
  cases h
  cases hl : value.toList with
  | nil => exact absurd (String.toList_eq_nil_iff.1 hl) hne
  | cons c rest =>
    intro hnil
    have hlist := congrArg String.toList hnil
    simp [escapeChar_ne_nil] at hlist

/-- What the record owes the reader's target: the configured server, or else an
acknowledged request. -/
structure Meets (u : Unicode) (record : Members) (result desired : Json) (provider : String) : Prop where
  configured : ∀ server, configuredServer u result = some server → record.get "server" = .str server
  locked : configuredServer u result = none → ∀ server, configuredServer u (.obj record) = some server →
    record.get "server" = .str server
  acknowledged : configuredServer u result = none → ∀ request, desiredRequest desired provider = some request →
    record.get "request_id" = .str request.token
  requested : configuredServer u result = none → configuredServer u (.obj record) = none →
    ∀ request, desiredRequest desired provider = some request →
      record.get "server" = .str request.server ∧ record.get "requested_server" = .str request.server

theorem meets_target {u : Unicode} {desired : Json} {provider : String} (hack : unacknowledged record (targetForPanel u result desired provider) now = none)
    (h : targetDisagreement record (targetForPanel u result desired provider) selection
      ((configuredServer u (.obj record)).getD "") = none) : Meets u record result desired provider := by
  cases hconf : configuredServer u result with
  | some server =>
    simp only [targetForPanel, hconf, targetDisagreement, true_or, if_true, ite_eq_left_iff, reduceCtorEq,
      imp_false, not_not] at h
    exact ⟨fun x hx => Option.some.inj (hconf.symm.trans hx) ▸ Json.eq_of_isStr h, by simp [hconf], by simp [hconf],
      by simp [hconf]⟩
  | none =>
    refine ⟨by simp [hconf], fun _ server hlock => ?_, fun _ request hreq => ?_, fun _ hlock request hreq => ?_⟩
    · have hne := configuredServer_ne_empty hlock
      have hsource : (targetForPanel u result desired provider).source ≠ some .configured := by
        unfold targetForPanel
        rw [hconf]
        cases desiredRequest desired provider <;> simp
      simp only [hlock, Option.getD_some, targetDisagreement, hsource, false_or, hne, ne_eq, not_false_eq_true,
        if_true, ite_eq_left_iff, reduceCtorEq, imp_false, not_not] at h
      exact Json.eq_of_isStr h
    · simp only [targetForPanel, hconf, hreq, unacknowledged, ite_eq_left_iff] at hack
      by_cases hid : (record.get "request_id").isStr request.token = true
      · exact Json.eq_of_isStr hid
      · have := hack hid
        split_ifs at this
    · simp only [targetForPanel, hconf, hreq, hlock, Option.getD_none, targetDisagreement, Option.some.injEq, reduceCtorEq,
        ne_eq, not_true_eq_false, or_self, if_false, if_true, ite_eq_left_iff, imp_false, not_not, Bool.and_eq_true] at h
      exact ⟨Json.eq_of_isStr h.1, Json.eq_of_isStr h.2⟩

/-- A verdict of ok means that everything was measured, fresh and for the right
server. -/
theorem ok_means_measured (u : Unicode) (exit : ExitConfig) (record : Members) (result desired : Json)
    (provider : String) (clock now : ℤ) (hschema : (record.get "schema").isInt = some 2)
    (h : (assess u exit (.obj record) (targetForPanel u result desired provider) clock now).state = .ok) :
    Proven exit record (orPresent clock now) ∧ Meets u record result desired provider := by
  obtain ⟨hproven, hack, htarget⟩ := assessAt_ok hschema h
  exact ⟨hproven, meets_target hack htarget⟩

/-! ### A record -/

def asciiPrint : Unicode := ⟨fun c => decide (32 ≤ c.toNat ∧ c.toNat < 127), fun _ _ => rfl⟩

/-- A check that passed at 22:13:20, with what else it carries. -/
def passedAt (name : CheckName) (more : Members) : String × Json :=
  (name.text, .obj ([("state", .str "pass"), ("at", .str "2023-11-14T22:13:20Z")] ++ more))

/-- A record of an overlay in which everything passed for one server. -/
def okRecord (provider server : String) (owner : Members) : Members :=
  let bound := ("server", Json.str server)
  [("schema", .int 2), ("kind", .str "overlay"), ("backend", .str (backendOf provider).text),
   ("provider", .str provider), ("status", .str "ok"), ("checked_at", .str "2023-11-14T22:13:20Z"),
   ("server", .str server), ("egress_ips", .obj [("4", .str "192.0.2.1")]),
   ("checks", .obj [passedAt .routing [], passedAt .netbird [], passedAt .ownerRecord owner, passedAt .peer [bound],
     passedAt .handshake [bound, ("age_s", .int 25)],
     passedAt .egress [bound, ("tier", .str "provider"), ("families", .obj [("4", .str "pass")]),
       ("expected_families", .arr [.str "4"])],
     passedAt .trafficProtection [("from", .str "routing")]])]

/-- Ten seconds later, by a reader that gives no time of its own, with a lease that runs on. -/
theorem ok_means_measured_native :
    Proven ⟨"mullvad", .overlay⟩ (okRecord "mullvad" "se-sto-wg-001" [("expires_at", .str "2023-11-14T22:13:50Z")])
      (orPresent (1700000010 * second) zeroTime) :=
  (ok_means_measured asciiPrint ⟨"mullvad", .overlay⟩
    (okRecord "mullvad" "se-sto-wg-001" [("expires_at", .str "2023-11-14T22:13:50Z")]) .null .null "mullvad"
    (1700000010 * second) zeroTime (by decide +kernel) (by decide +kernel)).1

/-- A check that the exit's kind does not require is not read: beside a gluetun
overlay an owner's check may have run out. -/
theorem ok_with_lapsed_owner :
    let exit : ExitConfig := ⟨"gluetun-mullvad", .overlay⟩
    let record := okRecord exit.provider "se-sto-wg-001" [("expires_at", .str "2023-11-14T22:13:00Z")]
    let now := 1700000010 * second
    (record.get "schema").isInt = some 2 ∧
      (assess asciiPrint exit (.obj record) (targetForPanel asciiPrint (.obj record) .null exit.provider) now now).state = .ok ∧
      ∃ raw check : Members, ∃ t, (record.get "checks").object = some raw ∧
        (raw.get CheckName.ownerRecord.text).object = some check ∧
        parseTime (check.get "expires_at") = some t ∧ t * second < now := by
  refine ⟨by decide +kernel, by decide +kernel, _, _, 1699999980, rfl, rfl, by decide +kernel, by decide +kernel⟩

end Molebridge
