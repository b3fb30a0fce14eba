import Molebridge.Spec.Record
import Molebridge.Proofs.Timestamps
import Molebridge.Proofs.VerdictOk

/-! The failure record is judged failed: nothing it keeps of the record before it
makes a reader say anything else. -/

namespace Molebridge

variable {exit : ExitConfig} {record raw' : Members} {other : String}

/-! ### Members that were set -/

variable {key : String} {now : ℤ} {name : CheckName}

namespace Members

theorem lookup_filter_ne (o : Members) (h : other ≠ key) :
    List.lookup other (o.filter (·.1 != key)) = List.lookup other o := by
  induction o with
  | nil => rfl
  | cons e rest ih =>
    obtain ⟨k, v⟩ := e
    by_cases hk : k = key
    · have hne : (other == k) = false := by simpa [hk] using h
      rw [List.filter_cons_of_neg (by simp [hk]), ih, List.lookup_cons, hne]
    · rw [List.filter_cons_of_pos (by simpa using hk), List.lookup_cons, List.lookup_cons, ih]

theorem lookup_set (o : Members) (key other : String) (value : Json) :
    List.lookup other (o.set key value) = if other = key then some value else List.lookup other o := by
  unfold set
  split_ifs with h
  · simp [h]
  · have hne : (other == key) = false := by simpa using h
    rw [List.lookup_cons, hne]
    exact lookup_filter_ne o h

theorem get_set_of_ne (o : Members) (h : other ≠ key) (value : Json) :
    (o.set key value).get other = o.get other := by
  rw [get, lookup_set, if_neg h, get]

theorem has_of_get_ne_null {o : Members} (h : o.get key ≠ .null) : o.has key = true := by
  cases hl : List.lookup key o with
  | none => simp [get, hl] at h
  | some v => simp [has, hl]

theorem get_fill_of_has {o blank : Members} (h : o.has key = true) : (o.fill blank).get key = o.get key := by
  obtain ⟨v, hv⟩ := Option.isSome_iff_exists.1 h
  simp [fill, get, List.lookup_append, hv]

end Members

/-! ### Reading one check at two times -/

section Check

variable {exit : ExitConfig} {server : Json} {raw : Members} {now : ℤ} {name : CheckName}

theorem readState_congr (h : raw'.get name.text = raw.get name.text) :
    readState exit raw' name = readState exit raw name := by
  unfold readState
  rw [h]

theorem readState_unknown (h : raw.get name.text = .obj [("state", .str "unknown")]) :
    readState exit raw name = some ([("state", .str "unknown")], .unknown) := by
  unfold readState
  rw [h]
  rfl

theorem readCheck_pass_earlier {earlier : ℤ} (hle : earlier ≤ now)
    (hpast : ∀ check : Members, raw.get name.text = .obj check → ∀ t, parseTime (check.get "at") = some t →
      t * second ≤ earlier)
    (hname : name ≠ .ownerRecord) (h : readCheck exit server raw now name = some (.pass, none)) :
    readCheck exit server raw earlier name = some (.pass, none) := by
  obtain ⟨-, check, hcheck, hpassed⟩ := passed_of_readCheck h
  obtain ⟨t, ht, -, hold⟩ := hpassed.measured
  have hfresh : fresh (check.get "at") earlier = true :=
    (measured_iff _ _).2 ⟨t, ht, hpast check hcheck t ht, hle.trans hold⟩
  have hfresh' : fresh (check.get "at") now = true := (measured_iff _ _).2 hpassed.measured
  obtain ⟨⟨c, _⟩, hread, hjudge⟩ := Option.map_eq_some_iff.1 h
  obtain rfl : c = check := by
    have hobj := (readState_some hread).1
    rw [hcheck] at hobj
    exact (Json.obj.inj hobj).symm
  rw [readCheck, hread, Option.map_some, ← hjudge]
  simp [judgeCheck, hfresh, hfresh', hname]

theorem fresh_formatTime {time : ℤ} (hdated : Dated time) (hlo : time ≤ now) (hhi : now ≤ time + 149 * second) :
    fresh (.str (formatTime time)) now = true := by
  refine (measured_iff _ _).2 ⟨time / second, parseTime_formatTime hdated, ?_, ?_⟩ <;>
    simp only [second, evidenceMaxAge] at * <;> omega

/-- Within 149 seconds, a written time is fresh unless its year takes more than four
digits. -/
theorem fresh_formatTime_iff {time : ℤ} (hlo : time ≤ now) (hhi : now ≤ time + 149 * second) :
    fresh (.str (formatTime time)) now = true ↔ Dated time := by
  refine ⟨fun h => ?_, fun hdated => fresh_formatTime hdated hlo hhi⟩
  obtain ⟨t, ht, -⟩ := (measured_iff _ _).1 h
  exact dated_of_parseTime ht

theorem readCheck_failedAt {lapse : ℤ} {more : Members} (h : raw.get name.text = failedAt lapse more)
    (hshape : name ≠ .handshake ∧ name ≠ .egress) (hdated : Dated lapse) (hlo : lapse ≤ now)
    (hhi : now ≤ lapse + 149 * second) : readCheck exit server raw now name = some (.fail, some .failed) := by
  have hfresh : fresh (.str (formatTime lapse)) now = true := fresh_formatTime hdated hlo hhi
  have hvalid : ∀ check, validShape exit name check .fail = true := by
    cases name <;> simp_all [validShape]
  have hread : readState exit raw name =
      some ([("state", .str "fail"), ("at", .str (formatTime lapse))] ++ more, .fail) := by
    unfold readState
    rw [h]
    simp [failedAt, CheckState.ofText, CheckState.text, hvalid]
  rw [readCheck, hread, Option.map_some]
  simp [judgeCheck, hfresh]

end Check

/-! ### A failed verdict -/

/-- A record of this exit that says it failed is judged failed when its checks can be
read and either one failed or none has expired. -/
theorem assessAt_failed {u : Unicode} {target : Target}
    {display : Checks} {found : Issues} (hschema : (record.get "schema").isInt = some 2)
    (hkind : record.get "kind" = .str exit.kind.text) (hprovider : record.get "provider" = .str exit.provider)
    (hbackend : record.get "backend" = .str exit.backend.text) (hfresh : fresh (record.get "checked_at") now = true)
    (hack : unacknowledged record target now = none) (hstatus : record.get "status" = .str "failed")
    (hread : readChecks exit record now = .ok (display, found))
    (hfound : (exit.gluetunSidecar = false ∧ found.failed ≠ []) ∨ (found.failed = [] ∧ found.expired = [])) :
    (assessAt u exit (.obj record) target now).state = .failed := by
  have hhas : record.has "schema" = true := Members.has_of_get_ne_null fun h => by simp [h, Json.isInt] at hschema
  have hne : ("failed" == "applying") = false := by decide
  unfold assessAt
  simp only [Json.object_obj, hhas, hschema, ne_eq, not_true_eq_false,
    assessRecord, hkind, hprovider, hbackend, Json.isStr_str, hfresh, hack, hstatus, hne, hread]
  unfold judgeChecks
  simp only [hstatus, Json.isStr_str, beq_self_eq_true]
  rcases hfound with ⟨hside, hfailed⟩ | ⟨hfailed, hexpired⟩
  · simp [hside, hfailed]
  · simp only [hfailed, hexpired, List.isEmpty_nil, Bool.not_true, Bool.false_or, Bool.false_eq_true, if_false]
    rw [if_neg (by simp)]
    split_ifs <;> rfl

/-! ### The record before -/

/-- A record of this exit whose checks can be read at a time, with no evidence from
later than that. -/
structure Accepted (s : ExitSettings) (record : Members) (time : ℤ) : Prop where
  schema : (record.get "schema").isInt = some 2
  kind : record.get "kind" = .str s.kind.text
  provider : record.get "provider" = .str s.provider
  backend : record.get "backend" = .str s.backend.text
  read : ∃ x, readChecks s.exit record time = .ok x
  past : ∀ raw : Members, record.get "checks" = .obj raw → ∀ name ∈ s.exit.required, ∀ check : Members,
    raw.get name.text = .obj check → ∀ t, parseTime (check.get "at") = some t → t * second ≤ time

theorem blankChecks_required (kind : Kind) (backend : Backend) :
    ∀ name ∈ requiredChecks kind backend, (blankChecks kind backend).get name.text = .obj [("state", .str "unknown")] := by
  intro name h
  cases kind <;> cases backend <;> fin_cases h <;> rfl

theorem readChecks_unknown {raw : Members} {now : ℤ} (hraw : record.get "checks" = .obj raw)
    (h : ∀ name ∈ exit.required, raw.get name.text = .obj [("state", .str "unknown")]) :
    ∃ display found, readChecks exit record now = .ok (display, found) ∧ found.failed = [] ∧ found.expired = [] := by
  have hread : ∀ name ∈ exit.required,
      readCheck exit (record.get "server") raw now name = some (.unknown, some .unmeasured) := by
    intro name hname
    rw [readCheck, readState_unknown (h name hname), Option.map_some]
    rfl
  obtain ⟨⟨display, found⟩, hok⟩ := readRequired_ok (fixedChecks exit.kind exit.backend) {}
    fun name hname => by rw [hread name hname, Option.isSome_some]
  have hloop := readAs_of_readRequired hok
  have hshown : ∀ name ∈ exit.required, List.lookup name display = some .unknown := by
    intro name hname
    rw [hloop.shown, if_pos hname, hread name hname, Option.map_some]
  have hnone : ∀ p ≠ .unmeasured, found.of p = [] := by
    intro p hp
    refine List.eq_nil_iff_forall_not_mem.2 fun name hname => ?_
    rcases (hloop.issues p name).1 hname with hinit | ⟨hmem, _, hstate⟩
    · cases p <;> cases hinit
    · rw [hread name hmem] at hstate
      exact hp (by simpa using congrArg Prod.snd (Option.some.inj hstate.symm))
  refine ⟨display, found, readChecks_eq_ok_iff.2 ⟨raw, hraw, hok, ?_, ?_⟩, hnone .failed (by decide),
    hnone .expired (by decide)⟩
  · rintro ⟨hmem, hpass, -⟩
    simp [hshown _ hmem] at hpass
  · intro hpass
    simp [hshown _ (egress_mem_required exit)] at hpass

theorem accepted_startingRecord (s : ExitSettings) (time : ℤ) : Accepted s (startingRecord s time) time := by
  have hblank := blankChecks_required s.kind s.backend
  have hchecks : (startingRecord s time).get "checks" = .obj (blankChecks s.kind s.backend) := rfl
  obtain ⟨_, _, hread, -⟩ := @readChecks_unknown s.exit _ _ time hchecks hblank
  refine ⟨rfl, rfl, rfl, rfl, ⟨_, hread⟩, fun raw hraw name hname check hcheck t ht => ?_⟩
  cases hraw
  rw [hblank name hname] at hcheck
  cases hcheck
  simp [parseTime, Json.string] at ht

/-! ### The record FailureRecord builds -/

section Rendered

variable {s : ExitSettings} {prev : Option Members} {lapse : ℤ} {held : Bool} {time expiry : ℤ}

theorem renderRecord_get_of_ne (last : Members) (h : key ≠ "checks") :
    (renderRecord s held time expiry last).get key = last.get key := by
  unfold renderRecord
  split_ifs
  · exact Members.get_set_of_ne _ h _
  · rfl

theorem failureRecord_get_of_ne
    (h : key ≠ "checks" ∧ key ≠ "status" ∧ key ≠ "message" ∧ key ≠ "checked_at") :
    (failureRecord prev s lapse).get key = (prev.getD (startingRecord s lapse)).get key := by
  obtain ⟨h₁, h₂, h₃, h₄⟩ := h
  unfold failureRecord
  rw [Members.get_set_of_ne _ h₄, Members.get_set_of_ne _ h₃, Members.get_set_of_ne _ h₂, Members.get_set_of_ne _ h₁]

theorem CheckName.text_injective : Function.Injective CheckName.text := by
  intro a b h
  cases a <;> cases b <;> first | rfl | simp [CheckName.text] at h

theorem renderRecord_checks {last raw : Members} (hraw : last.get "checks" = .obj raw) :
    ∃ shown : Members, (renderRecord s held time expiry last).get "checks" = .obj shown ∧
      (∀ name : CheckName, ¬ (s.native = true ∧ name = .ownerRecord) → shown.get name.text = raw.get name.text) ∧
      (s.native = true → shown.get CheckName.ownerRecord.text = .obj (ownerCheck held time expiry)) := by
  unfold renderRecord withOwnerCheck
  rw [hraw, Json.object_obj, Option.getD_some]
  split_ifs with hnative
  · refine ⟨_, Members.get_set _ _ _, fun name hname => ?_, fun _ => Members.get_set _ _ _⟩
    refine Members.get_set_of_ne _ (fun h => hname ⟨hnative, ?_⟩) _
    exact CheckName.text_injective h
  · exact ⟨raw, hraw, fun name _ => rfl, fun h => absurd h hnative⟩

theorem foldl_unknown (names : List CheckName) (checks : Members) :
    (names.foldl (fun checks (n : CheckName) => checks.set n.text (.obj [("state", .str "unknown")])) checks).get
      name.text = if name ∈ names then .obj [("state", .str "unknown")] else checks.get name.text := by
  induction names generalizing checks with
  | nil => simp
  | cons n rest ih =>
    rw [List.foldl_cons, ih]
    by_cases hn : name = n
    · simp [hn]
    · rw [Members.get_set_of_ne _ fun h => hn (CheckName.text_injective h)]
      simp [hn]

theorem failureChecks_overlay (hkind : s.kind = .overlay) (checks : Members) (name : CheckName) :
    (failureChecks s lapse checks).get name.text =
      if name = .routing ∨ name = .netbird ∨ (name = .ownerRecord ∧ s.backend = .native) then failedAt lapse []
      else if name = .trafficProtection then failedAt lapse [("from", .str "routing")]
      else checks.get name.text := by
  unfold failureChecks
  rw [hkind]
  by_cases hb : s.backend = .native <;> simp only [hb] <;>
    cases name <;> simp [Members.get, Members.lookup_set, CheckName.text]

theorem failureRecord_checks (hchecks : (prev.getD (startingRecord s lapse)).get "checks" = .obj raw) :
    (failureRecord prev s lapse).get "checks" =
      .obj (failureChecks s lapse (Members.fill raw (blankChecks s.kind s.backend))) := by
  unfold failureRecord
  rw [Members.get_set_of_ne _ (by decide), Members.get_set_of_ne _ (by decide), Members.get_set_of_ne _ (by decide),
    Members.get_set, hchecks, Json.object_obj, Option.getD_some]

theorem failureRecord_status : (failureRecord prev s lapse).get "status" = .str "failed" := by
  unfold failureRecord
  rw [Members.get_set_of_ne _ (by decide), Members.get_set_of_ne _ (by decide), Members.get_set]

theorem failureRecord_checkedAt : (failureRecord prev s lapse).get "checked_at" = .str (formatTime lapse) := by
  unfold failureRecord
  rw [Members.get_set]

end Rendered

/-! ### Reading it -/

theorem readCheck_pass {server : Json} {raw : Members}
    {problem : Option CheckProblem} (h : readCheck exit server raw now name = some (.pass, problem)) :
    problem = none := by
  obtain ⟨⟨_, _⟩, -, hjudge⟩ := Option.map_eq_some_iff.1 h
  unfold judgeCheck at hjudge
  split_ifs at hjudge <;> simp_all

theorem egressIPsConsistent_congr {record' raw : Members} (hraw : record.get "checks" = .obj raw)
    (hraw' : record'.get "checks" = .obj raw') (hegress : raw'.get "egress" = raw.get "egress")
    (hips : record'.get "egress_ips" = record.get "egress_ips") :
    egressIPsConsistent record' = egressIPsConsistent record := by
  unfold egressIPsConsistent
  rw [hraw, hraw', hips, Json.object_obj, Json.object_obj, Option.getD_some, Option.getD_some, hegress]

section Reading

variable {s : ExitSettings} {prev : Option Members} {lapse now : ℤ} {held : Bool} {time expiry : ℤ}

theorem readChecks_failure_sidecar (hkind : s.kind = .sidecar)
    (hlast : Accepted s (prev.getD (startingRecord s lapse)) lapse) :
    ∃ display found, readChecks s.exit (renderRecord s held time expiry (failureRecord prev s lapse)) now =
      .ok (display, found) ∧ found.failed = [] ∧ found.expired = [] := by
  obtain ⟨⟨d, f⟩, hread⟩ := hlast.read
  obtain ⟨_, hraw, -⟩ := readChecks_eq_ok_iff.1 hread
  have hnative : s.native = false := by simp [ExitSettings.native, hkind]
  obtain ⟨_, hshown, hother, -⟩ := @renderRecord_checks s held time expiry _ _ (failureRecord_checks hraw)
  refine readChecks_unknown hshown fun name hname => ?_
  rw [hother name (by simp [hnative]), failureChecks, hkind]
  rw [foldl_unknown, if_pos (hkind ▸ hname)]

theorem required_overlay (hkind : s.kind = .overlay) (h : name ∈ s.exit.required) :
    (name = .peer ∨ name = .handshake ∨ name = .egress) ∨
      (name = .routing ∨ name = .netbird ∨ name = .trafficProtection) ∨ (name = .ownerRecord ∧ s.native = true) := by
  change name ∈ requiredChecks s.kind s.backend at h
  rw [ExitSettings.native, hkind]
  rw [hkind] at h
  generalize s.backend = b at h ⊢
  cases b <;> fin_cases h <;> decide

theorem readChecks_failure_overlay (hkind : s.kind = .overlay) (hdated : Dated lapse) (hlo : lapse ≤ now)
    (hhi : now ≤ lapse + 149 * second) (hlast : Accepted s (prev.getD (startingRecord s lapse)) lapse) :
    ∃ display found, readChecks s.exit (renderRecord s held time expiry (failureRecord prev s lapse)) now =
      .ok (display, found) ∧ found.failed ≠ [] := by
  obtain ⟨⟨d, f⟩, hread⟩ := hlast.read
  obtain ⟨raw, hraw, hrequired, -, hips⟩ := readChecks_eq_ok_iff.1 hread
  have hbefore := readAs_of_readRequired hrequired
  obtain ⟨shown, hshown, hother, howner⟩ := @renderRecord_checks s held time expiry _ _ (failureRecord_checks hraw)
  set record := renderRecord s held time expiry (failureRecord prev s lapse) with hrecord
  have hserver : record.get "server" = (prev.getD (startingRecord s lapse)).get "server" := by
    rw [hrecord, renderRecord_get_of_ne _ (by decide), failureRecord_get_of_ne (by decide)]
  have hrouting : CheckName.routing ∈ s.exit.required := by
    change CheckName.routing ∈ requiredChecks s.kind s.backend
    rw [hkind]
    cases s.backend <;> decide
  have hfailed : ∀ name, name = .routing ∨ name = .netbird ∨ name = .trafficProtection →
      readCheck s.exit (record.get "server") shown now name = some (.fail, some .failed) := by
    intro name hname
    have hget := hother name (by rintro ⟨-, rfl⟩; simp at hname)
    rw [failureChecks_overlay hkind] at hget
    rcases hname with rfl | rfl | rfl <;> exact readCheck_failedAt hget (by decide) hdated hlo hhi
  -- the checks bound to the server are those of the record before
  have hkept : ∀ name, name = .peer ∨ name = .handshake ∨ name = .egress → name ∈ s.exit.required →
      shown.get name.text = raw.get name.text := by
    intro name hname hmem
    have hhas : raw.has name.text = true := by
      obtain ⟨x, hx⟩ := Option.isSome_iff_exists.1 (hbefore.read name hmem)
      obtain ⟨⟨check, state⟩, hstate, -⟩ := Option.map_eq_some_iff.1 hx
      refine Members.has_of_get_ne_null ?_
      rw [(readState_some hstate).1]
      simp
    rw [hother name (by rintro ⟨-, rfl⟩; simp at hname), failureChecks_overlay hkind]
    rcases hname with rfl | rfl | rfl <;> simpa using Members.get_fill_of_has hhas
  have hsome : ∀ name ∈ s.exit.required, (readCheck s.exit (record.get "server") shown now name).isSome = true := by
    intro name hmem
    by_cases hname : name = .peer ∨ name = .handshake ∨ name = .egress
    · have hold := hbefore.read name hmem
      rw [readCheck, Option.isSome_map] at hold ⊢
      rwa [readState_congr (hkept name hname hmem)]
    · by_cases hdown : name = .routing ∨ name = .netbird ∨ name = .trafficProtection
      · simp [hfailed name hdown]
      · obtain ⟨rfl, hnative⟩ : name = .ownerRecord ∧ s.native = _ := by
          have := required_overlay hkind hmem
          tauto
        rw [readCheck, Option.isSome_map, readState, howner hnative]
        cases held <;> rfl
  obtain ⟨⟨display, found⟩, hok⟩ := readRequired_ok (fixedChecks s.exit.kind s.exit.backend) {} hsome
  have hloop := readAs_of_readRequired hok
  refine ⟨display, found, readChecks_eq_ok_iff.2 ⟨shown, hshown, hok, ?_, fun hpass => ?_⟩, fun hnil => ?_⟩
  · rintro ⟨hmem, hpass, -⟩
    rw [hloop.shown, if_pos hmem, hfailed _ (by simp)] at hpass
    cases hpass
  · have hmem := egress_mem_required s.exit
    rw [hloop.shown, if_pos hmem, Option.map_eq_some_iff] at hpass
    obtain ⟨⟨-, _⟩, hnow, rfl⟩ := hpass
    obtain rfl := readCheck_pass hnow
    have hget := hkept .egress (by simp) hmem
    have hearlier := readCheck_pass_earlier hlo (fun check hcheck => hlast.past raw hraw _ hmem check (hget ▸ hcheck))
      (by decide) hnow
    rw [readCheck, readState_congr hget, ← readCheck, hserver] at hearlier
    rw [egressIPsConsistent_congr hraw hshown hget]
    · exact hips (by rw [hbefore.shown, if_pos hmem, hearlier, Option.map_some])
    · rw [hrecord, renderRecord_get_of_ne _ (by decide), failureRecord_get_of_ne (by decide)]
  · have hmem := (hloop.issues .failed .routing).2 (.inr ⟨hrouting, .fail, hfailed _ (by simp)⟩)
    rw [Issues.of, hnil] at hmem
    cases hmem

end Reading

/-! ### The verdict of the failure record -/

/-- The failure record of a lapse, rendered with any check of the owner's, is judged
failed for 149 seconds, whatever was published before it and whatever the reader expects,
a request the record does not acknowledge apart. -/
theorem failureRecord_failed (u : Unicode) (s : ExitSettings) (prev : Option Members) (lapse : ℤ) (hdated : Dated lapse)
    (hprev : ∀ last, prev = some last → Accepted s last lapse) (held : Bool) (time expiry : ℤ) (target : Target)
    (clock now : ℤ) (hlo : lapse ≤ orPresent clock now) (hhi : orPresent clock now ≤ lapse + 149 * second)
    (hack : unacknowledged (renderRecord s held time expiry (failureRecord prev s lapse)) target
      (orPresent clock now) = none) :
    (assess u s.exit (.obj (renderRecord s held time expiry (failureRecord prev s lapse))) target clock now).state =
      .failed := by
  unfold assess
  generalize orPresent clock now = now at hlo hhi hack ⊢
  have hlast : Accepted s (prev.getD (startingRecord s lapse)) lapse := by
    cases prev with
    | none => exact accepted_startingRecord s lapse
    | some last => exact hprev last rfl
  have hget : ∀ key, key ≠ "checks" → (renderRecord s held time expiry (failureRecord prev s lapse)).get key =
      (failureRecord prev s lapse).get key := fun key h => renderRecord_get_of_ne _ h
  have hfresh : fresh (.str (formatTime lapse)) now = true := fresh_formatTime hdated hlo hhi
  have hread : ∃ display found, readChecks s.exit (renderRecord s held time expiry (failureRecord prev s lapse)) now =
      .ok (display, found) ∧
      ((s.exit.gluetunSidecar = false ∧ found.failed ≠ []) ∨ (found.failed = [] ∧ found.expired = [])) := by
    cases hkind : s.kind with
    | sidecar =>
      obtain ⟨display, found, hok, hnone⟩ := readChecks_failure_sidecar hkind hlast
      exact ⟨display, found, hok, .inr hnone⟩
    | overlay =>
      obtain ⟨display, found, hok, hsome⟩ := readChecks_failure_overlay hkind hdated hlo hhi hlast
      exact ⟨display, found, hok, .inl ⟨by simp [ExitConfig.gluetunSidecar, ExitSettings.exit, hkind], hsome⟩⟩
  obtain ⟨display, found, hok, hfound⟩ := hread
  refine assessAt_failed ?_ ?_ ?_ ?_ ?_ hack ?_ hok hfound
  · rw [hget _ (by decide), failureRecord_get_of_ne (by decide)]
    exact hlast.schema
  · rw [hget _ (by decide), failureRecord_get_of_ne (by decide)]
    exact hlast.kind
  · rw [hget _ (by decide), failureRecord_get_of_ne (by decide)]
    exact hlast.provider
  · rw [hget _ (by decide), failureRecord_get_of_ne (by decide)]
    exact hlast.backend
  · rw [hget _ (by decide), failureRecord_checkedAt]
    exact hfresh
  · rw [hget _ (by decide), failureRecord_status]

/-- An overlay with everything up, and nothing newer than its lapse. -/
def mullvadSettings : ExitSettings :=
  { kind := .overlay, provider := "mullvad", server := "se-sto-wg-001", portForward := false, known := mullvad_known }

theorem accepted_okRecord : Accepted mullvadSettings
    (okRecord "mullvad" "se-sto-wg-001" [("expires_at", .str "2023-11-14T22:13:50Z")]) (1700000010 * second) := by
  refine ⟨rfl, rfl, rfl, rfl, ?_, fun raw hraw name hname check hcheck t ht => ?_⟩
  · have hok : (readChecks mullvadSettings.exit (okRecord "mullvad" "se-sto-wg-001"
        [("expires_at", .str "2023-11-14T22:13:50Z")]) (1700000010 * second)).toOption.isSome = true := by decide +kernel
    cases hread : readChecks mullvadSettings.exit (okRecord "mullvad" "se-sto-wg-001"
        [("expires_at", .str "2023-11-14T22:13:50Z")]) (1700000010 * second) with
    | error e => simp [hread, Except.toOption] at hok
    | ok x => exact ⟨x, rfl⟩
  · cases hraw
    have htime : parseTime (.str "2023-11-14T22:13:20Z") = some 1700000000 := by decide +kernel
    suffices check.get "at" = .str "2023-11-14T22:13:20Z" by
      rw [this, htime] at ht
      cases ht
      decide
    fin_cases hname <;> obtain rfl := Json.obj.inj hcheck <;> rfl

/-- Its owner stops responding ten seconds after the last record: 90 seconds later it
is judged failed. -/
theorem failureRecord_failed_mullvad :
    (assess asciiPrint mullvadSettings.exit (.obj (renderRecord mullvadSettings true (1700000010 * second)
      (1700000040 * second) (failureRecord (some (okRecord "mullvad" "se-sto-wg-001"
        [("expires_at", .str "2023-11-14T22:13:50Z")])) mullvadSettings (1700000010 * second)))) {}
      0 (1700000100 * second)).state = .failed :=
  failureRecord_failed asciiPrint mullvadSettings (some (okRecord "mullvad" "se-sto-wg-001"
      [("expires_at", .str "2023-11-14T22:13:50Z")])) (1700000010 * second) ⟨by decide, by decide⟩
    (fun last h => Option.some.inj h ▸ accepted_okRecord) true (1700000010 * second) (1700000040 * second) {}
    0 (1700000100 * second) (by decide) (by decide) rfl

/-- A lapse after the year 9999 is written with five digits, which no reader takes for
a time. -/
theorem failureRecord_year_10000 :
    (assess asciiPrint mullvadSettings.exit (.obj (renderRecord mullvadSettings false (253402300800 * second)
      (253402300800 * second) (failureRecord none mullvadSettings (253402300800 * second)))) {}
      0 (253402300800 * second)).state = .unknown := by
  decide +kernel

end Molebridge
