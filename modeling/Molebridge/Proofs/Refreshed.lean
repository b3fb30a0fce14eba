import Molebridge.Proofs.RoundTrip
import Molebridge.Spec.RelayCatalog

/-! A refresh of the relay catalogue that reports a failure. Every failure before the
snapshot is written leaves the catalogue as it was; the write that then clears the error
record can fail after the new catalogue took effect. -/

namespace Molebridge.Providers

open Validate (Strconv Value marshalJSON ordinalStrconv)

variable {sc : Strconv} {run : Refreshing} {c : RelayCatalog} {fault step : Option WriteStep} {old : Option (List ℕ)}

theorem write_failed {v : Value} {maxBytes : ℕ} (h : (write sc fault v maxBytes old).1 ≠ none) :
    (write sc fault v maxBytes old).2 = old := by
  unfold write at h ⊢
  split_ifs
  · rfl
  · rename_i hlater
    cases hm : marshalJSON sc v with
    | error e => rfl
    | ok text =>
      rw [hm] at h
      dsimp only at h ⊢
      split_ifs at h ⊢
      · rfl
      · cases fault with
        | none => exact absurd rfl h
        | some s => rfl

theorem write_eq_none {v : Value} {maxBytes : ℕ} (h : (write sc fault v maxBytes old).1 = none) :
    fault = none ∧ ∃ text, marshalJSON sc v = .ok text ∧ ¬ (0 < maxBytes ∧ maxBytes < text.length) := by
  unfold write at h
  split_ifs at h with hearly
  · simp [show fault = none from h] at hearly
  · cases hm : marshalJSON sc v with
    | error e => simp [hm] at h
    | ok text =>
      simp only [hm] at h
      split_ifs at h with hlong
      cases fault with
      | none => exact ⟨rfl, text, rfl, hlong⟩
      | some step => cases h

theorem write_empty : (write sc fault (.obj []) 0 old).1 = fault := by
  unfold write
  split_ifs
  · rfl
  · have hm : marshalJSON sc (.obj []) = .ok [0x7B, 0x7D] := rfl
    cases fault with
    | none => rfl
    | some s => rfl

/-- What a failed refresh is to leave alone. -/
structure SameCatalog (c c' : RelayCatalog) : Prop where
  relays : c'.relays = c.relays
  snapshot : c'.snapshot = c.snapshot
  file : c'.file = c.file

theorem SameCatalog.symm {c' : RelayCatalog} (h : SameCatalog c c') : SameCatalog c' c :=
  ⟨h.relays.symm, h.snapshot.symm, h.file.symm⟩

theorem SameCatalog.trans {c' c'' : RelayCatalog} (h : SameCatalog c c') (h' : SameCatalog c' c'') :
    SameCatalog c c'' := ⟨h'.relays.trans h.relays, h'.snapshot.trans h.snapshot, h'.file.trans h.file⟩

/-- Publish gets as far as the new relays.json, of the given text. -/
structure Publishes (sc : Strconv) (run : Refreshing) (c : RelayCatalog) (entries : Entries) (text : List ℕ) : Prop where
  small : snapshotTooLarge entries c.provider.snapshotLimit = false
  written : run.publishing = none
  encoded : marshalJSON sc (.obj (kept c.provider run.fetchedAt [] ++ [(key "relays", entries.value)])) = .ok text
  fits : ¬ (0 < c.provider.snapshotLimit ∧ c.provider.snapshotLimit < text.length)

variable {entries : Entries} {text : List ℕ}

theorem Publishes.writeSnapshot_eq (h : Publishes sc run c entries text) :
    writeSnapshot sc run c entries [] = (none, some text) := by
  simp [writeSnapshot, write, h.written, h.encoded, h.fits]

theorem publish_refused (h : ∀ text, ¬ Publishes sc run c entries text) :
    SameCatalog c (publish sc run c entries []).2 := by
  unfold publish
  cases hlarge : snapshotTooLarge entries c.provider.snapshotLimit with
  | true => exact ⟨rfl, rfl, rfl⟩
  | false =>
    have hne : (writeSnapshot sc run c entries []).1 ≠ none := by
      intro hw
      obtain ⟨hwritten, text, hencoded, hfits⟩ := write_eq_none hw
      exact h text ⟨hlarge, hwritten, hencoded, hfits⟩
    have hfile : (writeSnapshot sc run c entries []).2 = c.file := write_failed hne
    rcases hw : writeSnapshot sc run c entries [] with ⟨_ | s, _⟩
    · exact absurd (congrArg Prod.fst hw) hne
    · rw [hw] at hfile
      exact ⟨rfl, rfl, hfile⟩

theorem publish_made (h : Publishes sc run c entries text) :
    (publish sc run c entries []).1 = run.clearing.map .write ∧
      SameCatalog { c with relays := entries, snapshot := kept c.provider run.fetchedAt [], file := some text }
        (publish sc run c entries []).2 := by
  unfold publish
  simp only [h.small, Bool.false_eq_true, if_false, h.writeSnapshot_eq, write_empty, true_and]
  exact ⟨rfl, rfl, rfl⟩

/-- Refresh reports the error of fetching and publishing, and then touches the error record
alone. -/
theorem refresh_result (sc : Strconv) (run : Refreshing) (c : RelayCatalog) :
    ((refresh sc run c).1.1 = false ↔ (fetchAndPublish sc run c).1 ≠ none) ∧
      SameCatalog (fetchAndPublish sc run c).2 (refresh sc run c).2 := by
  unfold refresh
  rcases fetchAndPublish sc run c with ⟨_ | e, -⟩
  · exact ⟨⟨nofun, fun h => absurd rfl h⟩, rfl, rfl, rfl⟩
  · exact ⟨⟨fun _ => nofun, fun _ => rfl⟩, rfl, rfl, rfl⟩

/-- A refresh that returns false has changed nothing, unless the write that clears the error
record fails and what was published before it was new. -/
theorem failed_refresh_keeps_iff (sc : Strconv) (run : Refreshing) (c : RelayCatalog) :
    ((refresh sc run c).1.1 = false → SameCatalog c (refresh sc run c).2) ↔
      (run.clearing ≠ none → ∀ entries text, fetchEntries run c = .ok entries → Publishes sc run c entries text →
        c.relays = entries ∧ c.snapshot = kept c.provider run.fetchedAt [] ∧ c.file = some text) := by
  obtain ⟨hfalse, hsame⟩ := refresh_result sc run c
  unfold fetchAndPublish at hfalse hsame
  rw [hfalse]
  cases hfetch : fetchEntries run c with
  | error e =>
    rw [hfetch] at hsame
    exact ⟨fun _ _ _ _ h => (nomatch h), fun _ _ => hsame⟩
  | ok entries =>
    rw [hfetch] at hsame
    by_cases hp : ∃ text, Publishes sc run c entries text
    · obtain ⟨text, hp⟩ := hp
      -- published: the write that clears the error record alone decides what is returned
      obtain ⟨herr, hmade⟩ := publish_made hp
      have hnew := hmade.trans hsame
      have hclear : (publish sc run c entries []).1 ≠ none ↔ run.clearing ≠ none := by simp [herr]
      rw [← hclear]
      constructor
      · intro h hne entries' text' hok hp'
        cases hok
        obtain rfl : text = text' := Except.ok.inj (hp.encoded.symm.trans hp'.encoded)
        have hold := (h hne).trans hnew.symm
        exact ⟨hold.relays.symm, hold.snapshot.symm, hold.file.symm⟩
      · intro h hne
        obtain ⟨hrelays, hsnapshot, hfile⟩ := h hne entries text rfl hp
        exact SameCatalog.trans ⟨hrelays.symm, hsnapshot.symm, hfile.symm⟩ hnew
    · refine ⟨fun _ _ entries' text hok hp' => absurd ⟨text, ?_⟩ hp, fun _ _ => (publish_refused (not_exists.1 hp)).trans hsame⟩
      cases hok
      exact hp'

def unclearable : Refreshing := ⟨some [], [], [], none, some .sync, none⟩

/-- No catalogue yet, and a provider with one relay. -/
def fromNothing : RelayCatalog where
  provider := ⟨[], fun _ _ => some (.ofRelays [([0x61], {})]), 1000⟩
  portForwardOnly := false
  snapshot := []
  relays := []
  failure := none
  file := none
  errorFile := none

/-- The refresh returns false, with the new relays in memory and in relays.json. -/
theorem failed_refresh_published : ∃ sc : Strconv, (refresh sc unclearable fromNothing).1.1 = false ∧
    (refresh sc unclearable fromNothing).2.relays.map Prod.fst = [[0x61]] ∧ fromNothing.relays = [] ∧
    (refresh sc unclearable fromNothing).2.snapshot.length = 2 ∧ fromNothing.snapshot = [] ∧
    (refresh sc unclearable fromNothing).2.file.isSome = true ∧ fromNothing.file = none :=
  ⟨ordinalStrconv, by decide +kernel, by decide +kernel, rfl, by decide +kernel, rfl, by decide +kernel, rfl⟩

end Molebridge.Providers
