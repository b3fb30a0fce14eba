import Molebridge.Proofs.RoundTrip
import Molebridge.Spec.RelayCatalog

/-! The bound that snapshotTooLarge counts stays below what is written: every character takes
a byte at least, every name its quotes and its separator, every value one byte. -/

namespace Molebridge.Providers

open Validate

variable {sc : Strconv} {depth fuel : ℕ} {s text : List ℕ} {v : Value} {ms : List (List ℕ × Value)}

variable {out : Except EncodeError (List ℕ)} {bounds : List ℕ} {entries : Entries}

theorem runeCount_le (h : strLoop fuel s = .ok text) (n : ℕ) : runeCount n s ≤ text.length := by
  induction fuel generalizing s text n with
  | zero =>
    cases s with
    | nil => simp [runeCount]
    | cons b rest => cases h
  | succ fuel ih =>
    cases s with
    | nil => simp [runeCount]
    | cons b rest =>
      cases n with
      | zero => simp [runeCount]
      | succ n =>
        rw [strLoop] at h
        rw [runeCount]
        by_cases hb : b < 0x80
        · have hnext : nextRune (b :: rest) = some (b, rest) := by simp [nextRune, Utf8.decodeRune, hb]
          rw [if_pos hb] at h
          cases hrest : strLoop fuel rest with
          | error e => simp [hrest] at h
          | ok more =>
            simp only [hrest] at h
            cases h
            have hchar : 1 ≤ (asciiText b).length := by
              unfold asciiText
              split_ifs <;> simp [u4]
            have := ih hrest n
            simp only [hnext, Option.map_some, Option.getD_some, List.length_append]
            omega
        · rw [if_neg hb] at h
          cases hnext : nextRune (b :: rest) with
          | none => simp [hnext] at h
          | some found =>
            obtain ⟨r, after⟩ := found
            simp only [hnext] at h
            cases hrest : strLoop fuel after with
            | error e => simp [hrest] at h
            | ok more =>
              simp only [hrest] at h
              cases h
              have hchar : 1 ≤ (runeText r).length := by
                unfold runeText
                split_ifs <;> simp [u4]
              have := ih hrest n
              simp only [Option.map_some, Option.getD_some, List.length_append]
              omega

theorem encodeStr_length (h : encodeStr s = .ok text) : runeCount s.length s + 2 ≤ text.length := by
  unfold encodeStr at h
  cases hloop : strLoop s.length s with
  | error e => simp [hloop] at h
  | ok inner =>
    simp only [hloop] at h
    cases h
    have := runeCount_le hloop s.length
    simp
    omega

theorem of_atDepth (h : atDepth depth out = .ok text) : out = .ok text := by
  unfold atDepth at h
  split_ifs at h
  exact h

theorem of_between {first last : ℕ} (h : between first last out = .ok text) :
    ∃ inner, out = .ok inner ∧ text = first :: inner ++ [last] := by
  cases out with
  | error e => cases h
  | ok inner => exact ⟨inner, rfl, (Except.ok.inj h).symm⟩

def valueBound : Value → ℕ
  | .str s => runeCount s.length s
  | _ => 1

theorem memberBound_eq : memberBound = fun m => runeCount m.1.length m.1 + 4 + valueBound m.2 := by
  funext m
  unfold memberBound valueBound
  cases m.2 <;> rfl

theorem valueBound_le (h : encodeValue sc v depth = .ok text) : valueBound v ≤ text.length := by
  cases v with
  | null =>
    obtain rfl := Except.ok.inj (of_atDepth h)
    decide
  | bool b => cases b <;> obtain rfl := Except.ok.inj (of_atDepth h) <;> decide
  | int n =>
    obtain rfl := Except.ok.inj (of_atDepth h)
    refine List.length_pos_iff.2 ?_
    unfold intText natText
    split_ifs <;> simp_all
  | float f =>
    have hout := of_atDepth h
    split_ifs at hout
    cases hout
    refine List.length_pos_iff.2 ?_
    unfold formatFloat
    dsimp only
    split_ifs <;> simp
  | str s =>
    have := encodeStr_length (of_atDepth h)
    simp only [valueBound]
    omega
  | arr | obj =>
    obtain ⟨-, -, rfl⟩ := of_between (of_atDepth h)
    simp [valueBound]

theorem encodeMembers_length (h : encodeMembers sc ms depth = .ok text)
    (hb : List.Forall₂ (fun m b => ∀ out, encodeValue sc m.2 depth = .ok out → b ≤ out.length) ms bounds) :
    (ms.map fun m => runeCount m.1.length m.1 + 4).sum + bounds.sum ≤ text.length := by
  induction hb generalizing text with
  | nil => simp
  | @cons m b ms bounds hm hms ih =>
    obtain ⟨k, v⟩ := m
    have hmember : ∃ name out rest, encodeStr k = .ok name ∧ encodeValue sc v depth = .ok out ∧
        encodeMembers sc ms depth = .ok rest ∧ name.length + 2 + out.length + rest.length ≤ text.length := by
      cases hk : encodeStr k with
      | error e => cases ms <;> simp [encodeMembers, hk] at h
      | ok name =>
        cases hv : encodeValue sc v depth with
        | error e => cases ms <;> simp [encodeMembers, hk, hv] at h
        | ok out =>
          cases ms with
          | nil =>
            simp only [encodeMembers, hk, hv, Except.ok.injEq] at h
            exact ⟨name, out, [], rfl, rfl, rfl, by simp [← h]; omega⟩
          | cons m' ms =>
            cases hrest : encodeMembers sc (m' :: ms) depth with
            | error e => simp [encodeMembers, hk, hv, hrest] at h
            | ok rest =>
              simp only [encodeMembers, hk, hv, hrest, Except.ok.injEq] at h
              exact ⟨name, out, rest, rfl, rfl, rfl, by simp [← h]; omega⟩
    obtain ⟨_, out, _, hk, hv, hrest, _⟩ := hmember
    have h1 := encodeStr_length hk
    have h2 := hm out hv
    have h3 := ih hrest
    simp only [List.map_cons, List.sum_cons]
    omega

theorem encodeObj_length (h : encodeValue sc (.obj ms) depth = .ok text)
    (hb : List.Forall₂ (fun m b => ∀ out, encodeValue sc m.2 (depth + 1) = .ok out → b ≤ out.length) ms bounds) :
    (ms.map fun m => runeCount m.1.length m.1 + 4).sum + bounds.sum ≤ text.length := by
  obtain ⟨_, hinner, rfl⟩ := of_between (of_atDepth h)
  have := encodeMembers_length hinner hb
  rw [List.length_append, List.length_cons]
  omega

def entryBound (e : List ℕ × List (List ℕ × Value)) : ℕ := (e.2.map memberBound).sum

theorem entryBound_le (h : encodeValue sc (.obj ms) depth = .ok text) (name : List ℕ) :
    entryBound (name, ms) ≤ text.length := by
  have hb : List.Forall₂ (fun m b => ∀ out, encodeValue sc m.2 (depth + 1) = .ok out → b ≤ out.length) ms
      (ms.map fun m => valueBound m.2) :=
    List.forall₂_map_right_iff.2 (List.forall₂_same.2 fun m _ out hout => valueBound_le hout)
  have := encodeObj_length h hb
  rwa [entryBound, memberBound_eq, List.sum_map_add]

theorem entries_length (h : encodeValue sc entries.value depth = .ok text) :
    (entries.map fun e => runeCount e.1.length e.1 + 4 + entryBound e).sum ≤ text.length := by
  have hb : List.Forall₂ (fun m b => ∀ out, encodeValue sc m.2 (depth + 1) = .ok out → b ≤ out.length)
      (entries.map fun e => (e.1, Value.obj e.2)) (entries.map entryBound) := by
    rw [List.forall₂_map_left_iff, List.forall₂_map_right_iff]
    exact List.forall₂_same.2 fun e _ out hout => entryBound_le hout e.1
  have := encodeObj_length h hb
  simpa [List.sum_map_add, Function.comp_def] using this

theorem of_tooLargeFrom {limit total : ℕ} (h : tooLargeFrom limit total entries = true) :
    limit < total + (entries.map fun e => runeCount e.1.length e.1 + 4 + entryBound e).sum := by
  induction entries generalizing total with
  | nil => cases h
  | cons e rest ih =>
    obtain ⟨_, _⟩ := e
    simp only [tooLargeFrom] at h
    simp only [List.map_cons, List.sum_cons, entryBound] at ih ⊢
    split_ifs at h with hlimit
    · omega
    · have := ih h
      omega

/-- A catalogue that is refused for its size has a snapshot over the limit. -/
theorem refused_snapshot_too_long (sc : Strconv) (provider : Provider) (fetchedAt : List ℕ)
    (extra : List (List ℕ × Value)) (relays : List (List ℕ × Relay)) (limit : ℕ) (text : List ℕ)
    (h : snapshotTooLarge (.ofRelays relays) limit = true)
    (hwritten : marshalJSON sc (.obj (kept provider fetchedAt extra ++
      [(key "relays", Entries.value (.ofRelays relays))])) = .ok text) : limit < text.length := by
  have hb : List.Forall₂ (fun m b => ∀ out, encodeValue sc m.2 1 = .ok out → b ≤ out.length)
      (kept provider fetchedAt extra ++ [(key "relays", Entries.value (.ofRelays relays))])
      ((kept provider fetchedAt extra).map (fun _ => 0) ++
        [((Entries.ofRelays relays).map fun e => runeCount e.1.length e.1 + 4 + entryBound e).sum]) := by
    refine List.rel_append (List.forall₂_map_right_iff.2 (List.forall₂_same.2 fun _ _ _ _ => Nat.zero_le _)) ?_
    exact .cons (fun out hout => entries_length hout) .nil
  have hlength := encodeObj_length hwritten hb
  have hcount := of_tooLargeFrom h
  simp only [List.sum_append, List.sum_cons, List.sum_nil] at hlength
  omega

/-- A hostname of a quote, which is escaped, and a letter of two bytes, and a second relay. -/
def twoRelays : List (List ℕ × Relay) := [([0x61], { hostname := [0x22, 0xC3, 0xA9] }), ([0x62], {})]

/-- Refused at 150 bytes for the two of them. -/
theorem refused_snapshot_two : snapshotTooLarge (.ofRelays (twoRelays.take 1)) 150 = false ∧
    ∃ text, marshalJSON ordinalStrconv (.obj (kept ⟨[], fun _ _ => none, 150⟩ [] [] ++
      [(key "relays", Entries.value (.ofRelays twoRelays))])) = .ok text ∧ 150 < text.length := by
  refine ⟨by decide +kernel, ?_⟩
  have hwritten : (marshalJSON ordinalStrconv (.obj (kept ⟨[], fun _ _ => none, 150⟩ [] [] ++
      [(key "relays", Entries.value (.ofRelays twoRelays))]))).toOption.isSome = true := by decide +kernel
  cases htext : marshalJSON ordinalStrconv (.obj (kept ⟨[], fun _ _ => none, 150⟩ [] [] ++
      [(key "relays", Entries.value (.ofRelays twoRelays))])) with
  | error e =>
    rw [htext] at hwritten
    cases hwritten
  | ok text =>
    exact ⟨text, rfl, refused_snapshot_too_long ordinalStrconv ⟨[], fun _ _ => none, 150⟩ [] [] twoRelays 150 text
      (by decide +kernel) htext⟩

end Molebridge.Providers
