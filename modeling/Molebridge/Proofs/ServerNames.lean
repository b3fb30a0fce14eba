import Molebridge.Proofs.VerdictOk

/-! The names the providers take for servers: printable ASCII, short enough to be
reported whole and without an escape. -/

namespace Molebridge

def Printable (c : Char) : Prop := 32 ≤ c.toNat ∧ c.toNat < 127

/-- A name that is reported as it is. -/
structure PlainName (s : String) : Prop where
  ne_empty : s ≠ ""
  length : s.toList.length ≤ 256
  printable : ∀ c ∈ s.toList, Printable c

theorem printable_of_le {a b c : Char} (ha : 32 ≤ a.toNat) (hb : b.toNat < 127) (h₁ : a ≤ c) (h₂ : c ≤ b) :
    Printable c := by
  have h₁' : a.toNat ≤ c.toNat := h₁
  have h₂' : c.toNat ≤ b.toNat := h₂
  exact ⟨ha.trans h₁', h₂'.trans_lt hb⟩

theorem printable_of_isLowerDigit {c : Char} (h : isLowerDigit c = true) : Printable c := by
  simp only [isLowerDigit, isLower, isDigit, Bool.or_eq_true, Bool.and_eq_true, decide_eq_true_eq] at h
  rcases h with ⟨h₁, h₂⟩ | ⟨h₁, h₂⟩
  · exact printable_of_le (by decide) (by decide) h₁ h₂
  · exact printable_of_le (by decide) (by decide) h₁ h₂

variable {s : String}

theorem ne_empty_of_length (h : 1 ≤ s.toList.length) : s ≠ "" := by
  rintro rfl
  cases h

theorem plainName_mullvad (h : mullvadHostname s = true) : PlainName s := by
  simp only [mullvadHostname, Bool.and_eq_true, decide_eq_true_eq, beq_iff_eq, List.all_eq_true] at h
  obtain ⟨⟨⟨⟨⟨_, _⟩, hhead⟩, htag⟩, hlen⟩, hdigits⟩ := h
  set n := s.toList.length - 7
  have hsplit : s.toList = s.toList.take n ++ ((s.toList.drop n).take 4 ++ (s.toList.drop n).drop 4) := by
    rw [List.take_append_drop, List.take_append_drop]
  refine ⟨ne_empty_of_length ?_, ?_, fun c hc => ?_⟩
  · rw [hsplit, List.length_append]
    omega
  · rw [hsplit, List.length_append, List.length_append, hlen, htag]
    simp only [List.length_cons, List.length_nil]
    omega
  · rw [hsplit, htag] at hc
    simp only [List.mem_append, List.mem_cons, List.not_mem_nil, or_false] at hc
    rcases hc with hc | (rfl | rfl | rfl | rfl) | hc
    · rcases Bool.or_eq_true _ _ ▸ hhead c hc with h | h
      · exact printable_of_isLowerDigit h
      · obtain rfl := beq_iff_eq.1 h
        exact ⟨by decide, by decide⟩
    · exact ⟨by decide, by decide⟩
    · exact ⟨by decide, by decide⟩
    · exact ⟨by decide, by decide⟩
    · exact ⟨by decide, by decide⟩
    · exact printable_of_isLowerDigit (by simp [isLowerDigit, hdigits c hc])

theorem plainName_pia (h : piaRegion s = true) : PlainName s := by
  unfold piaRegion at h
  cases hs : s.toList with
  | nil => simp [hs] at h
  | cons c rest =>
    simp only [hs, Bool.and_eq_true, decide_eq_true_eq, List.all_eq_true] at h
    obtain ⟨⟨hc, _⟩, hrest⟩ := h
    refine ⟨ne_empty_of_length (by simp [hs]), ?_, ?_⟩
    · rw [hs, List.length_cons]
      omega
    · rw [hs]
      refine List.forall_mem_cons.2 ⟨printable_of_isLowerDigit hc, fun x hx => ?_⟩
      have hx' := hrest x hx
      simp only [Bool.or_eq_true, beq_iff_eq] at hx'
      rcases hx' with (hx' | rfl) | rfl
      · exact printable_of_isLowerDigit hx'
      · exact ⟨by decide, by decide⟩
      · exact ⟨by decide, by decide⟩

theorem mem_intercalate {α : Type} {x c : α} {ls : List (List α)} (h : c ∈ [x].intercalate ls) :
    c = x ∨ ∃ l ∈ ls, c ∈ l := by
  induction ls with
  | nil => cases h
  | cons l rest ih =>
    cases rest with
    | nil => exact .inr ⟨l, by simp, by simpa [List.intercalate] using h⟩
    | cons l' rest =>
      rw [List.intercalate, List.intersperse_cons_cons, List.flatten_cons, List.flatten_cons] at h
      simp only [List.mem_append, List.mem_singleton] at h
      rcases h with h | rfl | h
      · exact .inr ⟨l, by simp, h⟩
      · exact .inl rfl
      · rcases ih h with h | ⟨m, hm, hc⟩
        · exact .inl h
        · exact .inr ⟨m, .tail _ hm, hc⟩

theorem plainName_gluetun (h : gluetunHostname s = true) : PlainName s := by
  simp only [gluetunHostname, Bool.and_eq_true, decide_eq_true_eq, List.all_eq_true] at h
  obtain ⟨hlen, hlabels⟩ := h
  refine ⟨?_, hlen.trans (by decide), fun c hc => ?_⟩
  · rintro rfl
    have := hlabels [] (by simp)
    simp [dnsLabel] at this
  · rw [← @List.intercalate_splitOn _ s.toList _ _ '.'] at hc
    rcases mem_intercalate hc with rfl | ⟨l, hl, hc⟩
    · exact ⟨by decide, by decide⟩
    · have hlabel := hlabels l hl
      simp only [dnsLabel, Bool.and_eq_true, List.all_eq_true] at hlabel
      rcases Bool.or_eq_true _ _ ▸ hlabel.1.1.2 c hc with h | h
      · exact printable_of_isLowerDigit h
      · obtain rfl := beq_iff_eq.1 h
        exact ⟨by decide, by decide⟩

theorem plain_nordNumber {cs : List Char} (hlo : 1 ≤ (cs.takeWhile isDigit).length)
    (hhi : (cs.takeWhile isDigit).length ≤ 5) (hrest : cs.dropWhile isDigit = ".nordvpn.com".toList) :
    cs.length ≤ 17 ∧ ∀ c ∈ cs, Printable c := by
  have hsplit : cs = cs.takeWhile isDigit ++ ".nordvpn.com".toList := by
    rw [← hrest, List.takeWhile_append_dropWhile]
  constructor
  · rw [hsplit, List.length_append]
    have : ".nordvpn.com".toList.length = 12 := by decide
    omega
  · intro c hc
    rw [hsplit] at hc
    rcases List.mem_append.1 hc with hc | hc
    · exact printable_of_isLowerDigit (by simp [isLowerDigit, List.all_eq_true.1 List.all_takeWhile c hc])
    · have hall : (".nordvpn.com".toList.all fun c => decide (32 ≤ c.toNat ∧ c.toNat < 127)) = true := by decide
      have hc := List.all_eq_true.1 hall c hc
      rwa [decide_eq_true_iff] at hc

theorem plainName_nord (h : nordHostname s = true) : PlainName s := by
  have hlower : ∀ {c}, isLower c = true → Printable c := fun h =>
    printable_of_isLowerDigit (by simp [isLowerDigit, h])
  unfold nordHostname at h
  split at h
  · rename_i a b c d rest hs
    simp only [Bool.and_eq_true, decide_eq_true_eq, beq_iff_eq] at h
    obtain ⟨⟨⟨⟨ha, hb⟩, hc⟩, hd⟩, ⟨hlo, hhi⟩, htail⟩ := h
    obtain ⟨_, hall⟩ := plain_nordNumber hlo hhi htail
    refine ⟨ne_empty_of_length (by simp [hs]), ?_, ?_⟩
    · simp only [hs, List.length_cons]
      omega
    · simp only [hs, List.forall_mem_cons]
      exact ⟨hlower ha, hlower hb, ⟨by decide, by decide⟩, hlower hc, hlower hd, hall⟩
  · rename_i a b rest hne hs
    simp only [Bool.and_eq_true, decide_eq_true_eq, beq_iff_eq] at h
    obtain ⟨⟨ha, hb⟩, ⟨hlo, hhi⟩, htail⟩ := h
    obtain ⟨_, hall⟩ := plain_nordNumber hlo hhi htail
    refine ⟨ne_empty_of_length (by simp [hs]), ?_, ?_⟩
    · simp only [hs, List.length_cons]
      omega
    · simp only [hs, List.forall_mem_cons]
      exact ⟨hlower ha, hlower hb, hall⟩
  · cases h

theorem plainName_of_validServerName {provider : String} (h : validServerName (.str s) provider = true) :
    PlainName s := by
  unfold validServerName at h
  cases hp : lookupProvider provider with
  | none => simp [hp] at h
  | some p =>
    replace h : p.serverName s = true := by simpa [hp] using h
    have hmem : p ∈ registry := List.mem_of_find?_eq_some hp
    rcases List.mem_append.1 hmem with hmem | hmem
    · fin_cases hmem
      · exact plainName_mullvad h
      · exact plainName_pia h
      · exact plainName_nord h
    · obtain ⟨_, -, rfl⟩ := List.mem_map.1 hmem
      exact plainName_gluetun h

theorem configuredServer_plain {u : Unicode} {record : Members} (h : PlainName s)
    (hget : record.get "configured_server" = .str s) : configuredServer u (.obj record) = some s := by
  have hescape : s.toList.flatMap (escapeChar u) = s.toList := by
    have : ∀ c ∈ s.toList, escapeChar u c = [c] := by
      intro c hc
      obtain ⟨hlo, hhi⟩ := h.printable c hc
      simp [escapeChar, u.ascii c (by omega), hlo, hhi]
    calc s.toList.flatMap (escapeChar u) = s.toList.flatMap fun c => [c] := List.flatMap_congr this
      _ = s.toList := by simp
  have htake : s.toList.take 256 = s.toList := List.take_of_length_le h.length
  unfold configuredServer
  simp only [Json.object_obj, hget, Json.string_str, Option.bind_eq_bind, Option.bind_some, h.ne_empty]
  rw [htake, hescape, htake, String.ofList_toList]
  rfl
end Molebridge
