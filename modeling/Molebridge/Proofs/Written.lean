import Molebridge.Spec.Encode
import Molebridge.Proofs.Lexed

/-! What the encoder writes for a string, an integer or a float is one of the grammar that
stands for that string, integer or float. -/

namespace Molebridge.Validate

open Utf8 Rfc8259

variable {c : ℕ} {cs : List ℕ} {f : BitVec 64}

/-! ### Strings -/

def charText (c : ℕ) : List ℕ := if c < 0x80 then asciiText c else runeText c

theorem decodeRune_surrogate (h : IsSurrogate c) (rest : List ℕ) : decodeRune (encode c ++ rest) = none := by
  cases hdecode : decodeRune (encode c ++ rest) with
  | none => rfl
  | some found =>
    obtain ⟨hd, hbytes⟩ := eq_encode_of_decodeRune hdecode
    obtain ⟨rfl, -⟩ := encode_append_inj hbytes
    exact absurd h hd.2

theorem nextRune_encode (hc : IsCodePoint c) (rest : List ℕ) : nextRune (encode c ++ rest) = some (c, rest) := by
  unfold nextRune
  by_cases hsurrogate : IsSurrogate c
  · rw [decodeRune_surrogate hsurrogate]
    obtain ⟨_, _⟩ := hsurrogate
    have hencode : encode c = [0xED, 0x80 + c / 0x40 % 0x40, 0x80 + c % 0x40] := by
      unfold encode
      rw [if_neg (by omega), if_neg (by omega), if_pos (by omega)]
      congr 1
      omega
    simp only [hencode, List.cons_append, List.nil_append]
    rw [if_pos (by omega)]
    simp only [Option.some.injEq, Prod.mk.injEq, and_true]
    omega
  · rw [decodeRune_encode ⟨hc, hsurrogate⟩]

theorem strLoop_encodeAll (hcs : ∀ c ∈ cs, IsCodePoint c) {fuel : ℕ} (hfuel : (encodeAll cs).length ≤ fuel) :
    strLoop fuel (encodeAll cs) = .ok (cs.flatMap charText) := by
  induction cs generalizing fuel with
  | nil => cases fuel <;> rfl
  | cons c cs ih =>
    obtain ⟨hc, hcs⟩ := List.forall_mem_cons.1 hcs
    obtain ⟨first, _, hencode⟩ := List.exists_cons_of_ne_nil (encode_ne_nil c)
    rw [encodeAll_cons, List.length_append, hencode, List.length_cons] at hfuel
    cases fuel with
    | zero => omega
    | succ fuel =>
      by_cases hascii : c < 0x80
      · rw [encodeAll_cons, encode_ascii hascii, List.singleton_append, strLoop, if_pos hascii, ih hcs (by omega)]
        simp [charText, if_pos hascii]
      · have hfirst := (encode_high (not_lt.1 hascii) hc first (hencode ▸ (.head _))).1
        have hnext := nextRune_encode hc (encodeAll cs)
        rw [hencode, List.cons_append] at hnext
        rw [encodeAll_cons, hencode, List.cons_append, strLoop, if_neg (by omega), hnext]
        have hrest := @ih hcs fuel (by omega)
        simp [hrest, charText, if_neg hascii]

theorem hexDigit_hexChar {d : ℕ} (h : d < 16) : hexDigit (hexChar d) = some d := by
  interval_cases d <;> rfl

theorem hex4_u4 {r : ℕ} (h : r < 0x10000) :
    Rfc8259.hex4 (hexChar (r / 0x1000 % 16)) (hexChar (r / 0x100 % 16)) (hexChar (r / 0x10 % 16)) (hexChar (r % 16)) = some r := by
  unfold Rfc8259.hex4
  rw [hexDigit_hexChar (by omega), hexDigit_hexChar (by omega), hexDigit_hexChar (by omega), hexDigit_hexChar (by omega)]
  simp only [Option.some.injEq]
  omega

theorem lowEscape_u4 {r : ℕ} (rest : List ℕ) (h : r < 0x10000) :
    lowEscape (u4 r ++ rest) = if IsLow r then some (r, rest) else none := by
  simp [u4, lowEscape, hex4_u4 h]

theorem asciiText_cases (hc : c < 0x80) :
    (∃ e, shortEscape e = some c ∧ asciiText c = [0x5C, e]) ∨ asciiText c = u4 c ∨
      (0x20 ≤ c ∧ c ≠ 0x22 ∧ c ≠ 0x5C) ∧ asciiText c = [c] := by
  unfold asciiText
  split_ifs with h1 h2 h3 h4 h5 h6 h7 h8
  · exact .inl ⟨0x22, by rw [h1]; rfl, rfl⟩
  · exact .inl ⟨0x5C, by rw [h2]; rfl, rfl⟩
  · exact .inl ⟨0x6E, by rw [h3]; rfl, rfl⟩
  · exact .inl ⟨0x72, by rw [h4]; rfl, rfl⟩
  · exact .inl ⟨0x74, by rw [h5]; rfl, rfl⟩
  · exact .inl ⟨0x62, by rw [h6]; rfl, rfl⟩
  · exact .inl ⟨0x66, by rw [h7]; rfl, rfl⟩
  · exact .inr (.inl rfl)
  · exact .inr (.inr ⟨⟨by omega, h1, h2⟩, rfl⟩)

/-- No text of a code point begins as an escape of a low surrogate, but that of one. -/
theorem lowEscape_charText (hlow : ¬ IsLow c) (rest : List ℕ) : lowEscape (charText c ++ rest) = none := by
  have hu4 (r : ℕ) (rest : List ℕ) (hr : r < 0x10000) (hlow : ¬ IsLow r) : lowEscape (u4 r ++ rest) = none := by
    rw [lowEscape_u4 rest hr, if_neg hlow]
  unfold charText
  split_ifs with hascii
  · rcases asciiText_cases hascii with ⟨e, hshort, htext⟩ | htext | ⟨⟨-, -, hback⟩, htext⟩
    · rw [htext]
      rcases shortEscape_cases hshort with h | h | h | h | h | h | h | h <;> rw [h.1] <;> rfl
    · rw [htext]
      exact hu4 c rest (by omega) hlow
    · rw [htext]
      unfold lowEscape
      split
      · next h => exact absurd (List.cons.inj h).1 hback
      · rfl
  · unfold runeText
    split_ifs with hplane
    · refine hu4 _ _ (by omega) fun h => ?_
      have := h.1
      omega
    · exact hu4 c rest (by omega) hlow

theorem chars_flatMap (hcs : ∀ c ∈ cs, IsCodePoint c) (hpair : NoPair cs) : Chars (cs.flatMap charText) cs := by
  induction cs with
  | nil => exact .nil
  | cons c cs ih =>
    obtain ⟨hc, hcs⟩ := List.forall_mem_cons.1 hcs
    have hrest := ih hcs hpair.2
    have halone : IsHigh c → lowEscape (cs.flatMap charText) = none := by
      intro hhigh
      cases cs with
      | nil => rfl
      | cons d cs =>
        exact lowEscape_charText (hpair.1 hhigh d rfl) _
    rw [List.flatMap_cons]
    unfold charText
    split_ifs with hascii
    · rcases asciiText_cases hascii with ⟨e, hshort, htext⟩ | htext | ⟨⟨hcontrol, hquote, hback⟩, htext⟩
      · rw [htext]
        exact .escape hshort hrest
      · rw [htext]
        exact .unit (hex4_u4 (by omega)) halone hrest
      · rw [htext]
        exact .unescaped (isScalar_of_ascii hascii) hcontrol hquote hback hrest
    · unfold runeText
      split_ifs with hplane
      · have hjoined : joined (0xD800 + (c - 0x10000) / 0x400 % 0x400) (0xDC00 + (c - 0x10000) % 0x400) = c := by
          unfold IsCodePoint at hc
          unfold joined
          omega
        have hpaired : Chars (u4 (0xD800 + (c - 0x10000) / 0x400 % 0x400) ++ (u4 (0xDC00 + (c - 0x10000) % 0x400) ++ cs.flatMap charText))
            (joined (0xD800 + (c - 0x10000) / 0x400 % 0x400) (0xDC00 + (c - 0x10000) % 0x400) :: cs) := by
          refine .pair (hex4_u4 (by omega)) ⟨by omega, by omega⟩ ?_ hrest
          exact (lowEscape_u4 _ (by omega)).trans (if_pos ⟨by omega, by omega⟩)
        rwa [hjoined] at hpaired
      · exact .unit (hex4_u4 (by omega)) halone hrest

/-! ### Integers -/

theorem digitsValue_singleton {d : ℕ} : digitsValue [0x30 + d] = d := by simp [digitsValue]

theorem digitsValue_ofDigits (l : List ℕ) : digitsValue (l.reverse.map (0x30 + ·)) = Nat.ofDigits 10 l := by
  induction l with
  | nil => rfl
  | cons d l ih =>
    rw [List.reverse_cons, List.map_append, List.map_singleton, digitsValue_append, ih, digitsValue_singleton, Nat.ofDigits_cons]
    simp only [List.length_singleton]
    ring

theorem natText_value (n : ℕ) : digitsValue (natText n) = n := by
  unfold natText
  split_ifs with h
  · rw [h]
    rfl
  · rw [digitsValue_ofDigits, Nat.ofDigits_digits]

theorem natText_isDigits (n : ℕ) : IsDigits (natText n) := by
  unfold natText
  split_ifs with h
  · exact ⟨by decide, by decide⟩
  · refine ⟨by simp [Nat.digits_ne_nil_iff_ne_zero.2 h], fun c hc => ?_⟩
    obtain ⟨d, hd, rfl⟩ := List.mem_map.1 hc
    have := Nat.digits_lt_base (by decide) (List.mem_reverse.1 hd)
    simp only [Rfc8259.isDigit, Bool.and_eq_true, decide_eq_true_eq]
    omega

theorem natText_isInt (n : ℕ) : natText n = [0x30] ∨ IsDigits (natText n) ∧ (natText n).head? ≠ some 0x30 := by
  by_cases h : n = 0
  · exact .inl (if_pos h)
  · refine .inr ⟨natText_isDigits n, ?_⟩
    have hne : Nat.digits 10 n ≠ [] := Nat.digits_ne_nil_iff_ne_zero.2 h
    have hlast := Nat.getLast_digit_ne_zero 10 h
    unfold natText
    rw [if_neg h, List.head?_map, List.head?_reverse, List.getLast?_eq_some_getLast hne]
    simpa using hlast

theorem natText_length {n k : ℕ} (hk : 0 < k) (h : n < 10 ^ k) : (natText n).length ≤ k := by
  unfold natText
  split_ifs
  · exact hk
  · rw [List.length_map, List.length_reverse]
    exact (Nat.digits_length_le_iff (by decide) n).2 h

def intNumber (n : ℤ) : Number where
  neg := decide (n < 0)
  int := natText n.natAbs
  frac := none
  exp := none
  isInt := natText_isInt n.natAbs
  isFrac := fun _ h => nomatch h

theorem intNumber_text (n : ℤ) : (intNumber n).text = intText n := by
  unfold Number.text Number.signText Number.fracText Number.expText intNumber intText
  by_cases h : n < 0 <;> simp [h]

theorem intNumber_value (pf : ParseFloat) (n : ℤ) : numberValue pf (intNumber n) = .int n := by
  have hsigned : signed (intNumber n) = n := by
    unfold signed intNumber
    rw [show natOfDigits = digitsValue from rfl, natText_value]
    simp only [decide_eq_true_eq]
    split_ifs <;> omega
  have hinteger : (intNumber n).isInteger = true := rfl
  unfold numberValue
  rw [if_pos hinteger, hsigned]

/-! ### Floats -/

theorem toNat_magnitude (f : BitVec 64) : (f &&& 0x7fffffffffffffff).toNat = f.toNat % 2 ^ 63 := by
  exact Nat.and_two_pow_sub_one_eq_mod f.toNat 63

theorem isZero_cases (h : isZero f = true) : f = if signbit f then 0x8000000000000000 else 0 := by
  have hmod : f.toNat % 2 ^ 63 = 0 := by
    rw [← toNat_magnitude, beq_iff_eq.1 h]
    rfl
  apply BitVec.eq_of_toNat_eq
  unfold signbit
  rw [BitVec.msb_eq_decide]
  simp only [decide_eq_true_eq]
  split_ifs with hsign
  · change f.toNat = 2 ^ 63
    omega
  · change f.toNat = 0
    omega

theorem twoDigits_value (n : ℕ) : digitsValue (twoDigits n) = n := by
  unfold twoDigits
  split_ifs
  · rw [← List.singleton_append, digitsValue_append, natText_value]
    simp [digitsValue]
  · exact natText_value n

theorem twoDigits_isDigits (n : ℕ) : IsDigits (twoDigits n) := by
  unfold twoDigits
  split_ifs
  · exact ⟨List.cons_ne_nil _ _, List.forall_mem_cons.2 ⟨by decide, (natText_isDigits n).2⟩⟩
  · exact natText_isDigits n

/-- It is a number with the sign and the worth of the shortest text, in another notation. -/
def Writes (s : Shortest) (text : List ℕ) : Prop :=
  ∃ n : Number, n.isInteger = false ∧ n.neg = s.neg ∧ n.magnitude = s.magnitude ∧ n.text = text

theorem Shortest.head_take (s : Shortest) {k : ℕ} (hk : 0 < k) : IsDigits (s.digits.take k) ∧ (s.digits.take k).head? ≠ some 0x30 := by
  obtain ⟨hne, hdigits⟩ := s.isDigits
  have hleads := s.leads
  obtain ⟨d, _, hds⟩ := List.exists_cons_of_ne_nil hne
  obtain ⟨k, rfl⟩ := Nat.exists_eq_succ_of_ne_zero hk.ne'
  refine ⟨⟨?_, fun c hc => hdigits c (List.mem_of_mem_take hc)⟩, ?_⟩
  · rw [hds]
    exact List.cons_ne_nil _ _
  · rw [hds] at hleads ⊢
    exact hleads

theorem writes_scientific (s : Shortest) : Writes s ((if s.neg then [0x2D] else []) ++ s.digits.take 1 ++
    (if 1 < s.digits.length then 0x2E :: s.digits.drop 1 else []) ++
      0x65 :: (if s.exponent < 0 then 0x2D else 0x2B) :: twoDigits s.exponent.natAbs) := by
  obtain ⟨hne, hdigits⟩ := s.isDigits
  have hlength : 0 < s.digits.length := List.length_pos_iff.2 hne
  have hdrop : 1 < s.digits.length → IsDigits (s.digits.drop 1) := fun h =>
    ⟨List.ne_nil_of_length_pos (by rw [List.length_drop]; omega), fun c hc => hdigits c (List.mem_of_mem_drop hc)⟩
  let e : Exp := ⟨0x65, [if s.exponent < 0 then 0x2D else 0x2B], twoDigits s.exponent.natAbs, .inl rfl, by split_ifs <;> simp,
    twoDigits_isDigits _⟩
  have he : e.value = s.exponent := by
    by_cases hneg : s.exponent < 0
    · simp only [Exp.value, e, twoDigits_value, if_pos hneg, if_true]
      omega
    · simp only [Exp.value, e, twoDigits_value, if_neg hneg, List.cons.injEq]
      omega
  by_cases hone : 1 < s.digits.length
  · refine ⟨⟨s.neg, s.digits.take 1, some (s.digits.drop 1), some e, .inr (s.head_take Nat.one_pos), ?_⟩, rfl, rfl, ?_, ?_⟩
    · rintro _ ⟨rfl⟩
      exact hdrop hone
    · simp only [Number.magnitude, Option.getD_some, List.take_append_drop, Option.elim, List.length_drop]
      congr 2
      omega
    · simp [Number.text, Number.signText, Number.fracText, Number.expText, Option.elim, Exp.text, e, if_pos hone]
  · refine ⟨⟨s.neg, s.digits.take 1, none, some e, .inr (s.head_take Nat.one_pos), fun _ h => nomatch h⟩, rfl, rfl, ?_, ?_⟩
    · have htake : s.digits.take 1 = s.digits := List.take_of_length_le (not_lt.1 hone)
      simp only [Number.magnitude, Option.getD_none, List.append_nil, htake, Option.elim, List.length_nil]
      congr 2
      omega
    · simp [Number.text, Number.signText, Number.fracText, Number.expText, Option.elim, Exp.text, e, if_neg hone]

theorem writes_small (s : Shortest) (h : s.exponent + 1 ≤ 0) :
    Writes s ((if s.neg then [0x2D] else []) ++ [0x30, 0x2E] ++ List.replicate (-(s.exponent + 1)).toNat 0x30 ++ s.digits) := by
  obtain ⟨hne, hdigits⟩ := s.isDigits
  refine ⟨⟨s.neg, [0x30], some (List.replicate (-(s.exponent + 1)).toNat 0x30 ++ s.digits), none, .inl rfl, ?_⟩, rfl, rfl, ?_, ?_⟩
  · rintro _ ⟨rfl⟩
    refine ⟨by simp [hne], List.forall_mem_append.2 ⟨fun c hc => ?_, hdigits⟩⟩
    rw [List.eq_of_mem_replicate hc]
    rfl
  · have hzeros : digitsValue ([0x30] ++ List.replicate (-(s.exponent + 1)).toNat 0x30) = 0 := by
      exact digitsValue_zeros _
    simp only [Number.magnitude, Option.getD_some, Option.elim]
    rw [← List.append_assoc, digitsValue_append, hzeros, zero_mul, zero_add]
    congr 2
    simp only [List.length_append, List.length_replicate]
    omega
  · simp [Number.text, Number.signText, Number.fracText, Number.expText]

theorem writes_large (s : Shortest) (h : s.digits.length ≤ s.exponent + 1) :
    Writes s ((if s.neg then [0x2D] else []) ++ s.digits ++ List.replicate (s.exponent + 1 - s.digits.length).toNat 0x30 ++
      [0x2E, 0x30]) := by
  obtain ⟨hne, hdigits⟩ := s.isDigits
  obtain ⟨d, _, hds⟩ := List.exists_cons_of_ne_nil hne
  have hint : IsDigits (s.digits ++ List.replicate (s.exponent + 1 - s.digits.length).toNat 0x30) := by
    refine ⟨by simp [hne], List.forall_mem_append.2 ⟨hdigits, fun c hc => ?_⟩⟩
    rw [List.eq_of_mem_replicate hc]
    rfl
  have hhead : (s.digits ++ List.replicate (s.exponent + 1 - s.digits.length).toNat 0x30).head? ≠ some 0x30 := by
    have hleads := s.leads
    rw [hds] at hleads ⊢
    exact hleads
  refine ⟨⟨s.neg, _, some [0x30], none, .inr ⟨hint, hhead⟩, ?_⟩, rfl, rfl, ?_, ?_⟩
  · rintro _ ⟨rfl⟩
    exact ⟨by decide, by decide⟩
  · obtain ⟨k, hk⟩ : ∃ k : ℕ, s.exponent + 1 - s.digits.length = k := ⟨_, (Int.toNat_of_nonneg (by omega)).symm⟩
    simp only [Number.magnitude, Shortest.magnitude, Option.getD_some]
    rw [digitsValue_append, digitsValue_append, digitsValue_zeros, hk]
    have hzero : digitsValue [0x30] = 0 := rfl
    rw [hzero]
    norm_num
    ring
  · simp [Number.text, Number.signText, Number.fracText, Number.expText]

theorem writes_mixed (s : Shortest) (h : 0 < s.exponent + 1) (hlength : s.exponent + 1 < s.digits.length) :
    Writes s ((if s.neg then [0x2D] else []) ++ s.digits.take (s.exponent + 1).toNat ++ 0x2E :: s.digits.drop (s.exponent + 1).toNat) := by
  obtain ⟨-, hdigits⟩ := s.isDigits
  refine ⟨⟨s.neg, s.digits.take (s.exponent + 1).toNat, some (s.digits.drop (s.exponent + 1).toNat), none,
    .inr (s.head_take (by omega)), ?_⟩, rfl, rfl, ?_, ?_⟩
  · rintro _ ⟨rfl⟩
    exact ⟨List.ne_nil_of_length_pos (by rw [List.length_drop]; omega), fun c hc => hdigits c (List.mem_of_mem_drop hc)⟩
  · simp only [Number.magnitude, Option.getD_some, List.take_append_drop, Option.elim, List.length_drop]
    congr 2
    omega
  · simp [Number.text, Number.signText, Number.fracText, Number.expText]

theorem formatFloat_number (sc : Strconv) (hf : isFinite f = true) :
    ∃ n : Number, n.text = formatFloat sc f ∧ numberValue sc.toParseFloat n = .float f := by
  have hread {n : Number} (hinteger : n.isInteger = false) (hparse : sc.parse n.text = some f) :
      numberValue sc.toParseFloat n = .float f := by
    unfold numberValue
    rw [hinteger, hparse]
    rfl
  unfold formatFloat
  cases hzero : isZero f with
  | true =>
    let n : Number := ⟨signbit f, [0x30], some [0x30], none, .inl rfl, by rintro _ ⟨rfl⟩; exact ⟨by decide, by decide⟩⟩
    have hmagnitude : n.magnitude = 0 := by simp [Number.magnitude, n, digitsValue]
    have hparse : sc.parse n.text = some f := by
      rw [sc.zero n rfl hmagnitude, Option.some_inj]
      exact (isZero_cases hzero).symm
    refine ⟨n, ?_, hread rfl hparse⟩
    have htext : n.text = (if signbit f then [0x2D] else []) ++ [0x30, 0x2E, 0x30] := by
      simp [Number.text, Number.signText, Number.fracText, Number.expText, n]
    rw [htext, if_pos rfl]
    split_ifs <;> rfl
  | false =>
    have hwrites {text : List ℕ} (h : Writes (sc.shortest f) text) :
        ∃ n : Number, n.text = text ∧ numberValue sc.toParseFloat n = .float f := by
      obtain ⟨n, hinteger, hneg, hmagnitude, rfl⟩ := h
      exact ⟨n, rfl, hread hinteger (sc.reads f hf hzero n hinteger hneg hmagnitude)⟩
    by_cases hfar : 16 < (sc.shortest f).exponent + 1 ∨ (sc.shortest f).exponent + 1 < -3
    · simp only [if_pos hfar]
      exact hwrites (writes_scientific _)
    by_cases hsmall : (sc.shortest f).exponent + 1 ≤ 0
    · simp only [if_neg hfar, if_pos hsmall]
      exact hwrites (writes_small _ hsmall)
    by_cases hlarge : (sc.shortest f).digits.length ≤ (sc.shortest f).exponent + 1
    · simp only [if_neg hfar, if_neg hsmall, if_pos hlarge]
      exact hwrites (writes_large _ hlarge)
    · simp only [if_neg hfar, if_neg hsmall, if_neg hlarge]
      exact hwrites (writes_mixed _ (by omega) (by omega))

end Molebridge.Validate
