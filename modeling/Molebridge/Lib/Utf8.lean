import Mathlib.Tactic

/-! UTF-8 over lists of bytes: code points are natural numbers below 0x110000, and the
surrogates among them are written the same way (WTF-8) but are no part of a valid text.
A byte above 0xff is in no text. -/

namespace Molebridge.Utf8

def IsSurrogate (c : ℕ) : Prop := 0xD800 ≤ c ∧ c < 0xE000

instance (c : ℕ) : Decidable (IsSurrogate c) := inferInstanceAs (Decidable (_ ∧ _))

def IsCodePoint (c : ℕ) : Prop := c < 0x110000

def IsScalar (c : ℕ) : Prop := c < 0x110000 ∧ ¬ IsSurrogate c

def encode (c : ℕ) : List ℕ :=
  if c < 0x80 then [c]
  else if c < 0x800 then [0xC0 + c / 0x40, 0x80 + c % 0x40]
  else if c < 0x10000 then [0xE0 + c / 0x1000, 0x80 + c / 0x40 % 0x40, 0x80 + c % 0x40]
  else [0xF0 + c / 0x40000, 0x80 + c / 0x1000 % 0x40, 0x80 + c / 0x40 % 0x40, 0x80 + c % 0x40]

def encodeAll (cs : List ℕ) : List ℕ := cs.flatMap encode

def isTail (b : ℕ) : Bool := 0x80 ≤ b && b ≤ 0xBF

/-- The second byte after each first byte of three. -/
def second3 (a b : ℕ) : Bool :=
  if a = 0xE0 then 0xA0 ≤ b && b ≤ 0xBF
  else if a = 0xED then 0x80 ≤ b && b ≤ 0x9F
  else 0xE1 ≤ a && a ≤ 0xEF && isTail b

/-- The second byte after each first byte of four. -/
def second4 (a b : ℕ) : Bool :=
  if a = 0xF0 then 0x90 ≤ b && b ≤ 0xBF
  else if a = 0xF4 then 0x80 ≤ b && b ≤ 0x8F
  else 0xF1 ≤ a && a ≤ 0xF3 && isTail b

/-- The first character of a text, and the rest; none where the bytes are not UTF-8. -/
def decodeRune : List ℕ → Option (ℕ × List ℕ)
  | [] => none
  | a :: rest =>
    if a < 0x80 then some (a, rest)
    else match rest with
      | [] => none
      | b :: rest =>
        if 0xC2 ≤ a && a ≤ 0xDF && isTail b then some ((a - 0xC0) * 0x40 + (b - 0x80), rest)
        else match rest with
          | [] => none
          | c :: rest =>
            if second3 a b && isTail c then some ((a - 0xE0) * 0x1000 + (b - 0x80) * 0x40 + (c - 0x80), rest)
            else match rest with
              | [] => none
              | d :: rest =>
                if second4 a b && isTail c && isTail d then
                  some ((a - 0xF0) * 0x40000 + (b - 0x80) * 0x1000 + (c - 0x80) * 0x40 + (d - 0x80), rest)
                else none

/-- The bytes are UTF-8, with as many characters as `fuel` at most. -/
def validFrom : ℕ → List ℕ → Bool
  | _, [] => true
  | 0, _ :: _ => false
  | fuel + 1, b :: bytes =>
    match decodeRune (b :: bytes) with
    | some (_, rest) => validFrom fuel rest
    | none => false

def valid (bytes : List ℕ) : Bool := validFrom bytes.length bytes

@[simp] theorem encodeAll_nil : encodeAll [] = [] := rfl

@[simp] theorem encodeAll_cons (c : ℕ) (cs : List ℕ) : encodeAll (c :: cs) = encode c ++ encodeAll cs := rfl

@[simp] theorem encodeAll_append (cs ds : List ℕ) : encodeAll (cs ++ ds) = encodeAll cs ++ encodeAll ds :=
  List.flatMap_append ..

variable {c a b : ℕ} {bytes cs : List ℕ}

theorem encode_ascii (h : c < 0x80) : encode c = [c] := if_pos h

theorem encode_high (h : 0x80 ≤ c) (hc : IsCodePoint c) : ∀ b ∈ encode c, 0x80 ≤ b ∧ b < 0x100 := by
  unfold IsCodePoint at hc
  unfold encode
  split_ifs <;> simp <;> omega

theorem encode_ne_nil (c : ℕ) : encode c ≠ [] := by
  unfold encode
  split_ifs <;> simp

theorem decoded_two (h : (0xC2 ≤ a && a ≤ 0xDF && isTail b) = true) :
    IsScalar ((a - 0xC0) * 0x40 + (b - 0x80)) ∧ encode ((a - 0xC0) * 0x40 + (b - 0x80)) = [a, b] := by
  simp only [isTail, Bool.and_eq_true, decide_eq_true_eq] at h
  refine ⟨⟨by omega, by unfold IsSurrogate; omega⟩, ?_⟩
  unfold encode
  rw [if_neg (by omega), if_pos (by omega)]
  simp only [List.cons.injEq, and_true]
  omega

theorem second3_iff : second3 a b = true ↔
    (a = 0xE0 ∧ 0xA0 ≤ b ∨ a = 0xED ∧ b ≤ 0x9F ∨ 0xE1 ≤ a ∧ a ≤ 0xEF ∧ a ≠ 0xED) ∧ 0x80 ≤ b ∧ b ≤ 0xBF := by
  unfold second3
  split_ifs <;> simp only [isTail, Bool.and_eq_true, decide_eq_true_eq] <;> omega

theorem second4_iff : second4 a b = true ↔
    (a = 0xF0 ∧ 0x90 ≤ b ∨ a = 0xF4 ∧ b ≤ 0x8F ∨ 0xF1 ≤ a ∧ a ≤ 0xF3) ∧ 0x80 ≤ b ∧ b ≤ 0xBF := by
  unfold second4
  split_ifs <;> simp only [isTail, Bool.and_eq_true, decide_eq_true_eq] <;> omega

theorem isTail_iff : isTail b = true ↔ 0x80 ≤ b ∧ b ≤ 0xBF := by
  simp [isTail]

theorem decoded_three (h : (second3 a b && isTail c) = true) :
    IsScalar ((a - 0xE0) * 0x1000 + (b - 0x80) * 0x40 + (c - 0x80)) ∧
      encode ((a - 0xE0) * 0x1000 + (b - 0x80) * 0x40 + (c - 0x80)) = [a, b, c] := by
  rw [Bool.and_eq_true, second3_iff, isTail_iff] at h
  refine ⟨⟨by omega, by unfold IsSurrogate; omega⟩, ?_⟩
  unfold encode
  rw [if_neg (by omega), if_neg (by omega), if_pos (by omega)]
  simp only [List.cons.injEq, and_true]
  omega

theorem decoded_four {d : ℕ} (h : (second4 a b && isTail c && isTail d) = true) :
    IsScalar ((a - 0xF0) * 0x40000 + (b - 0x80) * 0x1000 + (c - 0x80) * 0x40 + (d - 0x80)) ∧
      encode ((a - 0xF0) * 0x40000 + (b - 0x80) * 0x1000 + (c - 0x80) * 0x40 + (d - 0x80)) = [a, b, c, d] := by
  rw [Bool.and_eq_true, Bool.and_eq_true, second4_iff, isTail_iff, isTail_iff] at h
  refine ⟨⟨by omega, by unfold IsSurrogate; omega⟩, ?_⟩
  unfold encode
  rw [if_neg (by omega), if_neg (by omega), if_neg (by omega)]
  simp only [List.cons.injEq, and_true]
  omega

theorem eq_encode_of_decodeRune {rest : List ℕ} (h : decodeRune bytes = some (c, rest)) :
    IsScalar c ∧ bytes = encode c ++ rest := by
  -- One split per width; the value that each branch computes is in `decoded_two` and the like.
  have hone {a : ℕ} (h : a < 0x80) : IsScalar a ∧ encode a = [a] :=
    ⟨⟨by omega, by unfold IsSurrogate; omega⟩, encode_ascii h⟩
  have hdecoded {v : ℕ} {front tail : List ℕ} (hv : IsScalar v ∧ encode v = front)
      (h : some (v, tail) = some (c, rest)) : IsScalar c ∧ front ++ tail = encode c ++ rest := by
    cases h
    exact ⟨hv.1, by rw [hv.2]⟩
  unfold decodeRune at h
  split at h
  · cases h
  · split_ifs at h with h1
    · exact hdecoded (hone h1) h
    · split at h
      · cases h
      · split_ifs at h with h2
        · exact hdecoded (decoded_two h2) h
        · split at h
          · cases h
          · split_ifs at h with h3
            · exact hdecoded (decoded_three h3) h
            · split at h
              · cases h
              · split_ifs at h with h4
                exact hdecoded (decoded_four h4) h

theorem decodeRune_encode (hc : IsScalar c) (rest : List ℕ) : decodeRune (encode c ++ rest) = some (c, rest) := by
  obtain ⟨_, hsurrogate⟩ := hc
  unfold IsSurrogate at hsurrogate
  unfold encode
  split_ifs with h1 h2 h3
  · simp [decodeRune, if_pos h1]
  · simp only [List.cons_append, List.nil_append, decodeRune]
    rw [if_neg (by omega), if_pos (by rw [Bool.and_eq_true, isTail_iff]; simp; omega)]
    simp only [Option.some.injEq, Prod.mk.injEq, and_true]
    omega
  · simp only [List.cons_append, List.nil_append, decodeRune]
    rw [if_neg (by omega), if_neg (by simp; omega), if_pos (by rw [Bool.and_eq_true, second3_iff, isTail_iff]; omega)]
    simp only [Option.some.injEq, Prod.mk.injEq, and_true]
    omega
  · simp only [List.cons_append, List.nil_append, decodeRune]
    rw [if_neg (by omega), if_neg (by simp; omega), if_neg (by rw [Bool.and_eq_true, second3_iff]; omega),
      if_pos (by rw [Bool.and_eq_true, Bool.and_eq_true, second4_iff, isTail_iff, isTail_iff]; omega)]
    simp only [Option.some.injEq, Prod.mk.injEq, and_true]
    omega

theorem validFrom_iff {fuel : ℕ} (hfuel : bytes.length ≤ fuel) :
    validFrom fuel bytes = true ↔ ∃ cs : List ℕ, (∀ c ∈ cs, IsScalar c) ∧ bytes = encodeAll cs := by
  induction fuel generalizing bytes with
  | zero =>
    obtain rfl := List.length_eq_zero_iff.1 (Nat.le_zero.1 hfuel)
    exact iff_of_true rfl ⟨[], by simp, rfl⟩
  | succ fuel ih =>
    cases bytes with
    | nil => exact iff_of_true rfl ⟨[], by simp, rfl⟩
    | cons b bytes =>
      rw [validFrom]
      constructor
      · intro h
        split at h
        · rename_i c rest hdecode
          obtain ⟨hc, heq⟩ := eq_encode_of_decodeRune hdecode
          have hlen : rest.length ≤ fuel := by
            have := congrArg List.length heq
            have := List.length_pos_iff.2 (encode_ne_nil c)
            simp only [List.length_append] at *
            omega
          obtain ⟨cs, hcs, rfl⟩ := (ih hlen).1 h
          exact ⟨c :: cs, by simpa [hc] using hcs, heq⟩
        · cases h
      · rintro ⟨cs, hcs, heq⟩
        cases cs with
        | nil => cases heq
        | cons c cs =>
          rw [heq, encodeAll_cons, decodeRune_encode (hcs c (.head _))]
          have hlen : (encodeAll cs).length ≤ fuel := by
            have := congrArg List.length heq
            have := List.length_pos_iff.2 (encode_ne_nil c)
            simp only [encodeAll_cons, List.length_append] at *
            omega
          exact (ih hlen).2 ⟨cs, fun d hd => hcs d (.tail _ hd), rfl⟩

theorem valid_iff : valid bytes = true ↔ ∃ cs : List ℕ, (∀ c ∈ cs, IsScalar c) ∧ bytes = encodeAll cs :=
  validFrom_iff le_rfl

/-- Two texts that begin with a code point each begin with the same one: its first byte
tells the width. -/
theorem encode_append_inj {d : ℕ} {ds : List ℕ} (h : encode c ++ cs = encode d ++ ds) : c = d ∧ cs = ds := by
  unfold encode at h
  -- Where the widths differ the first bytes do.
  split_ifs at h <;> simp only [List.cons_append, List.cons.injEq] at h <;>
    first
    | exact absurd h.1 (by omega)
    | exact h
    | exact ⟨by omega, h.2.2⟩
    | exact ⟨by omega, h.2.2.2⟩
    | exact ⟨by omega, h.2.2.2.2⟩

theorem encodeAll_inj {ds : List ℕ} (h : encodeAll cs = encodeAll ds) : cs = ds := by
  induction cs generalizing ds with
  | nil =>
    cases ds with
    | nil => rfl
    | cons d ds => exact absurd h.symm (by simp [encode_ne_nil])
  | cons c cs ih =>
    cases ds with
    | nil => exact absurd h (by simp [encode_ne_nil])
    | cons d ds =>
      obtain ⟨rfl, hrest⟩ := encode_append_inj h
      rw [ih hrest]

theorem encodeAll_ascii (h : ∀ c ∈ cs, c < 0x80) : encodeAll cs = cs := by
  induction cs with
  | nil => rfl
  | cons c cs ih =>
    rw [encodeAll_cons, encode_ascii (h c (.head _)), ih fun d hd => h d (.tail _ hd)]
    rfl

theorem encodeAll_front {front : List ℕ} (cs : List ℕ) (h : ∀ c ∈ front, c < 0x80) :
    encodeAll (front ++ cs) = front ++ encodeAll cs := by
  rw [encodeAll_append, encodeAll_ascii h]

theorem isScalar_of_ascii (h : c < 0x80) : IsScalar c :=
  ⟨by omega, fun hc => by have := hc.1; omega⟩

theorem peel (hb : b < 0x80) (hcs : ∀ c ∈ cs, IsScalar c) (h : encodeAll cs = b :: bytes) :
    ∃ cs', cs = b :: cs' ∧ bytes = encodeAll cs' := by
  cases cs with
  | nil => cases h
  | cons c cs =>
    rw [encodeAll_cons] at h
    by_cases hc : c < 0x80
    · rw [encode_ascii hc] at h
      cases h
      exact ⟨cs, rfl, rfl⟩
    · obtain ⟨first, _, hencode⟩ := List.exists_cons_of_ne_nil (encode_ne_nil c)
      have hhigh := (encode_high (not_lt.1 hc) (hcs c (.head _)).1 first (hencode ▸ (.head _))).1
      rw [hencode] at h
      cases h
      exact absurd hb (not_lt.2 hhigh)

theorem peelAll {front : List ℕ} (hfront : ∀ b ∈ front, b < 0x80) (hcs : ∀ c ∈ cs, IsScalar c)
    (h : encodeAll cs = front ++ bytes) : ∃ cs', cs = front ++ cs' ∧ bytes = encodeAll cs' := by
  induction front generalizing cs with
  | nil => exact ⟨cs, rfl, h.symm⟩
  | cons b front ih =>
    obtain ⟨_, rfl, hrest⟩ := peel (hfront b (.head _)) hcs h
    obtain ⟨cs'', rfl, hbytes⟩ := ih (fun x hx => hfront x (.tail _ hx))
      (fun c hc => hcs c (.tail _ hc)) hrest.symm
    exact ⟨cs'', rfl, hbytes⟩

end Molebridge.Utf8
