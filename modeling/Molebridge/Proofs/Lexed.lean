import Mathlib.Tactic
import Mathlib.Data.List.TakeWhile
import Molebridge.Spec.Decode

/-! The strings and numbers of strict decoding against the grammar: what str and scanNumber
read is a string or a number, and every one of them is read. -/

namespace Molebridge.Validate

open Utf8 Rfc8259

/-! ### Strings -/

theorem hex4_eq (a b c d : ℕ) : hex4 a b c d = Rfc8259.hex4 a b c d := by
  unfold hex4 Rfc8259.hex4
  rw [show hexValue = hexDigit from rfl]
  cases hexDigit a <;> cases hexDigit b <;> cases hexDigit c <;> cases hexDigit d <;> rfl

theorem codePoint_eq (r : ℕ) : codePoint r = encode r := by
  unfold codePoint
  split_ifs with h
  · unfold encode
    rw [if_neg (by omega), if_neg (by omega), if_pos (by omega)]
  · rfl

/-- The code point of the escape after a backslash and a u, and what is after it. -/
def unicodeEscape : List ℕ → Option (ℕ × List ℕ)
  | a :: b :: c :: d :: rest =>
    match Rfc8259.hex4 a b c d with
    | none => none
    | some u =>
      if IsHigh u then
        match lowEscape rest with
        | some (low, after) => some (joined u low, after)
        | none => some (u, rest)
      else some (u, rest)
  | _ => none

/-- The code point of the escape after a backslash, and what is after it. -/
def escape : List ℕ → Option (ℕ × List ℕ)
  | [] => none
  | e :: rest =>
    match shortEscape e with
    | some c => some (c, rest)
    | none => if e = 0x75 then unicodeEscape rest else none

variable {c u a d : ℕ} {front s rest cs text after b : List ℕ} {n : Number}

theorem chars_short {e : ℕ} (rest : List ℕ) (h : shortEscape e = some c) :
    chars (0x5C :: e :: rest) = more (encode c) (chars rest) := by
  rw [chars.eq_def]
  rcases shortEscape_cases h with
    ⟨rfl, rfl⟩ | ⟨rfl, rfl⟩ | ⟨rfl, rfl⟩ | ⟨rfl, rfl⟩ | ⟨rfl, rfl⟩ | ⟨rfl, rfl⟩ | ⟨rfl, rfl⟩ | ⟨rfl, rfl⟩ <;> rfl

theorem lowAfter_eq (rest : List ℕ) : lowAfter u rest = if IsHigh u then (lowEscape rest).map Prod.fst else none := by
  unfold lowAfter lowEscape
  split
  · next a b c d after =>
    rw [hex4_eq]
    cases hhex : Rfc8259.hex4 a b c d with
    | none => simp [*]
    | some low =>
      simp only [IsHigh, IsLow, Option.filter, Bool.and_eq_true, decide_eq_true_eq]
      split_ifs <;> simp [*]
  · simp

theorem chars_hex4 (a b c d : ℕ) (rest : List ℕ) : chars (0x5C :: 0x75 :: a :: b :: c :: d :: rest) =
    match hex4 a b c d with
    | none => .error .invalid
    | some r =>
      match lowAfter r rest, rest with
      | some low, _ :: _ :: _ :: _ :: _ :: _ :: after =>
        more (codePoint (0x10000 + (r - 0xD800) * 0x400 + (low - 0xDC00))) (chars after)
      | _, rest => more (codePoint r) (chars rest) := by
  rw [chars.eq_def]
  rfl

theorem chars_unicode (rest : List ℕ) : chars (0x5C :: 0x75 :: rest) =
    match unicodeEscape rest with
    | some (c, after) => more (encode c) (chars after)
    | none => .error .invalid := by
  rcases rest with _ | ⟨a, _ | ⟨b, _ | ⟨c, _ | ⟨d, rest⟩⟩⟩⟩
  iterate 4
    rfl
  · rw [chars_hex4, hex4_eq, unicodeEscape]
    cases Rfc8259.hex4 a b c d with
    | none => rfl
    | some u =>
      simp only [lowAfter_eq, codePoint_eq]
      split_ifs with hhigh
      · cases hlow : lowEscape rest with
        | none => rfl
        | some found =>
          obtain ⟨-, a, b, c, d, rfl, -⟩ := lowEscape_some hlow
          rfl
      · rfl

theorem chars_escape (rest : List ℕ) : chars (0x5C :: rest) =
    match escape rest with
    | some (c, after) => more (encode c) (chars after)
    | none => .error .invalid := by
  cases rest with
  | nil => rfl
  | cons e rest =>
    simp only [escape]
    cases hshort : shortEscape e with
    | some c => exact chars_short rest hshort
    | none =>
      split_ifs with hu
      · subst hu
        exact chars_unicode rest
      · unfold shortEscape at hshort
        split_ifs at hshort with h1 h2 h3 h4 h5 h6
        rw [chars.eq_def]
        dsimp only
        rw [if_neg (by decide), if_neg (by decide), if_neg (by decide), if_neg h1, if_neg h2, if_neg h3, if_neg h4, if_neg h5,
          if_neg h6, if_neg hu]

@[simp] theorem more_nil (p : Parsed (List ℕ)) : more [] p = p := by
  rcases p with e | ⟨s, -⟩ <;> rfl

@[simp] theorem more_more (front front' : List ℕ) (p : Parsed (List ℕ)) :
    more front (more front' p) = more (front ++ front') p := by
  rcases p with e | ⟨s, -⟩
  · rfl
  · simp only [more, List.append_assoc]

theorem more_eq_ok {p : Parsed (List ℕ)} (h : more front p = .ok (s, rest)) :
    ∃ s', p = .ok (s', rest) ∧ s = front ++ s' := by
  rcases p with e | ⟨s', _⟩
  · cases h
  · obtain ⟨rfl, rfl⟩ := h
    exact ⟨s', rfl, rfl⟩

theorem chars_plain (rest : List ℕ) (h : isPlain c = true) : chars (c :: rest) = more [c] (chars rest) := by
  simp only [isPlain, Bool.and_eq_true, decide_eq_true_eq] at h
  rw [chars.eq_def]
  dsimp only
  rw [if_neg h.1.1, if_neg (by omega), if_pos h.1.2]

theorem chars_front (rest : List ℕ) (h : ∀ c ∈ front, isPlain c = true) :
    chars (front ++ rest) = more front (chars rest) := by
  induction front with
  | nil => simp
  | cons c front ih =>
    rw [List.cons_append, chars_plain _ (h c (.head _)), ih fun x hx => h x (.tail _ hx), more_more]
    rfl

@[simp] theorem chars_quote (rest : List ℕ) : chars (0x22 :: rest) = .ok ([], rest) := by
  rw [chars.eq_def]
  rfl

theorem chars_control (rest : List ℕ) (h : c < 0x20) : chars (c :: rest) = .error .invalid := by
  rw [chars.eq_def]
  dsimp only
  rw [if_neg (by omega), if_pos h]

/-- The two loops of str are one. -/
theorem str_eq_chars (b : List ℕ) : str b = chars b := by
  have hfront : ∀ c ∈ b.takeWhile isPlain, isPlain c = true := fun c hc => List.mem_takeWhile_imp hc
  have hchars : chars b = more (b.takeWhile isPlain) (chars (b.dropWhile isPlain)) := by
    rw [← chars_front _ hfront, List.takeWhile_append_dropWhile]
  rw [hchars]
  unfold str
  cases hdrop : b.dropWhile isPlain with
  | nil => rfl
  | cons c rest =>
    have hc : isPlain c = false := by
      have := List.head?_dropWhile_not isPlain b
      rw [hdrop] at this
      simpa using this
    simp only [isPlain, Bool.and_eq_false_iff, decide_eq_false_iff_not] at hc
    by_cases hquote : c = 0x22
    · subst hquote
      simp [more]
    by_cases hback : c = 0x5C
    · subst hback
      rfl
    · rw [chars_control rest (by omega)]
      split
      · next h => exact absurd (List.cons.inj h).1 hquote
      · next h => exact absurd (List.cons.inj h).1 hback
      · rfl

/-! What an escape may be, on bytes and on characters. -/

theorem lowEscape_encodeAll (hcs : ∀ c ∈ cs, IsScalar c) :
    lowEscape (encodeAll cs) = (lowEscape cs).map (Prod.map id encodeAll) := by
  cases hlow : lowEscape cs with
  | some found =>
    obtain ⟨_, after⟩ := found
    obtain ⟨hIsLow, a, b, c, d, rfl, hhex⟩ := lowEscape_some hlow
    have := encodeAll_front after (escape_front_ascii (hex4_ascii hhex).1)
    simp only [List.cons_append, List.nil_append] at this
    rw [this, lowEscape_hex hhex hIsLow]
    rfl
  | none =>
    cases hbytes : lowEscape (encodeAll cs) with
    | none => rfl
    | some found =>
      obtain ⟨hIsLow, a, b, c, d, hfront, hhex⟩ := lowEscape_some hbytes
      obtain ⟨_, rfl, -⟩ := peelAll (escape_front_ascii (hex4_ascii hhex).1) hcs hfront
      simp only [List.cons_append, lowEscape_hex hhex hIsLow] at hlow
      cases hlow

theorem escape_cases (h : escape text = some (u, after)) :
    (∃ e, shortEscape e = some u ∧ text = e :: after) ∨
    (∃ a b c d high low next, Rfc8259.hex4 a b c d = some high ∧ IsHigh high ∧ lowEscape next = some (low, after) ∧
      u = joined high low ∧ text = 0x75 :: a :: b :: c :: d :: next) ∨
    (∃ a b c d, Rfc8259.hex4 a b c d = some u ∧ (IsHigh u → lowEscape after = none) ∧
      text = 0x75 :: a :: b :: c :: d :: after) := by
  cases text with
  | nil => cases h
  | cons e rest =>
    simp only [escape] at h
    cases hshort : shortEscape e with
    | some c =>
      simp only [hshort] at h
      obtain ⟨rfl, rfl⟩ := h
      exact .inl ⟨e, hshort, rfl⟩
    | none =>
      simp only [hshort] at h
      split_ifs at h with hu
      subst hu
      unfold unicodeEscape at h
      split at h
      · next a b c d rest =>
        cases hhex : Rfc8259.hex4 a b c d with
        | none => simp [hhex] at h
        | some unit =>
          simp only [hhex] at h
          split_ifs at h with hhigh
          · cases hlow : lowEscape rest with
            | none =>
              simp only [hlow] at h
              obtain ⟨rfl, rfl⟩ := h
              exact .inr (.inr ⟨a, b, c, d, hhex, fun _ => hlow, rfl⟩)
            | some found =>
              simp only [hlow, Option.some.injEq, Prod.mk.injEq] at h
              obtain ⟨rfl, rfl⟩ := h
              exact .inr (.inl ⟨a, b, c, d, unit, found.1, rest, hhex, hhigh, hlow, rfl, rfl⟩)
          · obtain ⟨rfl, rfl⟩ := h
            exact .inr (.inr ⟨a, b, c, d, hhex, fun h => absurd h hhigh, rfl⟩)
      · cases h

theorem escape_short {e : ℕ} (after : List ℕ) (h : shortEscape e = some c) : escape (e :: after) = some (c, after) := by
  simp only [escape, h]

theorem escape_pair {b high low : ℕ} {next : List ℕ} (hhex : Rfc8259.hex4 a b c d = some high)
    (hhigh : IsHigh high) (hlow : lowEscape next = some (low, after)) :
    escape (0x75 :: a :: b :: c :: d :: next) = some (joined high low, after) := by
  have hshort : shortEscape 0x75 = none := rfl
  simp [escape, hshort, unicodeEscape, hhex, if_pos hhigh, hlow]

theorem escape_unit {b : ℕ} (hhex : Rfc8259.hex4 a b c d = some u)
    (halone : IsHigh u → lowEscape after = none) :
    escape (0x75 :: a :: b :: c :: d :: after) = some (u, after) := by
  have hshort : shortEscape 0x75 = none := rfl
  simp only [escape, hshort, if_true, unicodeEscape, hhex]
  split_ifs with hhigh
  · rw [halone hhigh]
  · rfl

theorem escape_encodeAll (hcs : ∀ c ∈ cs, IsScalar c) :
    escape (encodeAll cs) = (escape cs).map (Prod.map id encodeAll) := by
  have hunit {a b c d : ℕ} (h : a < 0x80 ∧ b < 0x80 ∧ c < 0x80 ∧ d < 0x80) : ∀ x ∈ [0x75, a, b, c, d], x < 0x80 :=
    fun x hx => escape_front_ascii h x (.tail _ hx)
  cases hescape : escape cs with
  | some found =>
    obtain ⟨u, after⟩ := found
    simp only [Option.map_some, Prod.map_apply, id_eq]
    rcases escape_cases hescape with ⟨e, hshort, rfl⟩ | ⟨a, b, c, d, _, _, next, hhex, hhigh, hlow, hu, rfl⟩ |
      ⟨a, b, c, d, hhex, halone, rfl⟩
    · rw [encodeAll_cons, encode_ascii (shortEscape_ascii hshort)]
      exact escape_short _ hshort
    · have hfront := encodeAll_front next (hunit (hex4_ascii hhex).1)
      have hnext : ∀ c ∈ next, IsScalar c := fun c hc => hcs c (by simp [hc])
      simp only [List.cons_append, List.nil_append] at hfront
      rw [hfront, hu]
      exact escape_pair hhex hhigh (by rw [lowEscape_encodeAll hnext, hlow]; rfl)
    · have hfront := encodeAll_front after (hunit (hex4_ascii hhex).1)
      have hnext : ∀ c ∈ after, IsScalar c := fun c hc => hcs c (by simp [hc])
      simp only [List.cons_append, List.nil_append] at hfront
      rw [hfront]
      exact escape_unit hhex fun h => by rw [lowEscape_encodeAll hnext, halone h]; rfl
  | none =>
    cases hbytes : escape (encodeAll cs) with
    | none => rfl
    | some found =>
      obtain ⟨u, _⟩ := found
      rcases escape_cases hbytes with ⟨e, hshort, hfront⟩ | ⟨a, b, c, d, _, _, _, hhex, hhigh, hlow, -, hfront⟩ |
        ⟨a, b, c, d, hhex, halone, hfront⟩
      · obtain ⟨cs', rfl, -⟩ := peel (shortEscape_ascii hshort) hcs hfront
        exact nomatch (escape_short cs' hshort).symm.trans hescape
      · obtain ⟨_, rfl, rfl⟩ := peelAll (hunit (hex4_ascii hhex).1) hcs hfront
        rw [lowEscape_encodeAll fun c hc => hcs c (List.mem_append_right _ hc)] at hlow
        obtain ⟨_, hlow, -⟩ := Option.map_eq_some_iff.1 hlow
        exact nomatch (escape_pair hhex hhigh hlow).symm.trans hescape
      · obtain ⟨_, rfl, rfl⟩ := peelAll (hunit (hex4_ascii hhex).1) hcs hfront
        rw [lowEscape_encodeAll fun c hc => hcs c (List.mem_append_right _ hc), Option.map_eq_none_iff] at halone
        exact nomatch (escape_unit hhex halone).symm.trans hescape

/-! Against the grammar. -/

theorem before_quote (hfront : 0x22 ∉ front) (h : text ++ 0x22 :: rest = front ++ after) :
    ∃ text', text = front ++ text' ∧ after = text' ++ 0x22 :: rest := by
  rcases List.append_eq_append_iff.1 h with ⟨between, rfl, hafter⟩ | ⟨text', rfl, hafter⟩
  · cases between with
    | nil => exact ⟨[], by simp, by simpa using hafter.symm⟩
    | cons b between =>
      cases hafter
      exact absurd (List.mem_append_right _ (.head _)) hfront
  · exact ⟨text', rfl, hafter⟩

theorem hex4_quote {b : ℕ} (h : Rfc8259.hex4 a b c d = some u) : 0x22 ∉ [a, b, c, d] := by
  unfold Rfc8259.hex4 at h
  split at h
  · next ha hb hc hd =>
    intro hmem
    simp only [List.mem_cons, List.not_mem_nil, or_false] at hmem
    rcases hmem with rfl | rfl | rfl | rfl
    · cases ha
    · cases hb
    · cases hc
    · cases hd
  · cases h

theorem lowEscape_quote (rest : List ℕ) (h : lowEscape text = none) : lowEscape (text ++ 0x22 :: rest) = none := by
  cases hfound : lowEscape (text ++ 0x22 :: rest) with
  | none => rfl
  | some found =>
    obtain ⟨hlow, a, b, c, d, htext, hhex⟩ := lowEscape_some hfound
    have hquote : 0x22 ∉ [0x5C, 0x75, a, b, c, d] := by
      have := hex4_quote hhex
      simp_all
    obtain ⟨_, rfl, -⟩ := before_quote hquote htext
    exact nomatch (lowEscape_hex hhex hlow).symm.trans h

theorem chars_step (h : escape cs = some (u, text ++ 0x22 :: after)) (hchars : Chars text s) :
    ∃ text', cs = text' ++ 0x22 :: after ∧ Chars (0x5C :: text') (u :: s) := by
  rcases escape_cases h with ⟨e, hshort, rfl⟩ | ⟨a, b, c, d, _, _, _, hhex, hhigh, hlow, hu, rfl⟩ |
    ⟨a, b, c, d, hhex, halone, rfl⟩
  · exact ⟨e :: text, rfl, .escape hshort hchars⟩
  · obtain ⟨hIsLow, a', b', c', d', rfl, hhex'⟩ := lowEscape_some hlow
    rw [hu]
    exact ⟨0x75 :: a :: b :: c :: d :: 0x5C :: 0x75 :: a' :: b' :: c' :: d' :: text, rfl,
      .pair hhex hhigh (lowEscape_hex hhex' hIsLow) hchars⟩
  · refine ⟨0x75 :: a :: b :: c :: d :: text, rfl, .unit hhex (fun hhigh => ?_) hchars⟩
    cases hlow : lowEscape text with
    | none => rfl
    | some found => exact nomatch (lowEscape_append _ hlow).symm.trans (halone hhigh)

theorem isPlain_iff : isPlain c = true ↔ c ≠ 0x22 ∧ c ≠ 0x5C ∧ 0x20 ≤ c := by
  simp [isPlain, and_assoc]

theorem encode_plain (hc : IsCodePoint c) (h : isPlain c = true) : ∀ b ∈ encode c, isPlain b = true := by
  intro b hb
  by_cases hascii : c < 0x80
  · rw [encode_ascii hascii, List.mem_singleton] at hb
    exact hb ▸ h
  · have := encode_high (not_lt.1 hascii) hc b hb
    rw [isPlain_iff]
    omega

theorem escape_suffix (h : escape cs = some (u, after)) : ∃ front, cs = front ++ after := by
  rcases escape_cases h with ⟨e, -, rfl⟩ | ⟨a, b, c, d, -, _, _, -, -, hlow, -, rfl⟩ | ⟨a, b, c, d, -, -, rfl⟩
  · exact ⟨[e], rfl⟩
  · obtain ⟨-, a', b', c', d', rfl, -⟩ := lowEscape_some hlow
    exact ⟨[0x75, a, b, c, d, 0x5C, 0x75, a', b', c', d'], rfl⟩
  · exact ⟨[0x75, a, b, c, d], rfl⟩

theorem chars_sound (hcs : ∀ c ∈ cs, IsScalar c) (h : chars (encodeAll cs) = .ok (s, rest)) :
    ∃ text s' after, cs = text ++ 0x22 :: after ∧ rest = encodeAll after ∧ s = encodeAll s' ∧ Chars text s' := by
  induction hlen : cs.length using Nat.strong_induction_on generalizing cs s with
  | _ n ih =>
    subst hlen
    cases cs with
    | nil => cases h
    | cons c cs =>
      have hc := hcs c (.head _)
      have hcs' : ∀ c ∈ cs, IsScalar c := fun x hx => hcs x (.tail _ hx)
      by_cases hplain : isPlain c = true
      · rw [encodeAll_cons, chars_front _ (encode_plain hc.1 hplain)] at h
        obtain ⟨_, hbody, rfl⟩ := more_eq_ok h
        obtain ⟨text, s'', after, rfl, hrest, rfl, hchars⟩ := ih _ (Nat.lt_succ_self _) hcs' hbody rfl
        rw [isPlain_iff] at hplain
        exact ⟨c :: text, c :: s'', after, rfl, hrest, rfl, .unescaped hc hplain.2.2 hplain.1 hplain.2.1 hchars⟩
      rw [isPlain_iff] at hplain
      rw [encodeAll_cons, encode_ascii (by omega), List.singleton_append] at h
      by_cases hquote : c = 0x22
      · subst hquote
        rw [chars_quote] at h
        cases h
        exact ⟨[], [], cs, rfl, rfl, rfl, .nil⟩
      by_cases hback : c = 0x5C
      · subst hback
        rw [chars_escape, escape_encodeAll hcs'] at h
        cases hescape : escape cs with
        | none => exact nomatch hescape ▸ h
        | some found =>
          obtain ⟨u, cs'⟩ := found
          simp only [hescape] at h
          obtain ⟨_, hbody, rfl⟩ := more_eq_ok h
          obtain ⟨_, rfl⟩ := escape_suffix hescape
          obtain ⟨_, s'', after, rfl, hrest, rfl, hchars⟩ := ih cs'.length (by simp)
            (fun x hx => hcs' x (List.mem_append_right _ hx)) hbody rfl
          obtain ⟨text', hcs, hstep⟩ := chars_step hescape hchars
          exact ⟨0x5C :: text', u :: s'', after, by rw [hcs]; rfl, hrest, rfl, hstep⟩
      · rw [chars_control _ (by omega)] at h
        cases h

theorem chars_complete (hafter : ∀ c ∈ after, IsScalar c) (h : Chars text s) :
    chars (encodeAll (text ++ 0x22 :: after)) = .ok (encodeAll s, encodeAll after) := by
  have hread {u : ℕ} {text text' s s' : List ℕ} (hchars : Chars (0x5C :: text) s)
      (hescape : escape (text ++ 0x22 :: after) = some (u, text' ++ 0x22 :: after))
      (ih : chars (encodeAll (text' ++ 0x22 :: after)) = .ok (encodeAll s', encodeAll after)) :
      chars (encodeAll ((0x5C :: text) ++ 0x22 :: after)) = .ok (encodeAll (u :: s'), encodeAll after) := by
    have hcs : ∀ c ∈ text ++ 0x22 :: after, IsScalar c := by
      intro c hc
      rcases List.mem_append.1 hc with hc | hc
      · exact hchars.scalar c (.tail _ hc)
      · exact (List.forall_mem_cons.2 ⟨isScalar_of_ascii (by decide), hafter⟩) c hc
    rw [List.cons_append, encodeAll_cons, encode_ascii (by decide), List.singleton_append, chars_escape, escape_encodeAll hcs,
      hescape]
    simp only [Option.map_some, Prod.map_apply, id_eq, ih, more, encodeAll_cons]
  induction h with
  | nil =>
    rw [List.nil_append, encodeAll_cons, encode_ascii (by decide), List.singleton_append, chars_quote]
    rfl
  | unescaped hc hcontrol hquote hback hchars ih =>
    rw [List.cons_append, encodeAll_cons, chars_front _ (encode_plain hc.1 (isPlain_iff.2 ⟨hquote, hback, hcontrol⟩)), ih]
    rfl
  | escape hshort hchars ih => exact hread (.escape hshort hchars) (escape_short _ hshort) ih
  | pair hhex hhigh hnext hchars ih =>
    exact hread (.pair hhex hhigh hnext hchars) (escape_pair hhex hhigh (lowEscape_append _ hnext)) ih
  | unit hhex halone hchars ih =>
    exact hread (.unit hhex halone hchars) (escape_unit hhex fun h => lowEscape_quote _ (halone h)) ih

/-! ### Numbers -/

theorem digits_split (b : List ℕ) : (∀ c ∈ b.takeWhile isDigit, Rfc8259.isDigit c = true) ∧ b = b.takeWhile isDigit ++ b.dropWhile isDigit :=
  ⟨fun _ hc => List.mem_takeWhile_imp hc, List.takeWhile_append_dropWhile.symm⟩

theorem scanSign_sound (b : List ℕ) : ∃ neg : Bool, (scanSign b).1 = (if neg then [0x2D] else []) ∧ b = (scanSign b).1 ++ (scanSign b).2 := by
  unfold scanSign
  split
  · exact ⟨true, rfl, rfl⟩
  · exact ⟨false, rfl, rfl⟩

theorem scanInt_sound {int : List ℕ} (h : scanInt b = .ok (int, rest)) :
    (int = [0x30] ∨ IsDigits int ∧ int.head? ≠ some 0x30) ∧ b = int ++ rest := by
  cases b with
  | nil => cases h
  | cons c b =>
    simp only [scanInt] at h
    split_ifs at h with hzero hdigit
    · cases h
      exact ⟨.inl (by rw [hzero]), rfl⟩
    · cases h
      have hc : isDigit c = true := by simp only [isDigit, Bool.and_eq_true, decide_eq_true_eq]; omega
      refine ⟨.inr ⟨⟨?_, (digits_split _).1⟩, ?_⟩, (digits_split _).2⟩
      · rw [List.takeWhile_cons_of_pos hc]
        exact List.cons_ne_nil _ _
      · rw [List.takeWhile_cons_of_pos hc]
        simpa using hzero

theorem scanFrac_sound (b : List ℕ) : ∃ frac : Option (List ℕ), (∀ digits ∈ frac, IsDigits digits) ∧
    (scanFrac b).1 = frac.elim [] (fun digits => 0x2E :: digits) ∧ b = (scanFrac b).1 ++ (scanFrac b).2 := by
  unfold scanFrac
  split
  · next d rest =>
    split_ifs with hd
    · refine ⟨some ((d :: rest).takeWhile isDigit), ?_, rfl, congrArg (0x2E :: ·) (digits_split _).2⟩
      rintro _ ⟨rfl⟩
      refine ⟨?_, (digits_split _).1⟩
      rw [List.takeWhile_cons_of_pos hd]
      exact List.cons_ne_nil _ _
    · exact ⟨none, (fun _ h => nomatch h), rfl, rfl⟩
  · exact ⟨none, (fun _ h => nomatch h), rfl, rfl⟩

theorem scanExpSign_sound (b : List ℕ) :
    ((scanExpSign b).1 = [] ∨ (scanExpSign b).1 = [0x2B] ∨ (scanExpSign b).1 = [0x2D]) ∧ b = (scanExpSign b).1 ++ (scanExpSign b).2 := by
  unfold scanExpSign
  split <;> simp

theorem scanExp_sound (b : List ℕ) : ∃ exp : Option Exp, (scanExp b).1 = exp.elim [] Exp.text ∧
    b = (scanExp b).1 ++ (scanExp b).2 := by
  cases b with
  | nil => exact ⟨none, rfl, rfl⟩
  | cons c rest =>
    simp only [scanExp]
    split_ifs with hmark
    · obtain ⟨hsign, hsplit⟩ := scanExpSign_sound rest
      have hdigits := digits_split (scanExpSign rest).2
      cases htake : (scanExpSign rest).2.takeWhile isDigit with
      | nil => exact ⟨none, rfl, rfl⟩
      | cons d ds =>
        rw [htake] at hdigits
        refine ⟨some ⟨c, (scanExpSign rest).1, d :: ds, hmark, hsign, List.cons_ne_nil _ _, hdigits.1⟩, rfl, ?_⟩
        rw [List.append_assoc, ← hdigits.2, List.cons_append, ← hsplit]
    · exact ⟨none, rfl, rfl⟩

theorem scanNumber_sound {isFloat : Bool} (h : scanNumber b = .ok (isFloat, text, rest)) :
    ∃ n : Number, text = n.text ∧ b = n.text ++ rest ∧ isFloat = !n.isInteger ∧
      (n.isInteger = true → n.int.length ≤ maxIntDigits) := by
  obtain ⟨neg, hneg, hsign⟩ := scanSign_sound b
  simp only [scanNumber] at h
  cases hint : scanInt (scanSign b).2 with
  | error e => simp [hint] at h
  | ok found =>
    obtain ⟨int, after⟩ := found
    simp only [hint] at h
    obtain ⟨hint, hafter⟩ := scanInt_sound hint
    obtain ⟨frac, hdigits, hfrac, hsplit⟩ := scanFrac_sound after
    obtain ⟨exp, hexp, hrest⟩ := scanExp_sound (scanFrac after).2
    split_ifs at h with hsize
    simp only [Except.ok.injEq, Prod.mk.injEq] at h
    obtain ⟨hfloat, htext, hend⟩ := h
    let n : Number := ⟨neg, int, frac, exp, hint, hdigits⟩
    have hn : text = n.text := by
      rw [← htext, hneg, hfrac, hexp]
      rfl
    have hisFloat : isFloat = !n.isInteger := by
      rw [← hfloat, hfrac, hexp]
      cases frac <;> cases exp <;> rfl
    refine ⟨n, hn, ?_, hisFloat, fun hinteger => ?_⟩
    · rw [← hn, ← htext, ← hend, List.append_assoc _ (scanExp _).1, ← hrest, List.append_assoc _ (scanFrac _).1, ← hsplit,
        List.append_assoc, ← hafter, ← hsign]
    · rw [hfloat, hisFloat, hinteger] at hsize
      simpa using hsize

def Ends (rest : List ℕ) : Prop := ∀ c ∈ rest.head?, isDigit c = false ∧ c ≠ 0x2E ∧ c ≠ 0x65 ∧ c ≠ 0x45

theorem digits_read {digits : List ℕ} (hdigits : ∀ c ∈ digits, isDigit c = true)
    (hrest : ∀ c ∈ rest.head?, isDigit c = false) :
    (digits ++ rest).takeWhile isDigit = digits ∧ (digits ++ rest).dropWhile isDigit = rest := by
  rw [List.takeWhile_append_of_pos hdigits, List.dropWhile_append_of_pos hdigits]
  cases rest with
  | nil => simp
  | cons c rest =>
    have hc : ¬ isDigit c = true := by simp [hrest c rfl]
    rw [List.takeWhile_cons_of_neg hc, List.dropWhile_cons_of_neg hc, List.append_nil]
    exact ⟨rfl, rfl⟩

theorem scanSign_complete (rest : List ℕ) : scanSign (n.signText ++ (n.int ++ rest)) = (n.signText, n.int ++ rest) := by
  unfold Number.signText
  cases n.neg with
  | true => rfl
  | false =>
    have hhead : n.int.head? ≠ some 0x2D := by
      rcases n.isInt with h | ⟨⟨-, h⟩, -⟩
      · rw [h]
        decide
      · intro hsign
        exact absurd (h _ (List.mem_of_mem_head? hsign)) (by decide)
    cases hint : n.int with
    | nil => rcases n.isInt with h | h <;> simp_all [IsDigits]
    | cons c int =>
      have hc : c ≠ 0x2D := fun hc => hhead (by rw [hint, hc]; rfl)
      unfold scanSign
      split
      · next h => exact absurd (List.cons.inj h).1 hc
      · rfl

theorem scanInt_complete (hrest : ∀ c ∈ rest.head?, isDigit c = false) :
    scanInt (n.int ++ rest) = .ok (n.int, rest) := by
  rcases n.isInt with h | ⟨⟨hne, hdigits⟩, hhead⟩
  · rw [h]
    rfl
  · cases hint : n.int with
    | nil => exact absurd hint hne
    | cons c int =>
      rw [hint] at hdigits hhead
      have hc := hdigits c (.head _)
      have hzero : c ≠ 0x30 := fun h => hhead (by rw [h]; rfl)
      simp only [Rfc8259.isDigit, Bool.and_eq_true, decide_eq_true_eq] at hc
      have hread := digits_read hdigits hrest
      rw [List.cons_append] at hread ⊢
      rw [scanInt, if_neg hzero, if_pos (by omega), hread.1, hread.2]

theorem scanFrac_complete (hrest : ∀ c ∈ rest.head?, isDigit c = false ∧ c ≠ 0x2E) :
    scanFrac (n.fracText ++ rest) = (n.fracText, rest) := by
  unfold Number.fracText
  cases hfrac : n.frac with
  | none =>
    simp only [Option.elim, List.nil_append]
    unfold scanFrac
    split
    · next d rest => exact absurd rfl (hrest 0x2E rfl).2
    · rfl
  | some digits =>
    obtain ⟨hne, hdigits⟩ := n.isFrac digits hfrac
    cases digits with
    | nil => exact absurd rfl hne
    | cons d ds =>
      have hd : isDigit d = true := hdigits d (.head _)
      have hread := digits_read hdigits fun c hc => (hrest c hc).1
      rw [List.cons_append] at hread
      simp [scanFrac, if_pos hd, hread]

theorem scanExpSign_complete (e : Exp) (rest : List ℕ) : scanExpSign (e.sign ++ (e.digits ++ rest)) = (e.sign, e.digits ++ rest) := by
  rcases e.isSign with h | h | h
  · obtain ⟨hne, hdigits⟩ := e.isDigits
    cases hds : e.digits with
    | nil => exact absurd hds hne
    | cons d ds =>
      have hd : isDigit d = true := hdigits d (hds ▸ (.head _))
      simp only [isDigit, Bool.and_eq_true, decide_eq_true_eq] at hd
      rw [h, List.nil_append, List.cons_append]
      unfold scanExpSign
      split
      · next heq => have := (List.cons.inj heq).1; omega
      · next heq => have := (List.cons.inj heq).1; omega
      · rfl
  · rw [h]
    rfl
  · rw [h]
    rfl

theorem scanExp_complete (hrest : Ends rest) : scanExp (n.expText ++ rest) = (n.expText, rest) := by
  unfold Number.expText
  cases n.exp with
  | none =>
    simp only [Option.elim, List.nil_append]
    cases rest with
    | nil => rfl
    | cons c rest =>
      obtain ⟨-, -, _, _⟩ := hrest c rfl
      rw [scanExp, if_neg (by omega)]
  | some e =>
    have hread := digits_read e.isDigits.2 fun c hc => (hrest c hc).1
    simp only [Option.elim, Exp.text, List.cons_append, List.append_assoc, scanExp, if_pos e.isMark, scanExpSign_complete,
      hread.1, hread.2]
    cases hds : e.digits with
    | nil => exact absurd hds e.isDigits.1
    | cons d ds => rfl

theorem expText_head (n : Number) (hrest : Ends rest) :
    ∀ c ∈ (n.expText ++ rest).head?, isDigit c = false ∧ c ≠ 0x2E := by
  intro c hc
  unfold Number.expText at hc
  cases hn : n.exp with
  | none =>
    rw [hn] at hc
    exact ⟨(hrest c hc).1, (hrest c hc).2.1⟩
  | some e =>
    rw [hn] at hc
    cases hc
    rcases e.isMark with h | h <;> rw [h] <;> decide

theorem fracText_head (n : Number) (hrest : Ends rest) :
    ∀ c ∈ (n.fracText ++ (n.expText ++ rest)).head?, isDigit c = false := by
  intro c hc
  unfold Number.fracText at hc
  cases hn : n.frac with
  | none =>
    rw [hn] at hc
    exact (expText_head n hrest c hc).1
  | some digits =>
    rw [hn] at hc
    cases hc
    decide

theorem scanNumber_complete (hrest : Ends rest) (hsize : n.isInteger = true → n.int.length ≤ maxIntDigits) :
    scanNumber (n.text ++ rest) = .ok (!n.isInteger, n.text, rest) := by
  have hexp := expText_head n hrest
  have hfrac := fracText_head n hrest
  have hfloat : (!n.fracText.isEmpty || !n.expText.isEmpty) = !n.isInteger := by
    unfold Number.fracText Number.expText Number.isInteger
    cases n.frac <;> cases n.exp <;> rfl
  have htext : n.text ++ rest = n.signText ++ (n.int ++ (n.fracText ++ (n.expText ++ rest))) := by
    simp [Number.text]
  simp only [scanNumber, htext, scanSign_complete, scanInt_complete hfrac, scanFrac_complete hexp, scanExp_complete hrest, hfloat]
  rw [if_neg]
  · rfl
  · simpa using hsize

/-! The value of a number. -/

def signed (n : Number) : ℤ := if n.neg then -(natOfDigits n.int : ℤ) else natOfDigits n.int

variable (pf : ParseFloat)

def numberValue (n : Number) : Value :=
  if n.isInteger then .int (signed n) else .float ((pf.parse n.text).getD 0)

theorem parseInt_text (h : n.isInteger = true) : parseInt n.text = some (signed n) := by
  have hint : n.int ≠ [] ∧ n.int.all isDigit = true := by
    rcases n.isInt with h | ⟨⟨hne, hdigits⟩, -⟩
    · rw [h]
      decide
    · exact ⟨hne, List.all_eq_true.2 hdigits⟩
  have htext : n.text = n.signText ++ n.int := by
    simp only [Number.isInteger, Bool.and_eq_true, Option.isNone_iff_eq_none] at h
    simp [Number.text, Number.fracText, Number.expText, h]
  rw [htext]
  unfold Number.signText signed
  cases n.neg with
  | true => simp only [if_true, List.singleton_append, parseInt, if_pos hint]
  | false =>
    simp only [Bool.false_eq_true, if_false, List.nil_append]
    unfold parseInt
    split
    · next ds hds =>
      rw [hds] at hint
      cases hint.2
    · rw [if_pos hint]

theorem number_eq (h : scanNumber b = .ok (!n.isInteger, n.text, rest)) :
    number pf b = .ok (numberValue pf n, rest) := by
  unfold number numberValue
  rw [h]
  cases hn : n.isInteger with
  | true => simp [parseInt_text hn]
  | false =>
    obtain ⟨f, hparse, hnan⟩ := pf.accepts n hn
    simp [hparse, hnan]

theorem number_sound {v : Value} (h : number pf b = .ok (v, rest)) :
    ∃ n : Number, b = n.text ++ rest ∧ v = numberValue pf n ∧ (n.isInteger = true → n.int.length ≤ maxIntDigits) := by
  cases hscan : scanNumber b with
  | error e => simp [number, hscan] at h
  | ok found =>
    obtain ⟨_, _, _⟩ := found
    obtain ⟨n, rfl, hsplit, rfl, hsize⟩ := scanNumber_sound hscan
    rw [number_eq pf hscan] at h
    cases h
    exact ⟨n, hsplit, rfl, hsize⟩

end Molebridge.Validate
