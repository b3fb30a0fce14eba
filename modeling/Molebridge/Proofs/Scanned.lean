import Molebridge.Lib.JsonLayout
import Molebridge.Proofs.Decoded
import Molebridge.Spec.GoJson
import Molebridge.Spec.JsonScan

/-! The scanner of the profile gate against the grammar: what it accepts is a text of the
grammar within the limit of nesting, and every such text is scanned to its end, whatever
comes after it. -/

namespace Molebridge.NbProfile

open Utf8 Validate
open Rfc8259 hiding isDigit hex4

/-! ### Strings -/

variable {out rest s cs b : List ℕ} {p dup : Bool} {c fuel depth : ℕ} {n : Number}

theorem put_eq_some {front : List ℕ} {plain : Bool} {r : Option (List ℕ × Bool × List ℕ)}
    (h : put front plain r = some (out, p, rest)) : ∃ out' p', r = some (out', p', rest) := by
  rcases r with _ | ⟨out', p', _⟩
  · cases h
  · simp only [put, Option.some.injEq, Prod.mk.injEq] at h
    exact ⟨out', p', by rw [h.2.2]⟩

@[simp] theorem str_quote (rest : List ℕ) : str (0x22 :: rest) = some ([], true, rest) := by
  rw [str.eq_def]
  rfl

theorem str_plain (rest : List ℕ) (h : isPlain c = true) : str (c :: rest) = put [c] (printable c) (str rest) := by
  rw [isPlain_iff] at h
  rw [str.eq_def]
  dsimp only
  rw [if_neg h.1, if_neg h.2.1, if_neg (by omega)]

theorem str_control (rest : List ℕ) (h : c < 0x20) : str (c :: rest) = none := by
  rw [str.eq_def]
  dsimp only
  rw [if_neg (by omega), if_neg (by omega), if_pos h]

theorem str_short {e : ℕ} (rest : List ℕ) (h : shortEscape e = some c) :
    str (0x5C :: e :: rest) = put (if printable c then [c] else [0x3F]) (printable c) (str rest) := by
  rw [str.eq_def]
  rcases shortEscape_cases h with
    ⟨rfl, rfl⟩ | ⟨rfl, rfl⟩ | ⟨rfl, rfl⟩ | ⟨rfl, rfl⟩ | ⟨rfl, rfl⟩ | ⟨rfl, rfl⟩ | ⟨rfl, rfl⟩ | ⟨rfl, rfl⟩ <;> rfl

theorem str_hex4 (a b c d : ℕ) (rest : List ℕ) : str (0x5C :: 0x75 :: a :: b :: c :: d :: rest) =
    match Validate.hex4 a b c d with
    | none => none
    | some hi =>
      match lowAfter hi rest, rest with
      | some lo, _ :: _ :: _ :: _ :: _ :: _ :: after =>
        putRune (0x10000 + (hi - 0xD800) * 0x400 + (lo - 0xDC00)) (str after)
      | _, rest => putRune (GoJson.rune hi) (str rest) := by
  rw [str.eq_def]
  rfl

theorem str_unicode (rest : List ℕ) : str (0x5C :: 0x75 :: rest) =
    match unicodeEscape rest with
    | some (c, after) => putRune (GoJson.rune c) (str after)
    | none => none := by
  rcases rest with _ | ⟨a, _ | ⟨b, _ | ⟨c, _ | ⟨d, rest⟩⟩⟩⟩
  iterate 4
    rfl
  · rw [str_hex4, hex4_eq, unicodeEscape]
    cases Rfc8259.hex4 a b c d with
    | none => rfl
    | some u =>
      simp only [lowAfter_eq]
      split_ifs with hhigh
      · cases hlow : lowEscape rest with
        | none => rfl
        | some found =>
          obtain ⟨low, _⟩ := found
          obtain ⟨-, a, b, c, d, rfl, -⟩ := lowEscape_some hlow
          have hrune : GoJson.rune (joined u low) = joined u low := by
            refine if_neg fun h => ?_
            have := h.2
            unfold joined at this
            omega
          simp only [hrune]
          rfl
      · rfl

/-- The code points of a string, and the bytes it is read as: a control character may be a question mark. -/
inductive Shown : List ℕ → List ℕ → Prop where
  | nil : Shown [] []
  | rune {c : ℕ} {s out : List ℕ} (rest : Shown s out) : Shown (c :: s) (encode (GoJson.rune c) ++ out)
  | control {c : ℕ} {s out : List ℕ} (hidden : printable c = false) (rest : Shown s out) : Shown (c :: s) (0x3F :: out)

theorem printable_iff : printable c = true ↔ 32 ≤ c ∧ c < 127 := by
  simp [printable]

theorem rune_printable (c : ℕ) : printable (GoJson.rune c) = printable c := by
  unfold GoJson.rune
  split_ifs with h
  · have hc : ¬ printable c = true := by
      rw [printable_iff]
      have := h.1
      omega
    rw [eq_false_of_ne_true hc]
    rfl
  · rfl

theorem rune_of_printable (h : printable c = true) : encode (GoJson.rune c) = [c] := by
  rw [printable_iff] at h
  unfold GoJson.rune
  rw [if_neg (fun hs : IsSurrogate c => by have := hs.1; omega), encode_ascii (by omega)]

theorem Shown.eq_of_plain (h : Shown s out) (hplain : s.all printable = true) : out = s := by
  induction h with
  | nil => rfl
  | @rune c s out _ ih =>
    simp only [List.all_cons, Bool.and_eq_true] at hplain
    rw [rune_of_printable hplain.1, ih hplain.2]
    rfl
  | control hidden _ _ => simp [hidden] at hplain

/-- Where there is no question mark, a string is read as encoding/json reads it. -/
theorem Shown.eq_decoded (h : Shown s out) (hmark : 0x3F ∉ out) : out = GoJson.decoded s := by
  induction h with
  | nil => rfl
  | rune _ ih =>
    rw [ih fun h => hmark (List.mem_append_right _ h)]
    rfl
  | control _ _ _ => exact absurd (.head _) hmark

theorem decoded_of_plain (h : s.all printable = true) : GoJson.decoded s = s := by
  induction s with
  | nil => rfl
  | cons c s ih =>
    simp only [List.all_cons, Bool.and_eq_true] at h
    change encode (GoJson.rune c) ++ GoJson.decoded s = c :: s
    rw [rune_of_printable h.1, ih h.2]
    rfl

theorem str_high {bytes : List ℕ} (rest : List ℕ) (h : ∀ b ∈ bytes, 0x80 ≤ b ∧ b < 0x100) (hne : bytes ≠ []) :
    str (bytes ++ rest) = put bytes false (str rest) := by
  induction bytes with
  | nil => exact absurd rfl hne
  | cons b bytes ih =>
    obtain ⟨_, hbytes⟩ := List.forall_mem_cons.1 h
    have hprint : printable b = false := eq_false_of_ne_true fun hp => by
      rw [printable_iff] at hp
      omega
    rw [List.cons_append, str_plain _ (isPlain_iff.2 (by omega)), hprint]
    cases bytes with
    | nil => rfl
    | cons b' bytes =>
      rw [ih hbytes (List.cons_ne_nil _ _)]
      cases str rest <;> rfl

theorem str_char (rest : List ℕ) (hc : IsScalar c) (h : isPlain c = true) :
    str (encode c ++ rest) = put (encode (GoJson.rune c)) (printable c) (str rest) := by
  have hrune : GoJson.rune c = c := if_neg hc.2
  rw [hrune]
  by_cases hascii : c < 0x80
  · rw [encode_ascii hascii]
    exact str_plain rest h
  · have hprint : printable c = false := eq_false_of_ne_true fun hp => by
      rw [printable_iff] at hp
      omega
    rw [hprint]
    exact str_high rest (encode_high (not_lt.1 hascii) hc.1) (encode_ne_nil c)

theorem str_complete {text : List ℕ} (h : Chars text s) :
    ∃ out, Shown s out ∧ ∀ rest, str (encodeAll text ++ 0x22 :: rest) = some (out, s.all printable, rest) := by
  induction h with
  | nil => exact ⟨[], .nil, fun rest => str_quote rest⟩
  | @unescaped c text s hc hcontrol hquote hback hchars ih =>
    obtain ⟨out, hshown, hread⟩ := ih
    refine ⟨_, .rune hshown, fun rest => ?_⟩
    rw [encodeAll_cons, List.append_assoc, str_char _ hc (isPlain_iff.2 ⟨hquote, hback, hcontrol⟩), hread]
    rfl
  | @escape e c text s hshort hchars ih =>
    obtain ⟨out, hshown, hread⟩ := ih
    refine ⟨(if printable c then [c] else [0x3F]) ++ out, ?_, fun rest => ?_⟩
    · split_ifs with hprint
      · have := Shown.rune (c := c) hshown
        rwa [rune_of_printable hprint] at this
      · exact .control (eq_false_of_ne_true hprint) hshown
    · rw [encodeAll_cons, encodeAll_cons, encode_ascii (by decide), encode_ascii (shortEscape_ascii hshort)]
      simp only [List.cons_append, List.nil_append]
      rw [str_short _ hshort, hread]
      rfl
  | @pair a b c d high low after text s hhex hhigh hnext hchars ih =>
    obtain ⟨_, hshown, hread⟩ := ih
    refine ⟨_, .rune hshown, fun rest => ?_⟩
    obtain ⟨hlow, a', b', c', d', rfl, hhex'⟩ := lowEscape_some hnext
    have hfront := encodeAll_front (0x5C :: 0x75 :: a' :: b' :: c' :: d' :: text) (escape_front_ascii (hex4_ascii hhex).1)
    have hfront' := encodeAll_front text (escape_front_ascii (hex4_ascii hhex').1)
    simp only [List.cons_append, List.nil_append] at hfront hfront'
    rw [hfront, hfront']
    simp only [List.cons_append]
    rw [str_unicode]
    simp only [unicodeEscape, hhex, if_pos hhigh, lowEscape_hex hhex' hlow, hread, putRune, rune_printable]
    rfl
  | @unit a b c d u text s hhex halone hchars ih =>
    obtain ⟨_, hshown, hread⟩ := ih
    refine ⟨_, .rune hshown, fun rest => ?_⟩
    have hfront := encodeAll_front text (escape_front_ascii (hex4_ascii hhex).1)
    simp only [List.cons_append, List.nil_append] at hfront
    have halone' : IsHigh u → lowEscape (encodeAll text ++ 0x22 :: rest) = none := by
      intro hhigh
      refine lowEscape_quote rest ?_
      rw [lowEscape_encodeAll hchars.scalar, halone hhigh]
      rfl
    rw [hfront]
    simp only [List.cons_append]
    rw [str_unicode]
    have hunit : unicodeEscape (a :: b :: c :: d :: (encodeAll text ++ 0x22 :: rest)) =
        some (u, encodeAll text ++ 0x22 :: rest) := by
      simp only [unicodeEscape, hhex]
      split_ifs with hhigh
      · rw [halone' hhigh]
      · rfl
    simp only [hunit, hread, putRune, rune_printable]
    rfl

theorem str_escape {after : List ℕ} (h : str (0x5C :: rest) = some (out, p, after)) :
    ∃ u next out' p', escape rest = some (u, next) ∧ str next = some (out', p', after) := by
  cases rest with
  | nil =>
    cases h
  | cons e rest =>
    simp only [escape]
    cases hshort : shortEscape e with
    | some c =>
      rw [str_short rest hshort] at h
      obtain ⟨out', p', hrest⟩ := put_eq_some h
      exact ⟨c, rest, out', p', rfl, hrest⟩
    | none =>
      split_ifs with hu
      · subst hu
        rw [str_unicode] at h
        cases hunit : unicodeEscape rest with
        | none => simp [hunit] at h
        | some found =>
          obtain ⟨u, next⟩ := found
          simp only [hunit] at h
          obtain ⟨out', p', hrest⟩ := put_eq_some h
          exact ⟨u, next, out', p', rfl, hrest⟩
      · unfold shortEscape at hshort
        split_ifs at hshort with h1 h2 h3 h4 h5 h6
        rw [str.eq_def] at h
        dsimp only at h
        rw [if_neg (by decide), if_pos rfl, if_neg h1, if_neg (by omega), if_neg hu] at h
        cases h

theorem str_sound (hcs : ∀ c ∈ cs, IsScalar c) (h : str (encodeAll cs) = some (out, p, rest)) :
    ∃ text s after, cs = text ++ 0x22 :: after ∧ rest = encodeAll after ∧ Chars text s := by
  induction hlen : cs.length using Nat.strong_induction_on generalizing cs out p with
  | _ n ih =>
    subst hlen
    cases cs with
    | nil =>
      cases h
    | cons c cs =>
      have hc := hcs c (.head _)
      have hcs' : ∀ c ∈ cs, IsScalar c := fun x hx => hcs x (.tail _ hx)
      by_cases hplain : isPlain c = true
      · rw [encodeAll_cons, str_char _ hc hplain] at h
        obtain ⟨_, _, hrest⟩ := put_eq_some h
        obtain ⟨text, s, after, rfl, hafter, hchars⟩ := ih _ (Nat.lt_succ_self _) hcs' hrest rfl
        rw [isPlain_iff] at hplain
        exact ⟨c :: text, c :: s, after, rfl, hafter, .unescaped hc hplain.2.2 hplain.1 hplain.2.1 hchars⟩
      rw [isPlain_iff] at hplain
      rw [encodeAll_cons, encode_ascii (by omega), List.singleton_append] at h
      by_cases hquote : c = 0x22
      · subst hquote
        rw [str_quote] at h
        simp only [Option.some.injEq, Prod.mk.injEq] at h
        exact ⟨[], [], cs, rfl, h.2.2.symm, .nil⟩
      by_cases hback : c = 0x5C
      · subst hback
        obtain ⟨u, _, _, _, hescape, hnext⟩ := str_escape h
        rw [escape_encodeAll hcs'] at hescape
        cases hfound : escape cs with
        | none => simp [hfound] at hescape
        | some found =>
          obtain ⟨u', cs'⟩ := found
          simp only [hfound] at hescape
          obtain ⟨rfl, rfl⟩ := hescape
          obtain ⟨_, rfl⟩ := escape_suffix hfound
          obtain ⟨_, s, after, rfl, hafter, hchars⟩ := ih cs'.length (by simp)
            (fun x hx => hcs' x (List.mem_append_right _ hx)) hnext rfl
          obtain ⟨text', hcs, hstep⟩ := chars_step hfound hchars
          exact ⟨0x5C :: text', u' :: s, after, by rw [hcs]; rfl, hafter, hstep⟩
      · rw [str_control _ (by omega)] at h
        cases h

/-! ### Numbers and words -/

theorem intPart_eq (b : List ℕ) : intPart b =
    match scanInt b with
    | .ok (_, rest) => some rest
    | .error _ => none := by
  cases b with
  | nil => rfl
  | cons c b =>
    simp only [intPart, scanInt]
    by_cases hzero : c = 0x30
    · simp only [if_pos hzero]
    · have hdigit : isDigit c = true ↔ 0x31 ≤ c ∧ c ≤ 0x39 := by
        simp only [isDigit, Bool.and_eq_true, decide_eq_true_eq]
        omega
      simp only [hdigit]
      split_ifs <;> rfl

theorem digits_some (h : digits b = some rest) : b.takeWhile isDigit ≠ [] ∧ b.dropWhile isDigit = rest := by
  unfold digits at h
  split_ifs at h with hempty
  exact ⟨fun hnil => hempty (by rw [hnil]; rfl), Option.some.inj h⟩

theorem fracPart_sound (h : fracPart b = some rest) : (scanFrac b).2 = rest := by
  unfold fracPart at h
  split at h
  · next after =>
    obtain ⟨hne, hrest⟩ := digits_some h
    cases after with
    | nil => exact absurd rfl hne
    | cons d after =>
      have hd : isDigit d = true := by
        by_contra hd
        exact hne (List.takeWhile_cons_of_neg hd)
      rw [scanFrac, if_pos hd]
      exact hrest
  · next hpoint =>
    cases h
    unfold scanFrac
    split
    · next d after => exact absurd rfl (hpoint (d :: after))
    · rfl

theorem expPart_sound (h : expPart b = some rest) : (scanExp b).2 = rest := by
  cases b with
  | nil => exact Option.some.inj h
  | cons c b =>
    simp only [expPart] at h
    simp only [scanExp]
    split_ifs at h with hmark
    · obtain ⟨hne, hrest⟩ := digits_some h
      rw [if_pos hmark]
      cases htake : (scanExpSign b).2.takeWhile isDigit with
      | nil => exact absurd htake hne
      | cons d ds => exact hrest
    · rw [if_neg hmark]
      exact Option.some.inj h

theorem number_sound (h : number b = some rest) : ∃ n : Number, b = n.text ++ rest := by
  obtain ⟨b₂, h₂, hexp⟩ := Option.bind_eq_some_iff.1 h
  obtain ⟨_, hint, hfrac⟩ := Option.bind_eq_some_iff.1 h₂
  obtain ⟨neg, hneg, hsign⟩ := scanSign_sound b
  rw [intPart_eq] at hint
  cases hscan : scanInt (scanSign b).2 with
  | error e => simp [hscan] at hint
  | ok found =>
    obtain ⟨int, after⟩ := found
    simp only [hscan, Option.some.injEq] at hint
    obtain rfl := hint
    obtain ⟨hint, hafter⟩ := scanInt_sound hscan
    obtain ⟨frac, hdigits, hfracText, hsplit⟩ := scanFrac_sound after
    obtain ⟨exp, hexpText, hrest⟩ := scanExp_sound b₂
    rw [fracPart_sound hfrac] at hsplit
    rw [expPart_sound hexp] at hrest
    refine ⟨⟨neg, int, frac, exp, hint, hdigits⟩, ?_⟩
    have hparts : b = (scanSign b).1 ++ (int ++ ((scanFrac after).1 ++ ((scanExp b₂).1 ++ rest))) := by
      rw [← hrest, ← hsplit, ← hafter, ← hsign]
    rw [hparts, hneg, hfracText, hexpText]
    simp [Number.text, Number.signText, Number.fracText, Number.expText]

theorem digits_complete {ds : List ℕ} (hds : IsDigits ds) (hrest : ∀ c ∈ rest.head?, isDigit c = false) :
    digits (ds ++ rest) = some rest := by
  have hread := digits_read hds.2 hrest
  unfold digits
  rw [hread.1, hread.2, if_neg]
  simpa using hds.1

theorem fracPart_complete (hrest : ∀ c ∈ rest.head?, isDigit c = false ∧ c ≠ 0x2E) :
    fracPart (n.fracText ++ rest) = some rest := by
  unfold Number.fracText
  cases hfrac : n.frac with
  | none =>
    simp only [Option.elim, List.nil_append]
    unfold fracPart
    split
    · next after => exact absurd rfl (hrest 0x2E rfl).2
    · rfl
  | some ds => exact digits_complete (n.isFrac ds hfrac) fun c hc => (hrest c hc).1

theorem expPart_complete (hrest : Ends rest) : expPart (n.expText ++ rest) = some rest := by
  unfold Number.expText
  cases n.exp with
  | none =>
    cases rest with
    | nil => rfl
    | cons c rest =>
      obtain ⟨-, -, _, _⟩ := hrest c rfl
      exact if_neg (by omega)
  | some e =>
    simp only [Option.elim, Exp.text, List.cons_append, List.append_assoc, expPart, if_pos e.isMark, scanExpSign_complete]
    exact digits_complete e.isDigits fun c hc => (hrest c hc).1

theorem number_complete (hrest : Ends rest) : number (n.text ++ rest) = some rest := by
  have htext : n.text ++ rest = n.signText ++ (n.int ++ (n.fracText ++ (n.expText ++ rest))) := by
    simp [Number.text]
  rw [number, htext, scanSign_complete, intPart_eq, scanInt_complete (fracText_head n hrest)]
  dsimp only [Option.bind_some]
  rw [fracPart_complete (expText_head n hrest)]
  exact expPart_complete hrest

def kindOf : Tree → ValueKind
  | .null => .null
  | .bool true => .litTrue
  | .bool false => .litFalse
  | .num _ => .number
  | .str _ => .string
  | .arr _ => .array
  | .obj _ => .object

theorem word_some {kind : ValueKind} (h : word b = some (kind, rest)) :
    ∃ t : Tree, ∃ text, Spells t text ∧ t.nesting = 0 ∧ (∀ c ∈ text, c < 0x80) ∧ b = text ++ rest := by
  unfold word at h
  cases htrue : literal wordTrue b with
  | some after =>
    simp only [htrue, Option.some.injEq, Prod.mk.injEq] at h
    exact ⟨.bool true, trueText, rfl, rfl, by decide, h.2 ▸ literal_eq_some.1 htrue⟩
  | none =>
    cases hfalse : literal wordFalse b with
    | some after =>
      simp only [htrue, hfalse, Option.some.injEq, Prod.mk.injEq] at h
      exact ⟨.bool false, falseText, rfl, rfl, by decide, h.2 ▸ literal_eq_some.1 hfalse⟩
    | none =>
      cases hnull : literal wordNull b with
      | some after =>
        simp only [htrue, hfalse, hnull, Option.some.injEq, Prod.mk.injEq] at h
        exact ⟨.null, nullText, rfl, rfl, by decide, h.2 ▸ literal_eq_some.1 hnull⟩
      | none => simp [htrue, hfalse, hnull] at h

theorem word_none (b : List ℕ) (h : c ≠ 0x74 ∧ c ≠ 0x66 ∧ c ≠ 0x6E) : word (c :: b) = none := by
  have hword {w : ℕ} {ws : List ℕ} (hw : c ≠ w) : literal (w :: ws) (c :: b) = none := by
    cases hl : literal (w :: ws) (c :: b) with
    | none => rfl
    | some rest => exact absurd (List.cons.inj (literal_eq_some.1 hl)).1 hw
  unfold word wordTrue wordFalse wordNull
  rw [hword h.1, hword h.2.1, hword h.2.2]

/-! ### What is accepted -/

theorem objectLoop_some {seen : List (List ℕ)} {ms : List Member}
    (h : objectLoop (fuel + 1) depth seen b = some (ms, dup, rest)) :
    ∃ b₁ key plain b₂ b₃ v, skipWS b = 0x22 :: b₁ ∧ str b₁ = some (key, plain, b₂) ∧ skipWS b₂ = 0x3A :: b₃ ∧
      value fuel depth (skipWS b₃) = some v ∧
      ((∃ next ms' dup', skipWS v.rest = 0x2C :: next ∧ objectLoop fuel depth (key :: seen) next = some (ms', dup', rest)) ∨
        skipWS v.rest = 0x7D :: rest) := by
  simp only [objectLoop] at h
  split at h
  case h_2 => cases h
  case h_1 b₁ hquote =>
  cases hkey : str b₁ with
  | none => simp [hkey] at h
  | some found =>
    obtain ⟨key, plain, b₂⟩ := found
    simp only [hkey] at h
    split at h
    case h_2 => cases h
    case h_1 b₃ hcolon =>
    cases hitem : value fuel depth (skipWS b₃) with
    | none => simp [hitem] at h
    | some v =>
      simp only [hitem] at h
      split at h
      case h_1 next hcomma =>
        obtain ⟨⟨ms', dup', _⟩, hloop, heq⟩ := Option.map_eq_some_iff.1 h
        obtain ⟨-, -, rfl⟩ := heq
        exact ⟨b₁, key, plain, b₂, b₃, v, hquote, hkey, hcolon, hitem, .inl ⟨next, ms', dup', hcomma, hloop⟩⟩
      case h_2 next hclose =>
        simp only [Option.some.injEq, Prod.mk.injEq] at h
        exact ⟨b₁, key, plain, b₂, b₃, v, hquote, hkey, hcolon, hitem, .inr (h.2.2 ▸ hclose)⟩
      case h_3 => cases h

theorem arrayLoop_some (h : arrayLoop (fuel + 1) depth b = some (dup, rest)) :
    ∃ v, value fuel depth (skipWS b) = some v ∧
      ((∃ next dup', skipWS v.rest = 0x2C :: next ∧ arrayLoop fuel depth next = some (dup', rest)) ∨
        skipWS v.rest = 0x5D :: rest) := by
  simp only [arrayLoop] at h
  cases hitem : value fuel depth (skipWS b) with
  | none => simp [hitem] at h
  | some v =>
    simp only [hitem] at h
    split at h
    case h_1 next hcomma =>
      obtain ⟨⟨dup', _⟩, hloop, heq⟩ := Option.map_eq_some_iff.1 h
      obtain ⟨-, rfl⟩ := heq
      exact ⟨v, rfl, .inl ⟨next, dup', hcomma, hloop⟩⟩
    case h_2 next hclose =>
      simp only [Option.some.injEq, Prod.mk.injEq] at h
      exact ⟨v, rfl, .inr (h.2 ▸ hclose)⟩
    case h_3 => cases h

theorem skipWS_sound (hcs : ∀ c ∈ cs, IsScalar c) :
    ∃ w cs', cs = w ++ cs' ∧ IsWs w ∧ (∀ c ∈ cs', IsScalar c) ∧ skipWS (encodeAll cs) = encodeAll cs' := space_sound hcs

def ValueSound (fuel : ℕ) : Prop :=
  ∀ (depth : ℕ) (cs : List ℕ) (v : Scanned), (∀ c ∈ cs, IsScalar c) → depth ≤ maxNesting →
    value fuel depth (encodeAll cs) = some v →
    ∃ t text after, cs = text ++ after ∧ v.rest = encodeAll after ∧ Spells t text ∧ depth + t.nesting ≤ maxNesting

def ItemsSound (fuel : ℕ) : Prop :=
  ∀ (depth : ℕ) (cs : List ℕ) (dup : Bool) (rest : List ℕ), (∀ c ∈ cs, IsScalar c) → depth ≤ maxNesting →
    arrayLoop fuel depth (encodeAll cs) = some (dup, rest) →
    ∃ t ts body after, cs = body ++ 0x5D :: after ∧ rest = encodeAll after ∧ Elements (t :: ts) body ∧
      depth + nestingItems (t :: ts) ≤ maxNesting

def MembersSound (fuel : ℕ) : Prop :=
  ∀ (depth : ℕ) (seen : List (List ℕ)) (cs : List ℕ) (ms : List Member) (dup : Bool) (rest : List ℕ), (∀ c ∈ cs, IsScalar c) →
    depth ≤ maxNesting → objectLoop fuel depth seen (encodeAll cs) = some (ms, dup, rest) →
    ∃ m fields body after, cs = body ++ 0x7D :: after ∧ rest = encodeAll after ∧ Fields (m :: fields) body ∧
      depth + nestingMembers (m :: fields) ≤ maxNesting

theorem ValueSound.spaced {v : Scanned} (hsound : ValueSound fuel) (hcs : ∀ c ∈ cs, IsScalar c)
    (hdepth : depth ≤ maxNesting) (h : value fuel depth (skipWS (encodeAll cs)) = some v) :
    ∃ t w text after, cs = w ++ text ++ after ∧ v.rest = encodeAll after ∧ IsWs w ∧ Spells t text ∧
      depth + t.nesting ≤ maxNesting ∧ ∀ c ∈ after, IsScalar c := by
  obtain ⟨w, cs', rfl, hw, hcs', hspace⟩ := skipWS_sound hcs
  obtain ⟨t, text, after, rfl, hrest, hspells, hnesting⟩ := hsound depth cs' v hcs' hdepth (hspace ▸ h)
  exact ⟨t, w, text, after, by rw [List.append_assoc], hrest, hw, hspells, hnesting, (List.forall_mem_append.1 hcs').2⟩

theorem items_step (hvalue : ValueSound fuel) (hitems : ItemsSound fuel) : ItemsSound (fuel + 1) := by
  intro depth cs dup rest hcs hdepth h
  obtain ⟨v, hitem, hnext⟩ := arrayLoop_some h
  obtain ⟨t, w, text, after, rfl, hrest, hw, hspells, hnesting, hafter⟩ := hvalue.spaced hcs hdepth hitem
  rw [hrest] at hnext
  rcases hnext with ⟨_, _, hcomma, hloop⟩ | hclose
  · obtain ⟨w', cs', rfl, hw', hcs', rfl⟩ := space_peel (by decide) hafter hcomma
    obtain ⟨t', ts, body, after, rfl, rfl, helements, _⟩ := hitems _ _ _ _ hcs' hdepth hloop
    refine ⟨t, t' :: ts, w ++ text ++ w' ++ 0x2C :: body, after, by simp, rfl, ⟨w, text, w', body, hw, hspells, hw', helements, rfl⟩, ?_⟩
    rw [nestingItems]
    omega
  · obtain ⟨w', cs', rfl, hw', -, rfl⟩ := space_peel (by decide) hafter hclose
    refine ⟨t, [], w ++ text ++ w', cs', by simp, rfl, ⟨w, text, w', hw, hspells, hw', rfl⟩, ?_⟩
    simpa [nestingItems] using hnesting

theorem members_step (hvalue : ValueSound fuel) (hmembers : MembersSound fuel) : MembersSound (fuel + 1) := by
  intro depth seen cs ms dup rest hcs hdepth h
  obtain ⟨_, _, _, _, _, v, hquote, hkey, hcolon, hitem, hnext⟩ := objectLoop_some h
  obtain ⟨w, _, rfl, hw, hcs₁, rfl⟩ := space_peel (by decide) hcs hquote
  obtain ⟨kbody, k, _, rfl, rfl, hchars⟩ := str_sound hcs₁ hkey
  have hcs₂ := (List.forall_mem_cons.1 (List.forall_mem_append.1 hcs₁).2).2
  obtain ⟨w₁, _, rfl, hw₁, hcs₃, rfl⟩ := space_peel (by decide) hcs₂ hcolon
  obtain ⟨t, w₂, text, after, rfl, hrest, hw₂, hspells, hnesting, hafter⟩ := hvalue.spaced hcs₃ hdepth hitem
  have hquoted : Quoted k (0x22 :: kbody ++ [0x22]) := ⟨kbody, hchars, rfl⟩
  rw [hrest] at hnext
  rcases hnext with ⟨_, _, _, hcomma, hloop⟩ | hclose
  · obtain ⟨w', cs', rfl, hw', hcs', rfl⟩ := space_peel (by decide) hafter hcomma
    obtain ⟨m, fields, body, after, rfl, rfl, hfields, _⟩ := hmembers _ _ _ _ _ _ hcs' hdepth hloop
    refine ⟨(k, t), m :: fields, w ++ (0x22 :: kbody ++ [0x22]) ++ w₁ ++ 0x3A :: w₂ ++ text ++ w' ++ 0x2C :: body, after, by simp,
      rfl, ⟨w, _, w₁, w₂, text, w', body, hw, hquoted, hw₁, hw₂, hspells, hw', hfields, rfl⟩, ?_⟩
    rw [nestingMembers]
    omega
  · obtain ⟨w', cs', rfl, hw', -, rfl⟩ := space_peel (by decide) hafter hclose
    refine ⟨(k, t), [], w ++ (0x22 :: kbody ++ [0x22]) ++ w₁ ++ 0x3A :: w₂ ++ text ++ w', cs', by simp, rfl,
      ⟨w, _, w₁, w₂, text, w', hw, hquoted, hw₁, hw₂, hspells, hw', rfl⟩, ?_⟩
    simpa [nestingMembers] using hnesting

theorem array_sound (hitems : ItemsSound fuel) (hcs : ∀ c ∈ cs, IsScalar c)
    (h : array (depth + 1) (encodeAll cs) (arrayLoop fuel (depth + 1)) = some (dup, rest)) :
    ∃ t text after, 0x5B :: cs = text ++ after ∧ rest = encodeAll after ∧ Spells t text ∧ depth + t.nesting ≤ maxNesting := by
  unfold array at h
  split_ifs at h with hdepth
  split at h
  · next after hclose =>
    obtain ⟨w, cs', rfl, hw, -, rfl⟩ := space_peel (by decide) hcs hclose
    simp only [Option.some.injEq, Prod.mk.injEq] at h
    exact ⟨.arr [], 0x5B :: w ++ [0x5D], cs', by simp, h.2.symm, ⟨w, hw, rfl⟩, not_lt.1 hdepth⟩
  · obtain ⟨w, _, rfl, hw, hcs', hspace⟩ := skipWS_sound hcs
    obtain ⟨t, ts, body, after, rfl, rfl, helements, _⟩ := hitems _ _ _ _ hcs' (not_lt.1 hdepth) (hspace ▸ h)
    refine ⟨.arr (t :: ts), 0x5B :: (w ++ body) ++ [0x5D], after, by simp, rfl, ⟨w ++ body, elements_space hw helements, rfl⟩, ?_⟩
    rw [Tree.nesting]
    omega

theorem object_sound {ms : List Member} (hmembers : MembersSound fuel) (hcs : ∀ c ∈ cs, IsScalar c)
    (h : object (depth + 1) (encodeAll cs) (objectLoop fuel (depth + 1) []) = some (ms, dup, rest)) :
    ∃ fields body after, cs = body ++ 0x7D :: after ∧ rest = encodeAll after ∧ Fields fields body ∧
      depth + 1 + nestingMembers fields ≤ maxNesting := by
  unfold object at h
  split_ifs at h with hdepth
  split at h
  · next after hclose =>
    obtain ⟨w, cs', rfl, hw, -, rfl⟩ := space_peel (by decide) hcs hclose
    simp only [Option.some.injEq, Prod.mk.injEq] at h
    exact ⟨[], w, cs', rfl, h.2.2.symm, hw, not_lt.1 hdepth⟩
  · obtain ⟨w, _, rfl, hw, hcs', hspace⟩ := skipWS_sound hcs
    obtain ⟨m, fields, body, after, rfl, rfl, hfields, hnesting⟩ := hmembers _ _ _ _ _ _ hcs' (not_lt.1 hdepth) (hspace ▸ h)
    exact ⟨m :: fields, w ++ body, after, by simp, rfl, fields_space hw hfields, hnesting⟩

theorem value_step (hitems : ItemsSound fuel) (hmembers : MembersSound fuel) : ValueSound (fuel + 1) := by
  intro depth cs v hcs hdepth h
  cases hbytes : encodeAll cs with
  | nil =>
    rw [hbytes, value] at h
    cases h
  | cons b bytes =>
    rw [hbytes] at h
    simp only [value] at h
    by_cases hobject : b = 0x7B
    · rw [if_pos hobject] at h
      obtain ⟨cs', rfl, rfl⟩ := peel (by omega) hcs hbytes
      obtain ⟨⟨_, _, _⟩, hfound, rfl⟩ := Option.map_eq_some_iff.1 h
      obtain ⟨fields, body, after, rfl, hrest, hfields, _⟩ := object_sound hmembers (List.forall_mem_cons.1 hcs).2 hfound
      refine ⟨.obj fields, 0x7B :: body ++ [0x7D], after, by simp [hobject], hrest, ⟨body, hfields, rfl⟩, ?_⟩
      rw [Tree.nesting]
      omega
    rw [if_neg hobject] at h
    by_cases harray : b = 0x5B
    · rw [if_pos harray] at h
      obtain ⟨cs', rfl, rfl⟩ := peel (by omega) hcs hbytes
      obtain ⟨⟨_, _⟩, hfound, rfl⟩ := Option.map_eq_some_iff.1 h
      exact harray ▸ array_sound hitems (List.forall_mem_cons.1 hcs).2 hfound
    rw [if_neg harray] at h
    by_cases hstring : b = 0x22
    · rw [if_pos hstring] at h
      obtain ⟨cs', rfl, rfl⟩ := peel (by omega) hcs hbytes
      obtain ⟨⟨s, _, _⟩, hfound, rfl⟩ := Option.map_eq_some_iff.1 h
      obtain ⟨text, s', after, rfl, rfl, hchars⟩ := str_sound (List.forall_mem_cons.1 hcs).2 hfound
      exact ⟨.str s', 0x22 :: text ++ [0x22], after, by simp [hstring], rfl, ⟨text, hchars, rfl⟩, hdepth⟩
    rw [if_neg hstring] at h
    cases hword : word (b :: bytes) with
    | some found =>
      simp only [hword, Option.some.injEq] at h
      obtain ⟨t, text, hspells, _, hascii, htext⟩ := word_some hword
      obtain ⟨cs', rfl, hrest⟩ := peelAll hascii hcs (hbytes.trans htext)
      exact ⟨t, text, cs', rfl, by rw [← h, hrest], hspells, by omega⟩
    | none =>
      simp only [hword] at h
      split_ifs at h with hdigit
      obtain ⟨_, hfound, rfl⟩ := Option.map_eq_some_iff.1 h
      obtain ⟨n, hn⟩ := number_sound hfound
      obtain ⟨cs', rfl, hrest⟩ := peelAll n.ascii hcs (hbytes.trans hn)
      exact ⟨.num n, n.text, cs', rfl, hrest, rfl, hdepth⟩

/-- What the scanner accepts is a value of the grammar within the limit of nesting. -/
theorem scans_sound (fuel : ℕ) : ValueSound fuel ∧ ItemsSound fuel ∧ MembersSound fuel := by
  induction fuel with
  | zero =>
    refine ⟨fun _ _ _ _ _ h => ?_, fun _ _ _ _ _ _ h => ?_, fun _ _ _ _ _ _ _ _ h => ?_⟩
    · simp [value] at h
    · simp [arrayLoop] at h
    · simp [objectLoop] at h
  | succ fuel ih =>
    obtain ⟨hvalue, hitems, hmembers⟩ := ih
    exact ⟨value_step hitems hmembers, items_step hvalue hitems, members_step hvalue hmembers⟩

end Molebridge.NbProfile
