import Mathlib.Tactic
import Molebridge.Lib.Utf8

/-! The JSON grammar of RFC 8259 over the characters of a text, with what each text means:
a tree whose strings and member names are unescaped and whose numbers are as spelled. -/

namespace Molebridge.Rfc8259

open Utf8

def isWs (c : ℕ) : Bool := c = 0x20 || c = 0x09 || c = 0x0A || c = 0x0D

/-- Insignificant white space. -/
def IsWs (text : List ℕ) : Prop := ∀ c ∈ text, isWs c = true

variable {c low a b d : ℕ} {after s : List ℕ}

theorem isWs_ascii (h : isWs c = true) : c < 0x80 := by
  simp only [isWs, Bool.or_eq_true, decide_eq_true_eq] at h
  omega

theorem isWs_nil : IsWs [] := fun _ h => nomatch h

theorem isWs_blank : IsWs [0x20] := List.forall_mem_singleton.2 rfl

/-! ### Numbers -/

def isDigit (c : ℕ) : Bool := 0x30 ≤ c && c ≤ 0x39

def IsDigits (text : List ℕ) : Prop := text ≠ [] ∧ ∀ c ∈ text, isDigit c = true

/-- An exponent: e or E, a sign that may be left out, digits. -/
structure Exp where
  mark : ℕ
  sign : List ℕ
  digits : List ℕ
  isMark : mark = 0x65 ∨ mark = 0x45
  isSign : sign = [] ∨ sign = [0x2B] ∨ sign = [0x2D]
  isDigits : IsDigits digits

/-- A number: no leading zeros, digits after a point. -/
structure Number where
  neg : Bool
  int : List ℕ
  frac : Option (List ℕ)
  exp : Option Exp
  isInt : int = [0x30] ∨ IsDigits int ∧ int.head? ≠ some 0x30
  isFrac : ∀ digits ∈ frac, IsDigits digits

def Exp.text (e : Exp) : List ℕ := e.mark :: e.sign ++ e.digits

namespace Number

variable (n : Number)

def signText : List ℕ := if n.neg then [0x2D] else []

def fracText : List ℕ := n.frac.elim [] fun digits => 0x2E :: digits

def expText : List ℕ := n.exp.elim [] Exp.text

def text : List ℕ := n.signText ++ n.int ++ n.fracText ++ n.expText

def isInteger : Bool := n.frac.isNone && n.exp.isNone

end Number

theorem isDigit_ascii (h : isDigit c = true) : c < 0x80 := by
  simp only [isDigit, Bool.and_eq_true, decide_eq_true_eq] at h
  omega

theorem Exp.ascii (e : Exp) : ∀ c ∈ e.text, c < 0x80 := by
  intro c hc
  rcases List.mem_append.1 hc with hc | hc
  · rcases List.mem_cons.1 hc with rfl | hc
    · rcases e.isMark with h | h <;> omega
    · rcases e.isSign with h | h | h <;> simp_all
  · exact isDigit_ascii (e.isDigits.2 c hc)

theorem Number.ascii (n : Number) : ∀ c ∈ n.text, c < 0x80 := by
  intro c hc
  simp only [Number.text, List.mem_append] at hc
  rcases hc with ((hc | hc) | hc) | hc
  · unfold Number.signText at hc
    split_ifs at hc <;> simp_all
  · rcases n.isInt with h | h
    · simp_all
    · exact isDigit_ascii (h.1.2 c hc)
  · unfold Number.fracText at hc
    cases hfrac : n.frac with
    | none => simp [hfrac] at hc
    | some digits =>
      rw [hfrac] at hc
      rcases List.mem_cons.1 hc with rfl | hc
      · decide
      · exact isDigit_ascii ((n.isFrac digits hfrac).2 c hc)
  · unfold Number.expText at hc
    cases hexp : n.exp with
    | none => simp [hexp] at hc
    | some e => exact e.ascii c (by simpa [hexp] using hc)

theorem Number.head (n : Number) : ∃ c more, n.text = c :: more ∧ (c = 0x2D ∨ 0x30 ≤ c ∧ c ≤ 0x39) := by
  have hint : ∃ c more, n.int = c :: more ∧ 0x30 ≤ c ∧ c ≤ 0x39 := by
    rcases n.isInt with h | ⟨⟨hne, hdigits⟩, -⟩
    · exact ⟨0x30, [], h, by decide, by decide⟩
    · obtain ⟨c, more, hint⟩ := List.exists_cons_of_ne_nil hne
      have := hdigits c (hint ▸ (.head _))
      simp only [isDigit, Bool.and_eq_true, decide_eq_true_eq] at this
      exact ⟨c, more, hint, this⟩
  obtain ⟨c, _, hint, hc⟩ := hint
  unfold Number.text Number.signText
  cases n.neg with
  | true => exact ⟨0x2D, _, rfl, .inl rfl⟩
  | false =>
    rw [hint]
    exact ⟨c, _, rfl, .inr hc⟩

def digitsValue (ds : List ℕ) : ℕ := ds.foldl (fun n d => 10 * n + (d - 0x30)) 0

def Exp.value (e : Exp) : ℤ := if e.sign = [0x2D] then -(digitsValue e.digits : ℤ) else digitsValue e.digits

def Number.magnitude (n : Number) : ℚ :=
  digitsValue (n.int ++ n.frac.getD []) * (10 : ℚ) ^ (n.exp.elim 0 Exp.value - (n.frac.getD []).length)

theorem digitsValue_foldl (a : ℕ) (ds : List ℕ) :
    ds.foldl (fun n d => 10 * n + (d - 0x30)) a = a * 10 ^ ds.length + digitsValue ds := by
  unfold digitsValue
  induction ds generalizing a with
  | nil => simp
  | cons d ds ih =>
    rw [List.foldl_cons, List.foldl_cons, ih, ih (10 * 0 + (d - 0x30)), List.length_cons, pow_succ]
    ring

theorem digitsValue_append (ds ds' : List ℕ) : digitsValue (ds ++ ds') = digitsValue ds * 10 ^ ds'.length + digitsValue ds' := by
  rw [digitsValue, List.foldl_append, digitsValue_foldl]
  rfl

theorem digitsValue_zeros (n : ℕ) : digitsValue (List.replicate n 0x30) = 0 := by
  induction n with
  | zero => rfl
  | succ n ih =>
    rw [List.replicate_succ', digitsValue_append, ih]
    rfl

theorem digitsValue_lt {ds : List ℕ} (h : ∀ c ∈ ds, isDigit c = true) : digitsValue ds < 10 ^ ds.length := by
  induction ds using List.reverseRecOn with
  | nil => simp [digitsValue]
  | append_singleton ds d ih =>
    have hd := h d (by simp)
    simp only [isDigit, Bool.and_eq_true, decide_eq_true_eq] at hd
    have := ih fun c hc => h c (List.mem_append_left _ hc)
    have hone : digitsValue [d] = d - 0x30 := by simp [digitsValue]
    rw [digitsValue_append, List.length_append, List.length_singleton, pow_succ, hone]
    omega

/-! ### Strings -/

def hexDigit (c : ℕ) : Option ℕ :=
  if 0x30 ≤ c ∧ c ≤ 0x39 then some (c - 0x30)
  else if 0x61 ≤ c ∧ c ≤ 0x66 then some (c - 0x61 + 10)
  else if 0x41 ≤ c ∧ c ≤ 0x46 then some (c - 0x41 + 10)
  else none

def hex4 (a b c d : ℕ) : Option ℕ :=
  match hexDigit a, hexDigit b, hexDigit c, hexDigit d with
  | some a, some b, some c, some d => some (((a * 16 + b) * 16 + c) * 16 + d)
  | _, _, _, _ => none

/-- What a two-character escape stands for. -/
def shortEscape (e : ℕ) : Option ℕ :=
  if e = 0x22 ∨ e = 0x5C ∨ e = 0x2F then some e
  else if e = 0x62 then some 0x08
  else if e = 0x66 then some 0x0C
  else if e = 0x6E then some 0x0A
  else if e = 0x72 then some 0x0D
  else if e = 0x74 then some 0x09
  else none

def IsHigh (u : ℕ) : Prop := 0xD800 ≤ u ∧ u < 0xDC00
def IsLow (u : ℕ) : Prop := 0xDC00 ≤ u ∧ u < 0xE000

instance (u : ℕ) : Decidable (IsHigh u) := inferInstanceAs (Decidable (_ ∧ _))
instance (u : ℕ) : Decidable (IsLow u) := inferInstanceAs (Decidable (_ ∧ _))

/-- The code point of a surrogate pair. -/
def joined (high low : ℕ) : ℕ := 0x10000 + (high - 0xD800) * 0x400 + (low - 0xDC00)

/-- The low surrogate a text begins with, as an escape. -/
def lowEscape : List ℕ → Option (ℕ × List ℕ)
  | 0x5C :: 0x75 :: a :: b :: c :: d :: rest =>
    match hex4 a b c d with
    | some u => if IsLow u then some (u, rest) else none
    | none => none
  | _ => none

/-- The characters between the quotes of a string, and the code points they stand for. A
high surrogate with a low one after it is one code point; any other stands for itself. -/
inductive Chars : List ℕ → List ℕ → Prop where
  | nil : Chars [] []
  | unescaped {c : ℕ} {text s : List ℕ} (scalar : IsScalar c) (control : 0x20 ≤ c) (quote : c ≠ 0x22) (backslash : c ≠ 0x5C)
      (rest : Chars text s) : Chars (c :: text) (c :: s)
  | escape {e c : ℕ} {text s : List ℕ} (short : shortEscape e = some c) (rest : Chars text s) :
      Chars (0x5C :: e :: text) (c :: s)
  | pair {a b c d high low : ℕ} {after text s : List ℕ} (hex : hex4 a b c d = some high) (isHigh : IsHigh high)
      (next : lowEscape after = some (low, text)) (rest : Chars text s) :
      Chars (0x5C :: 0x75 :: a :: b :: c :: d :: after) (joined high low :: s)
  | unit {a b c d u : ℕ} {text s : List ℕ} (hex : hex4 a b c d = some u) (alone : IsHigh u → lowEscape text = none)
      (rest : Chars text s) : Chars (0x5C :: 0x75 :: a :: b :: c :: d :: text) (u :: s)

theorem lowEscape_some {rest : List ℕ} (h : lowEscape rest = some (low, after)) :
    IsLow low ∧ ∃ a b c d, rest = 0x5C :: 0x75 :: a :: b :: c :: d :: after ∧ hex4 a b c d = some low := by
  unfold lowEscape at h
  split at h
  · next a b c d rest =>
    cases hhex : hex4 a b c d with
    | none => simp [hhex] at h
    | some u =>
      simp only [hhex] at h
      split_ifs at h with hlow
      obtain ⟨rfl, rfl⟩ := h
      exact ⟨hlow, a, b, c, d, rfl, hhex⟩
  · cases h

theorem hexDigit_ascii {v : ℕ} (h : hexDigit c = some v) : c < 0x80 ∧ v < 16 := by
  unfold hexDigit at h
  split_ifs at h with h1 h2 h3
  all_goals
    cases h
    omega

theorem hex4_ascii {u : ℕ} (h : hex4 a b c d = some u) :
    (a < 0x80 ∧ b < 0x80 ∧ c < 0x80 ∧ d < 0x80) ∧ u < 0x10000 := by
  unfold hex4 at h
  split at h
  · next ha hb hc hd =>
    cases h
    have := hexDigit_ascii ha
    have := hexDigit_ascii hb
    have := hexDigit_ascii hc
    have := hexDigit_ascii hd
    omega
  · cases h

theorem lowEscape_hex (hhex : hex4 a b c d = some low) (hlow : IsLow low) :
    lowEscape (0x5C :: 0x75 :: a :: b :: c :: d :: after) = some (low, after) := by
  simp [lowEscape, hhex, if_pos hlow]

theorem escape_front_ascii (h : a < 0x80 ∧ b < 0x80 ∧ c < 0x80 ∧ d < 0x80) :
    ∀ x ∈ [0x5C, 0x75, a, b, c, d], x < 0x80 := by
  simp only [List.forall_mem_cons, List.not_mem_nil, false_imp_iff, implies_true, and_true]
  omega

theorem lowEscape_append {text : List ℕ} (rest : List ℕ) (h : lowEscape text = some (low, after)) :
    lowEscape (text ++ rest) = some (low, after ++ rest) := by
  obtain ⟨hlow, a, b, c, d, rfl, hhex⟩ := lowEscape_some h
  exact lowEscape_hex hhex hlow

theorem shortEscape_cases {e : ℕ} (h : shortEscape e = some c) :
    e = 0x22 ∧ c = 0x22 ∨ e = 0x5C ∧ c = 0x5C ∨ e = 0x2F ∧ c = 0x2F ∨ e = 0x62 ∧ c = 0x08 ∨ e = 0x66 ∧ c = 0x0C ∨
      e = 0x6E ∧ c = 0x0A ∨ e = 0x72 ∧ c = 0x0D ∨ e = 0x74 ∧ c = 0x09 := by
  unfold shortEscape at h
  split_ifs at h with h1 h2 h3 h4 h5 h6
  · cases h
    rcases h1 with rfl | rfl | rfl <;> simp
  all_goals
    cases h
    simp only [*, and_self, true_or, or_true]

theorem shortEscape_ascii {e : ℕ} (h : shortEscape e = some c) : e < 0x80 := by
  have := shortEscape_cases h
  omega

theorem Chars.scalar {text : List ℕ} (h : Chars text s) : ∀ c ∈ text, IsScalar c := by
  have hunit {a b c d u : ℕ} {text : List ℕ} (hhex : hex4 a b c d = some u) (ih : ∀ c ∈ text, IsScalar c) :
      ∀ x ∈ [0x5C, 0x75, a, b, c, d] ++ text, IsScalar x := by
    intro x hx
    rcases List.mem_append.1 hx with hx | hx
    · exact isScalar_of_ascii (escape_front_ascii (hex4_ascii hhex).1 x hx)
    · exact ih x hx
  induction h with
  | nil => exact fun c hc => nomatch hc
  | unescaped hc _ _ _ _ ih => exact List.forall_mem_cons.2 ⟨hc, ih⟩
  | escape hshort _ ih =>
    exact List.forall_mem_cons.2 ⟨isScalar_of_ascii (by decide),
      List.forall_mem_cons.2 ⟨isScalar_of_ascii (shortEscape_ascii hshort), ih⟩⟩
  | pair hhex _ hnext _ ih =>
    obtain ⟨-, _, _, _, _, rfl, hhex'⟩ := lowEscape_some hnext
    exact hunit hhex (hunit hhex' ih)
  | unit hhex _ _ ih => exact hunit hhex ih

theorem Chars.codePoint {text : List ℕ} (h : Chars text s) : ∀ c ∈ s, IsCodePoint c := by
  induction h with
  | nil => exact fun c hc => nomatch hc
  | unescaped hc _ _ _ _ ih => exact List.forall_mem_cons.2 ⟨hc.1, ih⟩
  | escape hshort _ ih =>
    refine List.forall_mem_cons.2 ⟨?_, ih⟩
    rcases shortEscape_cases hshort with h | h | h | h | h | h | h | h <;> rw [h.2] <;> unfold IsCodePoint <;> omega
  | @pair a b c d high low after text s hhex hhigh hnext _ ih =>
    refine List.forall_mem_cons.2 ⟨?_, ih⟩
    have hlow := (lowEscape_some hnext).1
    unfold IsHigh at hhigh
    unfold IsLow at hlow
    unfold IsCodePoint joined
    omega
  | unit hhex _ _ ih =>
    refine List.forall_mem_cons.2 ⟨?_, ih⟩
    have := (hex4_ascii hhex).2
    unfold IsCodePoint
    omega

/-- No high surrogate has a low one after it. -/
def NoPair : List ℕ → Prop
  | [] => True
  | c :: s => (IsHigh c → ∀ d ∈ s.head?, ¬ IsLow d) ∧ NoPair s

theorem Chars.lowEscape_head {text : List ℕ} (h : Chars text s) (hc : c ∈ s.head?) (hlow : IsLow c) :
    lowEscape text ≠ none := by
  cases h with
  | nil => cases hc
  | unescaped hscalar _ _ _ _ =>
    cases hc
    exact absurd ⟨by have := hlow.1; omega, hlow.2⟩ hscalar.2
  | escape hshort _ =>
    cases hc
    have hcases := shortEscape_cases hshort
    have := hlow.1
    omega
  | pair hhex hhigh hnext _ =>
    obtain rfl := Option.some.inj hc
    have := hlow.2
    unfold joined at this
    omega
  | unit hhex _ _ =>
    cases hc
    rw [lowEscape_hex hhex hlow]
    exact Option.some_ne_none _

/-- A pair of surrogates stands for one code point, so that none is left. -/
theorem Chars.noPair {text : List ℕ} (h : Chars text s) : NoPair s := by
  induction h with
  | nil => trivial
  | unescaped hscalar _ _ _ _ ih =>
    exact ⟨fun hhigh => absurd ⟨hhigh.1, by have := hhigh.2; omega⟩ hscalar.2, ih⟩
  | escape hshort _ ih =>
    refine ⟨fun hhigh => ?_, ih⟩
    have hcases := shortEscape_cases hshort
    have := hhigh.1
    omega
  | @pair a b c d high low after text s hhex hhigh hnext _ ih =>
    refine ⟨fun hjoined => ?_, ih⟩
    have := hjoined.2
    unfold joined at this
    omega
  | unit hhex halone hrest ih => exact ⟨fun hhigh c hc hlow => hrest.lowEscape_head hc hlow (halone hhigh), ih⟩

/-! ### Values -/

inductive Tree where
  | null
  | bool (b : Bool)
  | num (n : Number)
  | str (s : List ℕ)
  | arr (items : List Tree)
  | obj (members : List (List ℕ × Tree))

def nullText : List ℕ := [0x6E, 0x75, 0x6C, 0x6C]
def trueText : List ℕ := [0x74, 0x72, 0x75, 0x65]
def falseText : List ℕ := [0x66, 0x61, 0x6C, 0x73, 0x65]

def Quoted (s text : List ℕ) : Prop := ∃ body, Chars body s ∧ text = 0x22 :: body ++ [0x22]

mutual

def Spells : Tree → List ℕ → Prop
  | .null, text => text = nullText
  | .bool true, text => text = trueText
  | .bool false, text => text = falseText
  | .num n, text => text = n.text
  | .str s, text => Quoted s text
  | .arr items, text => ∃ body, Elements items body ∧ text = 0x5B :: body ++ [0x5D]
  | .obj members, text => ∃ body, Fields members body ∧ text = 0x7B :: body ++ [0x7D]

/-- What stands between the brackets of an array. -/
def Elements : List Tree → List ℕ → Prop
  | [], text => IsWs text
  | [t], text => ∃ w v w', IsWs w ∧ Spells t v ∧ IsWs w' ∧ text = w ++ v ++ w'
  | t :: t' :: ts, text => ∃ w v w' rest, IsWs w ∧ Spells t v ∧ IsWs w' ∧ Elements (t' :: ts) rest ∧
      text = w ++ v ++ w' ++ 0x2C :: rest

/-- What stands between the braces of an object. -/
def Fields : List (List ℕ × Tree) → List ℕ → Prop
  | [], text => IsWs text
  | [(k, t)], text => ∃ w key w₁ w₂ v w', IsWs w ∧ Quoted k key ∧ IsWs w₁ ∧ IsWs w₂ ∧ Spells t v ∧ IsWs w' ∧
      text = w ++ key ++ w₁ ++ 0x3A :: w₂ ++ v ++ w'
  | (k, t) :: m :: ms, text => ∃ w key w₁ w₂ v w' rest, IsWs w ∧ Quoted k key ∧ IsWs w₁ ∧ IsWs w₂ ∧ Spells t v ∧
      IsWs w' ∧ Fields (m :: ms) rest ∧ text = w ++ key ++ w₁ ++ 0x3A :: w₂ ++ v ++ w' ++ 0x2C :: rest

end

/-- One JSON text. -/
def JsonText (t : Tree) (text : List ℕ) : Prop := ∃ w v w', IsWs w ∧ Spells t v ∧ IsWs w' ∧ text = w ++ v ++ w'

/-! ### What a tree is made of -/

mutual

def Tree.nesting : Tree → ℕ
  | .arr items => nestingItems items + 1
  | .obj members => nestingMembers members + 1
  | _ => 0

def nestingItems : List Tree → ℕ
  | [] => 0
  | t :: ts => max t.nesting (nestingItems ts)

def nestingMembers : List (List ℕ × Tree) → ℕ
  | [] => 0
  | (_, t) :: ms => max t.nesting (nestingMembers ms)

end

mutual

/-- It holds of every value of the tree. -/
def Tree.All (p : Tree → Prop) : Tree → Prop
  | .arr items => p (.arr items) ∧ AllItems p items
  | .obj members => p (.obj members) ∧ AllMembers p members
  | t => p t

def AllItems (p : Tree → Prop) : List Tree → Prop
  | [] => True
  | t :: ts => t.All p ∧ AllItems p ts

def AllMembers (p : Tree → Prop) : List (List ℕ × Tree) → Prop
  | [] => True
  | (_, t) :: ms => t.All p ∧ AllMembers p ms

end

def Tree.Distinct : Tree → Prop
  | .obj members => (members.map Prod.fst).Nodup
  | _ => True

/-- An integer has so many digits at most. -/
def Tree.IntegerWithin (limit : ℕ) : Tree → Prop
  | .num n => n.isInteger = true → n.int.length ≤ limit
  | _ => True

end Molebridge.Rfc8259
