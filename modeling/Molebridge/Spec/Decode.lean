import Mathlib.Tactic
import Molebridge.Lib.Rfc8259

/-! internal/validate, strict decoding (json.go, text.go). A text is the bytes from the
parser's position on; a byte is a natural number, and one above 0xff is invalid UTF-8. A
decoded string is bytes too: UTF-8, with a lone surrogate in its three-byte form. -/

namespace Molebridge.Validate

open Rfc8259 (Number)

/-- A decoded value. Of a map only the members count, here in the order of their names. -/
inductive Value where
  | null
  | bool (b : Bool)
  | int (n : ℤ)
  | float (bits : BitVec 64)
  | str (s : List ℕ)
  | arr (items : List Value)
  | obj (members : List (List ℕ × Value))

inductive DecodeError where
  | invalid
  | utf8
  | duplicate
  | nonFinite
  | depth
  | integerSize
deriving DecidableEq

def DecodeError.text : DecodeError → String
  | .invalid => "invalid JSON"
  | .utf8 => "invalid UTF-8"
  | .duplicate => "duplicate JSON field"
  | .nonFinite => "non-finite JSON number"
  | .depth => "JSON nested too deeply"
  | .integerSize => "JSON integer too large"

def maxDepth : ℕ := 1000

def maxIntDigits : ℕ := 4300

def isNaN (bits : BitVec 64) : Bool := 0x7ff0000000000000 < (bits &&& 0x7fffffffffffffff)

/-- strconv.ParseFloat: a number is rounded to the nearest float, an infinity beyond the
largest, and is not refused. -/
structure ParseFloat where
  parse : List ℕ → Option (BitVec 64)
  accepts : ∀ n : Number, n.isInteger = false → ∃ f, parse n.text = some f ∧ isNaN f = false

/-! ### The map of an object -/

def hasKey (key : List ℕ) (members : List (List ℕ × Value)) : Bool := members.any (·.1 == key)

def setKey (key : List ℕ) (v : Value) : List (List ℕ × Value) → List (List ℕ × Value)
  | [] => [(key, v)]
  | (k, w) :: rest =>
    if key < k then (key, v) :: (k, w) :: rest
    else if key = k then (key, v) :: rest
    else (k, w) :: setKey key v rest

/-! ### The parser -/

/-- What was read, and the text after it. -/
abbrev Parsed (α : Type) := Except DecodeError (α × List ℕ)

def space (b : List ℕ) : List ℕ := b.dropWhile fun c => c = 0x20 || c = 0x09 || c = 0x0A || c = 0x0D

/-- The text after a word, if it begins with it. -/
def literal (word b : List ℕ) : Option (List ℕ) := if word.isPrefixOf b then some (b.drop word.length) else none

def wordTrue : List ℕ := [0x74, 0x72, 0x75, 0x65]
def wordFalse : List ℕ := [0x66, 0x61, 0x6C, 0x73, 0x65]
def wordNull : List ℕ := [0x6E, 0x75, 0x6C, 0x6C]
def wordNaN : List ℕ := [0x4E, 0x61, 0x4E]
def wordInfinity : List ℕ := [0x49, 0x6E, 0x66, 0x69, 0x6E, 0x69, 0x74, 0x79]

def hexValue (c : ℕ) : Option ℕ :=
  if 0x30 ≤ c ∧ c ≤ 0x39 then some (c - 0x30)
  else if 0x61 ≤ c ∧ c ≤ 0x66 then some (c - 0x61 + 10)
  else if 0x41 ≤ c ∧ c ≤ 0x46 then some (c - 0x41 + 10)
  else none

def hex4 (a b c d : ℕ) : Option ℕ := do
  let a ← hexValue a
  let b ← hexValue b
  let c ← hexValue c
  let d ← hexValue d
  return ((a * 16 + b) * 16 + c) * 16 + d

/-- appendCodePoint: UTF-8, and WTF-8 for a surrogate. -/
def codePoint (r : ℕ) : List ℕ :=
  if 0xD800 ≤ r ∧ r < 0xE000 then [0xE0 + r / 0x1000, 0x80 + r / 0x40 % 0x40, 0x80 + r % 0x40]
  else Utf8.encode r

/-- The low surrogate that the next escape stands for, where `r` is a high one. -/
def lowAfter (r : ℕ) : List ℕ → Option ℕ
  | 0x5C :: 0x75 :: a :: b :: c :: d :: _ =>
    if 0xD800 ≤ r ∧ r < 0xDC00 then (hex4 a b c d).filter fun low => 0xDC00 ≤ low && low < 0xE000 else none
  | _ => none

/-- A character that stands for itself in a string. -/
def isPlain (c : ℕ) : Bool := c ≠ 0x22 && c ≠ 0x5C && 0x20 ≤ c

/-- The bytes of a string go on. -/
def more (front : List ℕ) : Parsed (List ℕ) → Parsed (List ℕ)
  | .ok (s, rest) => .ok (front ++ s, rest)
  | .error e => .error e

/-- The loop of str over the bytes after the opening quote. -/
def chars : List ℕ → Parsed (List ℕ)
  | [] => .error .invalid
  | c :: rest =>
    if c = 0x22 then .ok ([], rest)
    else if c < 0x20 then .error .invalid
    else if c ≠ 0x5C then more [c] (chars rest)
    else match rest with
      | [] => .error .invalid
      | e :: rest =>
        if e = 0x22 ∨ e = 0x5C ∨ e = 0x2F then more [e] (chars rest)
        else if e = 0x62 then more [0x08] (chars rest)
        else if e = 0x66 then more [0x0C] (chars rest)
        else if e = 0x6E then more [0x0A] (chars rest)
        else if e = 0x72 then more [0x0D] (chars rest)
        else if e = 0x74 then more [0x09] (chars rest)
        else if e = 0x75 then
          match rest with
          | a :: b :: c :: d :: rest =>
            match hex4 a b c d with
            | none => .error .invalid
            | some r =>
              match lowAfter r rest, rest with
              | some low, _ :: _ :: _ :: _ :: _ :: _ :: after =>
                more (codePoint (0x10000 + (r - 0xD800) * 0x400 + (low - 0xDC00))) (chars after)
              | _, rest => more (codePoint r) (chars rest)
          | _ => .error .invalid
        else .error .invalid

/-- str, from after the opening quote: what has no escapes is copied at once. -/
def str (b : List ℕ) : Parsed (List ℕ) :=
  match b.dropWhile isPlain with
  | 0x22 :: rest => .ok (b.takeWhile isPlain, rest)
  | 0x5C :: rest => more (b.takeWhile isPlain) (chars (0x5C :: rest))
  | _ => .error .invalid

def isDigit (c : ℕ) : Bool := 0x30 ≤ c && c ≤ 0x39

/-! scanNumber, part by part: each takes what it reads and leaves the rest. -/

def scanSign : List ℕ → List ℕ × List ℕ
  | 0x2D :: rest => ([0x2D], rest)
  | b => ([], b)

def scanInt : List ℕ → Parsed (List ℕ)
  | [] => .error .invalid
  | c :: rest =>
    if c = 0x30 then .ok ([c], rest)
    else if 0x31 ≤ c ∧ c ≤ 0x39 then .ok ((c :: rest).takeWhile isDigit, (c :: rest).dropWhile isDigit)
    else if c = 0x49 ∧ (literal wordInfinity (c :: rest)).isSome then .error .nonFinite
    else .error .invalid

def scanFrac : List ℕ → List ℕ × List ℕ
  | 0x2E :: d :: rest =>
    if isDigit d then (0x2E :: (d :: rest).takeWhile isDigit, (d :: rest).dropWhile isDigit) else ([], 0x2E :: d :: rest)
  | b => ([], b)

def scanExpSign : List ℕ → List ℕ × List ℕ
  | 0x2B :: rest => ([0x2B], rest)
  | 0x2D :: rest => ([0x2D], rest)
  | b => ([], b)

def scanExp : List ℕ → List ℕ × List ℕ
  | [] => ([], [])
  | c :: rest =>
    if c = 0x65 ∨ c = 0x45 then
      let (sign, after) := scanExpSign rest
      match after.takeWhile isDigit with
      | [] => ([], c :: rest)
      | d :: ds => (c :: sign ++ d :: ds, after.dropWhile isDigit)
    else ([], c :: rest)

/-- scanNumber: whether the number has a fraction or an exponent, its text, and what is after it. -/
def scanNumber (b : List ℕ) : Except DecodeError (Bool × List ℕ × List ℕ) :=
  let (sign, b) := scanSign b
  match scanInt b with
  | .error e => .error e
  | .ok (int, b) =>
    let (frac, b) := scanFrac b
    let (exp, b) := scanExp b
    let isFloat := !frac.isEmpty || !exp.isEmpty
    if !isFloat && maxIntDigits < int.length then .error .integerSize
    else .ok (isFloat, sign ++ int ++ frac ++ exp, b)

def natOfDigits (ds : List ℕ) : ℕ := ds.foldl (fun n d => 10 * n + (d - 0x30)) 0

/-- strconv.ParseInt, and big.Int.SetString beyond int64. -/
def parseInt : List ℕ → Option ℤ
  | 0x2D :: ds => if ds ≠ [] ∧ ds.all isDigit then some (-(natOfDigits ds)) else none
  | ds => if ds ≠ [] ∧ ds.all isDigit then some (natOfDigits ds) else none

variable (pf : ParseFloat)

def number (b : List ℕ) : Parsed Value :=
  match scanNumber b with
  | .error e => .error e
  | .ok (true, text, rest) =>
    match pf.parse text with
    | none => .error .invalid
    | some f => if isNaN f then .error .invalid else .ok (.float f, rest)
  | .ok (false, text, rest) =>
    match parseInt text with
    | none => .error .invalid
    | some n => .ok (.int n, rest)

def word (b : List ℕ) : Parsed Value :=
  match literal wordTrue b, literal wordFalse b, literal wordNull b, literal wordNaN b, literal wordInfinity b with
  | some rest, _, _, _, _ => .ok (.bool true, rest)
  | none, some rest, _, _, _ => .ok (.bool false, rest)
  | none, none, some rest, _, _ => .ok (.null, rest)
  | none, none, none, some _, _ => .error .nonFinite
  | none, none, none, none, some _ => .error .nonFinite
  | none, none, none, none, none => .error .invalid

def object (depth : ℕ) (rest : List ℕ) (loop : List ℕ → Parsed Value) : Parsed Value :=
  if maxDepth < depth then .error .depth
  else match space rest with
    | 0x7D :: after => .ok (.obj [], after)
    | after => loop after

def array (depth : ℕ) (rest : List ℕ) (loop : List ℕ → Parsed Value) : Parsed Value :=
  if maxDepth < depth then .error .depth
  else match space rest with
    | 0x5D :: after => .ok (.arr [], after)
    | after => loop after

mutual

/-- value; a call of it and one of a loop read a byte, so that `fuel` is never out when there are two for each. -/
def value : ℕ → ℕ → List ℕ → Parsed Value
  | 0, _, _ => .error .invalid
  | _ + 1, _, [] => .error .invalid
  | fuel + 1, depth, c :: rest =>
    if c = 0x7B then object (depth + 1) rest (objectLoop fuel (depth + 1) [])
    else if c = 0x5B then array (depth + 1) rest (arrayLoop fuel (depth + 1) [])
    else if c = 0x22 then
      match str rest with
      | .ok (s, rest) => .ok (.str s, rest)
      | .error e => .error e
    else if c = 0x2D ∨ 0x30 ≤ c ∧ c ≤ 0x39 then number pf (c :: rest)
    else word (c :: rest)

def objectLoop : ℕ → ℕ → List (List ℕ × Value) → List ℕ → Parsed Value
  | 0, _, _, _ => .error .invalid
  | fuel + 1, depth, result, b =>
    match space b with
    | 0x22 :: rest =>
      match str rest with
      | .error e => .error e
      | .ok (key, rest) =>
        match space rest with
        | 0x3A :: rest =>
          match value fuel depth (space rest) with
          | .error e => .error e
          | .ok (v, rest) =>
            if hasKey key result then .error .duplicate
            else match space rest with
              | 0x2C :: rest => objectLoop fuel depth (setKey key v result) rest
              | 0x7D :: rest => .ok (.obj (setKey key v result), rest)
              | _ => .error .invalid
        | _ => .error .invalid
    | _ => .error .invalid

def arrayLoop : ℕ → ℕ → List Value → List ℕ → Parsed Value
  | 0, _, _, _ => .error .invalid
  | fuel + 1, depth, result, b =>
    match value fuel depth (space b) with
    | .error e => .error e
    | .ok (v, rest) =>
      match space rest with
      | 0x2C :: rest => arrayLoop fuel depth (result ++ [v]) rest
      | 0x5D :: rest => .ok (.arr (result ++ [v]), rest)
      | _ => .error .invalid

end

def decodeJSON (raw : List ℕ) : Except DecodeError Value :=
  if !Utf8.valid raw then .error .utf8
  else match value pf (2 * raw.length + 1) 0 (space raw) with
    | .error e => .error e
    | .ok (v, rest) => if space rest = [] then .ok v else .error .invalid

end Molebridge.Validate
