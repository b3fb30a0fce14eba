import Mathlib.Data.Nat.Digits.Lemmas
import Molebridge.Spec.Decode

/-! internal/validate, writing JSON (encode.go, text.go): MarshalJSON on the values that
decoding returns. -/

namespace Molebridge.Validate

open Rfc8259 (Number IsDigits digitsValue)

inductive EncodeError where
  | depth
  | nonFiniteFloat
  | notUTF8
deriving DecidableEq

def EncodeError.text : EncodeError → String
  | .depth => "JSON nested too deeply"
  | .nonFiniteFloat => "out of range float values are not JSON compliant"
  | .notUTF8 => "validate: string is not valid UTF-8"

/-! ### Numbers -/

def isFinite (f : BitVec 64) : Bool := (f &&& 0x7fffffffffffffff) < 0x7ff0000000000000

def isZero (f : BitVec 64) : Bool := f &&& 0x7fffffffffffffff == 0

def signbit (f : BitVec 64) : Bool := f.msb

/-- What strconv.FormatFloat(f, 'e', -1, 64) writes for a float other than zero: a sign, one
digit that is not zero and those after the point, the power of ten. -/
structure Shortest where
  neg : Bool
  digits : List ℕ
  exponent : ℤ
  isDigits : IsDigits digits
  leads : digits.head? ≠ some 0x30

def Shortest.magnitude (s : Shortest) : ℚ := digitsValue s.digits * (10 : ℚ) ^ (s.exponent + 1 - s.digits.length)

/-- strconv's floats. ParseFloat returns the nearest float, so that what it returns is known
from the sign and from what the number is worth, in whichever notation it is written; the
shortest text of a float reads back as that float. -/
structure Strconv extends ParseFloat where
  shortest : BitVec 64 → Shortest
  reads : ∀ f, isFinite f = true → isZero f = false → ∀ n : Number, n.isInteger = false → n.neg = (shortest f).neg →
    n.magnitude = (shortest f).magnitude → parse n.text = some f
  zero : ∀ n : Number, n.isInteger = false → n.magnitude = 0 → parse n.text = some (if n.neg then 0x8000000000000000 else 0)

def natText (n : ℕ) : List ℕ := if n = 0 then [0x30] else (Nat.digits 10 n).reverse.map (0x30 + ·)

/-- strconv.AppendInt, and big.Int.String beyond int64. -/
def intText (n : ℤ) : List ℕ := if n < 0 then 0x2D :: natText n.natAbs else natText n.natAbs

def twoDigits (n : ℕ) : List ℕ := if n < 10 then 0x30 :: natText n else natText n

def formatFloat (sc : Strconv) (f : BitVec 64) : List ℕ :=
  if isZero f then if signbit f then [0x2D, 0x30, 0x2E, 0x30] else [0x30, 0x2E, 0x30]
  else
    let s := sc.shortest f
    let sign := if s.neg then [0x2D] else []
    let decpt := s.exponent + 1
    if 16 < decpt ∨ decpt < -3 then
      sign ++ s.digits.take 1 ++ (if 1 < s.digits.length then 0x2E :: s.digits.drop 1 else []) ++
        0x65 :: (if s.exponent < 0 then 0x2D else 0x2B) :: twoDigits s.exponent.natAbs
    else if decpt ≤ 0 then sign ++ [0x30, 0x2E] ++ List.replicate (-decpt).toNat 0x30 ++ s.digits
    else if s.digits.length ≤ decpt then
      sign ++ s.digits ++ List.replicate (decpt - s.digits.length).toNat 0x30 ++ [0x2E, 0x30]
    else sign ++ s.digits.take decpt.toNat ++ 0x2E :: s.digits.drop decpt.toNat

/-! ### Strings -/

/-- NextRune: the code point a string begins with, and the rest; none for bytes that are
neither UTF-8 nor a surrogate in its three bytes. -/
def nextRune (s : List ℕ) : Option (ℕ × List ℕ) :=
  match Utf8.decodeRune s with
  | some found => some found
  | none =>
    match s with
    | 0xED :: b :: c :: rest =>
      if 0xA0 ≤ b ∧ b ≤ 0xBF ∧ 0x80 ≤ c ∧ c ≤ 0xBF then some (0xD000 + (b - 0x80) * 0x40 + (c - 0x80), rest) else none
    | _ => none

def hexChar (d : ℕ) : ℕ := if d < 10 then 0x30 + d else 0x61 + (d - 10)

def u4 (r : ℕ) : List ℕ :=
  [0x5C, 0x75, hexChar (r / 0x1000 % 16), hexChar (r / 0x100 % 16), hexChar (r / 0x10 % 16), hexChar (r % 16)]

def asciiText (c : ℕ) : List ℕ :=
  if c = 0x22 then [0x5C, 0x22]
  else if c = 0x5C then [0x5C, 0x5C]
  else if c = 0x0A then [0x5C, 0x6E]
  else if c = 0x0D then [0x5C, 0x72]
  else if c = 0x09 then [0x5C, 0x74]
  else if c = 0x08 then [0x5C, 0x62]
  else if c = 0x0C then [0x5C, 0x66]
  else if c < 0x20 ∨ c = 0x7F then u4 c
  else [c]

/-- What another code point is written as: beyond the basic plane, as a pair of surrogates. -/
def runeText (r : ℕ) : List ℕ :=
  if 0x10000 ≤ r then u4 (0xD800 + (r - 0x10000) / 0x400 % 0x400) ++ u4 (0xDC00 + (r - 0x10000) % 0x400)
  else u4 r

/-- The loop of str; every turn takes a byte at least. -/
def strLoop : ℕ → List ℕ → Except EncodeError (List ℕ)
  | _, [] => .ok []
  | 0, _ :: _ => .error .notUTF8
  | fuel + 1, c :: rest =>
    if c < 0x80 then
      match strLoop fuel rest with
      | .ok text => .ok (asciiText c ++ text)
      | .error e => .error e
    else
      match nextRune (c :: rest) with
      | none => .error .notUTF8
      | some (r, rest) =>
        match strLoop fuel rest with
        | .ok text => .ok (runeText r ++ text)
        | .error e => .error e

def encodeStr (s : List ℕ) : Except EncodeError (List ℕ) :=
  match strLoop s.length s with
  | .ok text => .ok (0x22 :: text ++ [0x22])
  | .error e => .error e

/-! ### Values -/

def atDepth (depth : ℕ) (out : Except EncodeError (List ℕ)) : Except EncodeError (List ℕ) :=
  if maxDepth < depth then .error .depth else out

def between (first last : ℕ) : Except EncodeError (List ℕ) → Except EncodeError (List ℕ)
  | .ok text => .ok (first :: text ++ [last])
  | .error e => .error e

variable (sc : Strconv)

mutual

def encodeValue : Value → ℕ → Except EncodeError (List ℕ)
  | .null, depth => atDepth depth (.ok wordNull)
  | .bool true, depth => atDepth depth (.ok wordTrue)
  | .bool false, depth => atDepth depth (.ok wordFalse)
  | .int n, depth => atDepth depth (.ok (intText n))
  | .float f, depth => atDepth depth (if isFinite f then .ok (formatFloat sc f) else .error .nonFiniteFloat)
  | .str s, depth => atDepth depth (encodeStr s)
  | .arr items, depth => atDepth depth (between 0x5B 0x5D (encodeItems items (depth + 1)))
  | .obj members, depth => atDepth depth (between 0x7B 0x7D (encodeMembers members (depth + 1)))

/-- The elements of an array, a comma and a blank between two. -/
def encodeItems : List Value → ℕ → Except EncodeError (List ℕ)
  | [], _ => .ok []
  | [v], depth => encodeValue v depth
  | v :: v' :: vs, depth =>
    match encodeValue v depth with
    | .error e => .error e
    | .ok text =>
      match encodeItems (v' :: vs) depth with
      | .error e => .error e
      | .ok rest => .ok (text ++ 0x2C :: 0x20 :: rest)

/-- encoder.object: the members of a map, which are in the order of their names. -/
def encodeMembers : List (List ℕ × Value) → ℕ → Except EncodeError (List ℕ)
  | [], _ => .ok []
  | [(k, v)], depth =>
    match encodeStr k with
    | .error e => .error e
    | .ok key =>
      match encodeValue v depth with
      | .error e => .error e
      | .ok text => .ok (key ++ 0x3A :: 0x20 :: text)
  | (k, v) :: m :: ms, depth =>
    match encodeStr k with
    | .error e => .error e
    | .ok key =>
      match encodeValue v depth with
      | .error e => .error e
      | .ok text =>
        match encodeMembers (m :: ms) depth with
        | .error e => .error e
        | .ok rest => .ok (key ++ 0x3A :: 0x20 :: text ++ 0x2C :: 0x20 :: rest)

end

def marshalJSON (v : Value) : Except EncodeError (List ℕ) := encodeValue sc v 0

end Molebridge.Validate
