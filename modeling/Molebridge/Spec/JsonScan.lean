import Molebridge.Spec.Decode

/-! internal/nbprofile/jsonscan.go: the scanner that validates a file as one JSON object and
records the members of its root. An offset of the source is here the text from it on. -/

namespace Molebridge.NbProfile

open Validate (literal lowAfter isDigit scanSign scanExpSign wordTrue wordFalse wordNull)

def maxNesting : ℕ := 10000

inductive ValueKind where
  | string
  | number
  | litTrue
  | litFalse
  | null
  | object
  | array
deriving DecidableEq

/-- One field of the root object. -/
structure Member where
  key : List ℕ
  plain : Bool
  keyStart : List ℕ
  keyEnd : List ℕ
  valStart : List ℕ
  valEnd : List ℕ
  kind : ValueKind
  str : List ℕ
  strPlain : Bool

structure RootInfo where
  opened : List ℕ
  closed : List ℕ
  members : List Member

def asciiLower (s : List ℕ) : List ℕ := s.map fun c => if 0x41 ≤ c ∧ c ≤ 0x5A then c + 0x20 else c

/-- The name of a member in ASCII case folding; only plain ones match. -/
def Member.named (name : List ℕ) (m : Member) : Bool := m.plain && asciiLower m.key == name

/-- lookup; the members stand for their indexes. -/
def RootInfo.lookup (root : RootInfo) (name : List ℕ) : List Member := root.members.filter (Member.named name)

def RootInfo.hasNonPlainKey (root : RootInfo) : Bool := root.members.any fun m => !m.plain

/-! ### Tokens -/

def skipWS (b : List ℕ) : List ℕ := Validate.space b

def hex4 (a b c d : ℕ) : Option ℕ := Validate.hex4 a b c d

def printable (r : ℕ) : Bool := 32 ≤ r && r < 127

/-- A decoded text, whether it is plain, and what is after it; some more stands before it. -/
def put (front : List ℕ) (plain : Bool) : Option (List ℕ × Bool × List ℕ) → Option (List ℕ × Bool × List ℕ)
  | some (out, p, rest) => some (front ++ out, plain && p, rest)
  | none => none

def putRune (r : ℕ) : Option (List ℕ × Bool × List ℕ) → Option (List ℕ × Bool × List ℕ) := put (Utf8.encode r) (printable r)

/-- str, from after the opening quote; the short escapes of control characters are read as a question mark. -/
def str : List ℕ → Option (List ℕ × Bool × List ℕ)
  | [] => none
  | c :: rest =>
    if c = 0x22 then some ([], true, rest)
    else if c = 0x5C then match rest with
      | [] => none
      | e :: rest =>
        if e = 0x22 ∨ e = 0x5C ∨ e = 0x2F then put [e] true (str rest)
        else if e = 0x62 ∨ e = 0x66 ∨ e = 0x6E ∨ e = 0x72 ∨ e = 0x74 then put [0x3F] false (str rest)
        else if e = 0x75 then
          -- unicodeEscape
          match rest with
          | a :: b :: c :: d :: rest =>
            match hex4 a b c d with
            | none => none
            | some hi =>
              match lowAfter hi rest, rest with
              | some lo, _ :: _ :: _ :: _ :: _ :: _ :: after =>
                putRune (0x10000 + (hi - 0xD800) * 0x400 + (lo - 0xDC00)) (str after)
              | _, rest => putRune (if 0xD800 ≤ hi ∧ hi < 0xE000 then 0xFFFD else hi) (str rest)
          | _ => none
        else none
    else if c < 32 then none
    else put [c] (printable c) (str rest)

def digits (b : List ℕ) : Option (List ℕ) := if (b.takeWhile isDigit).isEmpty then none else some (b.dropWhile isDigit)

/-! number, part by part. -/

def intPart : List ℕ → Option (List ℕ)
  | [] => none
  | c :: rest => if c = 0x30 then some rest else if isDigit c then some ((c :: rest).dropWhile isDigit) else none

def fracPart : List ℕ → Option (List ℕ)
  | 0x2E :: rest => digits rest
  | b => some b

def expPart : List ℕ → Option (List ℕ)
  | [] => some []
  | c :: rest => if c = 0x65 ∨ c = 0x45 then digits (scanExpSign rest).2 else some (c :: rest)

def number (b : List ℕ) : Option (List ℕ) := ((intPart (scanSign b).2).bind fracPart).bind expPart

def word (b : List ℕ) : Option (ValueKind × List ℕ) :=
  match literal wordTrue b, literal wordFalse b, literal wordNull b with
  | some rest, _, _ => some (.litTrue, rest)
  | none, some rest, _ => some (.litFalse, rest)
  | none, none, some rest => some (.null, rest)
  | none, none, none => none

/-! ### Values -/

/-- What value returns, whether a key is repeated within it, and what is after it. -/
structure Scanned where
  kind : ValueKind
  str : List ℕ
  plain : Bool
  dup : Bool
  rest : List ℕ

def object (depth : ℕ) (rest : List ℕ) (loop : List ℕ → Option (List Member × Bool × List ℕ)) :
    Option (List Member × Bool × List ℕ) :=
  if maxNesting < depth then none
  else match skipWS rest with
    | 0x7D :: after => some ([], false, after)
    | after => loop after

def array (depth : ℕ) (rest : List ℕ) (loop : List ℕ → Option (Bool × List ℕ)) : Option (Bool × List ℕ) :=
  if maxNesting < depth then none
  else match skipWS rest with
    | 0x5D :: after => some (false, after)
    | after => loop after

mutual

/-- value; a call of it and one of a loop read a byte, so that `fuel` is never out when there are two for each. -/
def value : ℕ → ℕ → List ℕ → Option Scanned
  | 0, _, _ => none
  | _ + 1, _, [] => none
  | fuel + 1, depth, c :: rest =>
    if c = 0x7B then
      (object (depth + 1) rest (objectLoop fuel (depth + 1) [])).map fun (_, dup, rest) => ⟨.object, [], true, dup, rest⟩
    else if c = 0x5B then
      (array (depth + 1) rest (arrayLoop fuel (depth + 1))).map fun (dup, rest) => ⟨.array, [], true, dup, rest⟩
    else if c = 0x22 then (str rest).map fun (s, plain, rest) => ⟨.string, s, plain, false, rest⟩
    else match word (c :: rest) with
      | some (kind, rest) => some ⟨kind, [], true, false, rest⟩
      | none => if c = 0x2D ∨ isDigit c then (number (c :: rest)).map fun rest => ⟨.number, [], true, false, rest⟩ else none

/-- The loop of object: the members from here on, with the keys seen before. -/
def objectLoop : ℕ → ℕ → List (List ℕ) → List ℕ → Option (List Member × Bool × List ℕ)
  | 0, _, _, _ => none
  | fuel + 1, depth, seen, b =>
    match skipWS b with
    | 0x22 :: rest =>
      match str rest with
      | none => none
      | some (key, plain, keyEnd) =>
        match skipWS keyEnd with
        | 0x3A :: after =>
          match value fuel depth (skipWS after) with
          | none => none
          | some v =>
            let m : Member := ⟨key, plain, 0x22 :: rest, keyEnd, skipWS after, v.rest, v.kind, v.str, v.plain⟩
            let dup := seen.contains key || v.dup
            match skipWS v.rest with
            | 0x2C :: next =>
              (objectLoop fuel depth (key :: seen) next).map fun (ms, dup', rest) => (m :: ms, dup || dup', rest)
            | 0x7D :: next => some ([m], dup, next)
            | _ => none
        | _ => none
    | _ => none

def arrayLoop : ℕ → ℕ → List ℕ → Option (Bool × List ℕ)
  | 0, _, _ => none
  | fuel + 1, depth, b =>
    match value fuel depth (skipWS b) with
    | none => none
    | some v =>
      match skipWS v.rest with
      | 0x2C :: next => (arrayLoop fuel depth next).map fun (dup, rest) => (v.dup || dup, rest)
      | 0x5D :: next => some (v.dup, next)
      | _ => none

end

/-- The root object, and whether a key is repeated in an object. -/
def scanRoot (data : List ℕ) : Option (RootInfo × Bool) :=
  match skipWS data with
  | 0x7B :: rest =>
    match object 1 rest (objectLoop (2 * data.length) 1 []) with
    | none => none
    | some (members, dup, after) => if skipWS after = [] then some (⟨0x7B :: rest, 0x7D :: after, members⟩, dup) else none
  | _ => none

inductive Scan where
  | malformed
  | duplicateDeep (root : RootInfo)
  | ok (root : RootInfo)

/-- scan; the keys seen are kept with dupAny only, and nothing else reads them. -/
def scan (data : List ℕ) (dupAny : Bool) : Scan :=
  if data.contains 0 || !Utf8.valid data then .malformed
  else match scanRoot data with
    | none => .malformed
    | some (root, dup) => if dupAny && dup then .duplicateDeep root else .ok root

end Molebridge.NbProfile
