import Molebridge.Spec.Decode

/-! internal/validate, the skip mode (skip.go): the checks of decoding without its values,
for the parts of a document nobody reads. The keys of the objects being checked are on one
stack, the innermost object's last. -/

namespace Molebridge.Validate

/-- skipString, from after the opening quote: the text after the string. -/
def skipString : List ℕ → Except DecodeError (List ℕ)
  | [] => .error .invalid
  | c :: rest =>
    if c = 0x22 then .ok rest
    else if c < 0x20 then .error .invalid
    else if c ≠ 0x5C then skipString rest
    else match rest with
      | [] => .error .invalid
      | e :: rest =>
        if e = 0x22 ∨ e = 0x5C ∨ e = 0x2F ∨ e = 0x62 ∨ e = 0x66 ∨ e = 0x6E ∨ e = 0x72 ∨ e = 0x74 then skipString rest
        else if e = 0x75 then
          match rest with
          | a :: b :: c :: d :: rest => if (hex4 a b c d).isSome then skipString rest else .error .invalid
          | _ => .error .invalid
        else .error .invalid

/-- key, from after the opening quote: a slice of the input when it has no escapes. -/
def key (b : List ℕ) : Parsed (List ℕ) :=
  match b.dropWhile isPlain with
  | 0x22 :: rest => .ok (b.takeWhile isPlain, rest)
  | 0x5C :: _ => str b
  | _ => .error .invalid

def linearKeys : ℕ := 32

/-- One object's part of the key stack. -/
structure ObjectKeys where
  base : ℕ
  big : Option (List (List ℕ)) := none

/-- The parser's key stack as the object begins. -/
def newKeys (keys : List (List ℕ)) : ObjectKeys := { base := keys.length }

def dropKeys (keys : List (List ℕ)) (k : ObjectKeys) : List (List ℕ) := keys.take k.base

/-- addKey: the stack and the object's part of it with the key, or none when it is there. -/
def addKey (keys : List (List ℕ)) (k : ObjectKeys) (key : List ℕ) : Option (List (List ℕ) × ObjectKeys) :=
  match k.big with
  | some big => if big.contains key then none else some (keys, { k with big := some (key :: big) })
  | none =>
    if (keys.drop k.base).contains key then none
    else
      let keys := keys ++ [key]
      some (keys, if linearKeys < keys.length - k.base then { k with big := some (keys.drop k.base) } else k)

/-- The text after a value, and the key stack. -/
abbrev Skipped := Except DecodeError (List (List ℕ) × List ℕ)

def skipWord (keys : List (List ℕ)) (b : List ℕ) : Skipped :=
  match literal wordTrue b, literal wordFalse b, literal wordNull b, literal wordNaN b, literal wordInfinity b with
  | some rest, _, _, _, _ => .ok (keys, rest)
  | none, some rest, _, _, _ => .ok (keys, rest)
  | none, none, some rest, _, _ => .ok (keys, rest)
  | none, none, none, some _, _ => .error .nonFinite
  | none, none, none, none, some _ => .error .nonFinite
  | none, none, none, none, none => .error .invalid

def skipObject (depth : ℕ) (keys : List (List ℕ)) (rest : List ℕ) (loop : List ℕ → Skipped) : Skipped :=
  if maxDepth < depth then .error .depth
  else match space rest with
    | 0x7D :: after => .ok (keys, after)
    | after => loop after

def skipArray (depth : ℕ) (keys : List (List ℕ)) (rest : List ℕ) (loop : List ℕ → Skipped) : Skipped :=
  if maxDepth < depth then .error .depth
  else match space rest with
    | 0x5D :: after => .ok (keys, after)
    | after => loop after

mutual

def skip : ℕ → ℕ → List (List ℕ) → List ℕ → Skipped
  | 0, _, _, _ => .error .invalid
  | _ + 1, _, _, [] => .error .invalid
  | fuel + 1, depth, keys, c :: rest =>
    if c = 0x7B then skipObject (depth + 1) keys rest (skipObjectLoop fuel (depth + 1) (newKeys keys) keys)
    else if c = 0x5B then skipArray (depth + 1) keys rest (skipArrayLoop fuel (depth + 1) keys)
    else if c = 0x22 then
      match skipString rest with
      | .ok rest => .ok (keys, rest)
      | .error e => .error e
    else if c = 0x2D ∨ 0x30 ≤ c ∧ c ≤ 0x39 then
      match scanNumber (c :: rest) with
      | .ok (_, _, rest) => .ok (keys, rest)
      | .error e => .error e
    else skipWord keys (c :: rest)

def skipObjectLoop : ℕ → ℕ → ObjectKeys → List (List ℕ) → List ℕ → Skipped
  | 0, _, _, _, _ => .error .invalid
  | fuel + 1, depth, k, keys, b =>
    match space b with
    | 0x22 :: rest =>
      match key rest with
      | .error e => .error e
      | .ok (name, rest) =>
        match space rest with
        | 0x3A :: rest =>
          match skip fuel depth keys (space rest) with
          | .error e => .error e
          | .ok (keys, rest) =>
            match addKey keys k name with
            | none => .error .duplicate
            | some (keys, k) =>
              match space rest with
              | 0x2C :: rest => skipObjectLoop fuel depth k keys rest
              | 0x7D :: rest => .ok (dropKeys keys k, rest)
              | _ => .error .invalid
        | _ => .error .invalid
    | _ => .error .invalid

def skipArrayLoop : ℕ → ℕ → List (List ℕ) → List ℕ → Skipped
  | 0, _, _, _ => .error .invalid
  | fuel + 1, depth, keys, b =>
    match skip fuel depth keys (space b) with
    | .error e => .error e
    | .ok (keys, rest) =>
      match space rest with
      | 0x2C :: rest => skipArrayLoop fuel depth keys rest
      | 0x5D :: rest => .ok (keys, rest)
      | _ => .error .invalid

end

def checkJSON (raw : List ℕ) : Option DecodeError :=
  if !Utf8.valid raw then some .utf8
  else match skip (2 * raw.length + 1) 0 [] (space raw) with
    | .error e => some e
    | .ok (_, rest) => if space rest = [] then none else some .invalid

/-! ### DecodeJSONMembers -/

/-- Which members of the top-level object are built. -/
structure Plan where
  /-- The member's value is built and kept. -/
  keep : Option (List ℕ → Bool) := none
  /-- For an array, its elements are handed on one by one instead. -/
  each : Option (List ℕ → Bool) := none

/-- What the result holds of a member: its value, or how many elements were handed on. -/
inductive Member where
  | built (v : Value)
  | streamed (n : ℕ)

namespace Plan

variable (plan : Plan) (name : List ℕ)

def keeps : Bool := plan.keep.elim false (· name)

def streams : Bool := plan.each.elim false (· name)

end Plan

def setMember (name : List ℕ) (m : Member) : List (List ℕ × Member) → List (List ℕ × Member)
  | [] => [(name, m)]
  | (k, w) :: rest =>
    if name < k then (name, m) :: (k, w) :: rest
    else if name = k then (name, m) :: rest
    else (k, w) :: setMember name m rest

variable (pf : ParseFloat)

/-- The loop of stream: the elements so far, which are the calls of the member's function. -/
def streamLoop : ℕ → ℕ → List Value → List ℕ → Parsed (List Value)
  | 0, _, _, _ => .error .invalid
  | fuel + 1, depth, seen, b =>
    match value pf fuel depth (space b) with
    | .error e => .error e
    | .ok (v, rest) =>
      match space rest with
      | 0x2C :: rest => streamLoop fuel depth (seen ++ [v]) rest
      | 0x5D :: rest => .ok (seen ++ [v], rest)
      | _ => .error .invalid

/-- stream, from after the bracket. -/
def stream : ℕ → ℕ → List ℕ → Parsed (List Value)
  | 0, _, _ => .error .invalid
  | fuel + 1, depth, rest =>
    if maxDepth < depth then .error .depth
    else match space rest with
      | 0x5D :: after => .ok ([], after)
      | after => streamLoop pf fuel depth [] after

/-- What was built of the members so far, and the elements handed to the plan, oldest first. -/
structure Built where
  members : List (List ℕ × Member) := []
  handed : List (List ℕ × Value) := []

/-- One member's value: handed on, kept or skipped. -/
def memberValue (plan : Plan) (fuel depth : ℕ) (keys : List (List ℕ)) (name b : List ℕ) (built : Built) :
    Except DecodeError (Built × List (List ℕ) × List ℕ) :=
  match b.head? == some 0x5B && plan.streams name with
  | true =>
    match stream pf fuel (depth + 1) b.tail with
    | .error e => .error e
    | .ok (vs, rest) =>
      .ok (⟨setMember name (.streamed vs.length) built.members, built.handed ++ vs.map (name, ·)⟩, keys, rest)
  | false =>
    if plan.keeps name then
      match value pf fuel depth b with
      | .error e => .error e
      | .ok (v, rest) => .ok ({ built with members := setMember name (.built v) built.members }, keys, rest)
    else
      match skip fuel depth keys b with
      | .error e => .error e
      | .ok (keys, rest) => .ok (built, keys, rest)

/-- The loop of members, the top-level object's. -/
def membersLoop (plan : Plan) : ℕ → ObjectKeys → List (List ℕ) → Built → List ℕ → Parsed Built
  | 0, _, _, _, _ => .error .invalid
  | fuel + 1, k, keys, built, b =>
    match space b with
    | 0x22 :: rest =>
      match key rest with
      | .error e => .error e
      | .ok (name, rest) =>
        match space rest with
        | 0x3A :: rest =>
          match memberValue pf plan fuel 1 keys name (space rest) built with
          | .error e => .error e
          | .ok (built, keys, rest) =>
            match addKey keys k name with
            | none => .error .duplicate
            | some (keys, k) =>
              match space rest with
              | 0x2C :: rest => membersLoop plan fuel k keys built rest
              | 0x7D :: rest => .ok (built, rest)
              | _ => .error .invalid
        | _ => .error .invalid
    | _ => .error .invalid

/-- members, from after the brace. -/
def members (plan : Plan) (fuel : ℕ) (rest : List ℕ) : Parsed Built :=
  match space rest with
  | 0x7D :: after => .ok ({}, after)
  | after => membersLoop pf plan fuel (newKeys []) [] {} after

/-- The top level of a text: the members of an object, and of another value nothing. -/
def topLevel (raw : List ℕ) (plan : Plan) : Parsed (Option Built) :=
  match space raw with
  | 0x7B :: rest =>
    match members pf plan (2 * raw.length) rest with
    | .error e => .error e
    | .ok (built, rest) => .ok (some built, rest)
  | b =>
    match skip (2 * raw.length + 1) 0 [] b with
    | .error e => .error e
    | .ok (_, rest) => .ok (none, rest)

/-- DecodeJSONMembers: nothing where the top level is not an object. -/
def decodeJSONMembers (raw : List ℕ) (plan : Plan) : Except DecodeError (Option Built) :=
  if !Utf8.valid raw then .error .utf8
  else match topLevel pf raw plan with
    | .error e => .error e
    | .ok (built, rest) => if space rest = [] then .ok built else .error .invalid

end Molebridge.Validate
