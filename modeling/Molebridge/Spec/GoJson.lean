import Molebridge.Lib.Rfc8259

/-! How NetBird reads the settings the gate checks: Go's encoding/json, as documented, over
the tree of a text. Names match in any case, a later member of the name is read over an
earlier one, null and a value of another type leave a field as it is. -/

namespace Molebridge.GoJson

open Utf8 Rfc8259

/-- A code point of a string; a surrogate of its own is read as U+FFFD. -/
def rune (c : ℕ) : ℕ := if IsSurrogate c then 0xFFFD else c

def decoded (s : List ℕ) : List ℕ := encodeAll (s.map rune)

/-- The folding of names: the long s folds with s and the Kelvin sign with k; what else is
not ASCII folds with no ASCII letter. -/
def foldRune (c : ℕ) : ℕ :=
  if 0x61 ≤ c ∧ c ≤ 0x7A then c - 0x20 else if c = 0x17F then 0x53 else if c = 0x212A then 0x4B else c

/-- A member of this name is decoded into the field. -/
def isField (field name : List ℕ) : Bool := (name.map rune).map foldRune == field.map foldRune

/-- The settings of a NetBird profile that are checked. -/
structure Profile where
  rosenpassEnabled : Bool
  wgIface : List ℕ
  ifaceBlackList : List (List ℕ)

def rosenpassEnabledField : List ℕ :=
  ['R', 'o', 's', 'e', 'n', 'p', 'a', 's', 's', 'E', 'n', 'a', 'b', 'l', 'e', 'd'].map Char.toNat
def wgIfaceField : List ℕ := ['W', 'g', 'I', 'f', 'a', 'c', 'e'].map Char.toNat
def ifaceBlackListField : List ℕ :=
  ['I', 'F', 'a', 'c', 'e', 'B', 'l', 'a', 'c', 'k', 'L', 'i', 's', 't'].map Char.toNat

def intoBool (b : Bool) : Tree → Bool
  | .bool b => b
  | _ => b

def intoString (s : List ℕ) : Tree → List ℕ
  | .str s => decoded s
  | _ => s

/-- A list is read anew; what is no string leaves its element empty. -/
def intoStrings (list : List (List ℕ)) : Tree → List (List ℕ)
  | .arr items => items.map (intoString [])
  | .null => []
  | _ => list

def decodeMember (p : Profile) (m : List ℕ × Tree) : Profile :=
  if isField rosenpassEnabledField m.1 then { p with rosenpassEnabled := intoBool p.rosenpassEnabled m.2 }
  else if isField wgIfaceField m.1 then { p with wgIface := intoString p.wgIface m.2 }
  else if isField ifaceBlackListField m.1 then { p with ifaceBlackList := intoStrings p.ifaceBlackList m.2 }
  else p

/-- json.Unmarshal into an empty profile. -/
def unmarshal : Tree → Option Profile
  | .obj members => some (members.foldl decodeMember ⟨false, [], []⟩)
  | .null => some ⟨false, [], []⟩
  | _ => none

/-- The profile that a text in UTF-8 decodes to, within the decoder's limit of nesting. -/
def Decodes (raw : List ℕ) (p : Profile) : Prop :=
  ∃ cs t, (∀ c ∈ cs, IsScalar c) ∧ raw = encodeAll cs ∧ JsonText t cs ∧ t.nesting ≤ 10000 ∧ unmarshal t = some p

/-- The interface NetBird uses: wt0 when none is named. -/
def Profile.effectiveIface (p : Profile) : List ℕ := if p.wgIface = [] then ['w', 't', '0'].map Char.toNat else p.wgIface

end Molebridge.GoJson
