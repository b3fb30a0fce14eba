import Molebridge.Lib.Text
import Molebridge.Spec.Netip

/-! netip.ParseAddr. A text with a zone is refused here: its callers refuse either the text or
the address. -/

namespace Molebridge.Addr

open Text

def from4 (a b c d : ℕ) : Addr :=
  ⟨.v4, (((a * 256 + b) * 256 + c) * 256 + d) % 2 ^ 32, Nat.mod_lt _ (by decide)⟩

/-- netip.AddrFrom16, of the eight groups. -/
def from16 (groups : List ℕ) : Addr :=
  ⟨.v6, groups.foldl (fun acc g => 65536 * acc + g) 0 % 2 ^ 128, Nat.mod_lt _ (by decide)⟩

/-- A field of an IPv4 text: digits without a leading zero, at most 255. -/
def octet (field : List Char) : Option ℕ :=
  if field = [] ∨ !field.all Char.isDigit ∨ field.head? = some '0' ∧ field.length ≠ 1 then none
  else if Nat.ofDigitChars 10 field 0 ≤ 255 then some (Nat.ofDigitChars 10 field 0)
  else none

def parseIPv4 (s : List Char) : Option Addr :=
  match s.splitOn '.' with
  | [p, q, r, t] =>
    match octet p, octet q, octet r, octet t with
    | some a, some b, some c, some d => some (from4 a b c d)
    | _, _, _, _ => none
  | _ => none

def hexDigit (c : Char) : Option ℕ :=
  if '0' ≤ c ∧ c ≤ '9' then some (c.toNat - 48)
  else if 'a' ≤ c ∧ c ≤ 'f' then some (c.toNat - 87)
  else if 'A' ≤ c ∧ c ≤ 'F' then some (c.toNat - 55)
  else none

def hexValue (acc : ℕ) : List Char → Option ℕ
  | [] => some acc
  | c :: rest =>
    match hexDigit c with
    | none => none
    | some d => hexValue (16 * acc + d) rest

def hexField (field : List Char) : Option ℕ :=
  if field = [] ∨ 4 < field.length then none else hexValue 0 field

def hexFields : List (List Char) → Option (List ℕ)
  | [] => some []
  | field :: rest =>
    match hexField field, hexFields rest with
    | some g, some gs => some (g :: gs)
    | _, _ => none

/-- The fields between colons; the empty text has none. -/
def colonFields (s : List Char) : List (List Char) :=
  if s = [] then [] else s.splitOn ':'

/-- The groups at the end of an IPv6 text, whose last field may be an IPv4 text. -/
def lastGroups (s : List Char) : Option (List ℕ) :=
  let fields := colonFields s
  if '.' ∈ fields.getLastD [] then
    match hexFields fields.dropLast, parseIPv4 (fields.getLastD []) with
    | some gs, some a => some (gs ++ [a.val / 65536, a.val % 65536])
    | _, _ => none
  else hexFields fields

def parseIPv6 (s : List Char) : Option Addr :=
  if '%' ∈ s then none
  else match cutDouble ':' s with
    | none =>
      match lastGroups s with
      | some gs => if gs.length = 8 then some (from16 gs) else none
      | none => none
    | some (l, r) =>
      match hexFields (colonFields l), lastGroups r with
      | some gs, some gs' =>
        if gs.length + gs'.length < 8 then
          some (from16 (gs ++ List.replicate (8 - (gs.length + gs'.length)) 0 ++ gs'))
        else none
      | _, _ => none

def parseAddr (s : List Char) : Option Addr :=
  match s.find? fun c => c == '.' || c == ':' || c == '%' with
  | some '.' => parseIPv4 s
  | some ':' => parseIPv6 s
  | _ => none

def is4In6 (a : Addr) : Bool := !a.is4 && a.val / 2 ^ 32 == 0xffff

end Molebridge.Addr
