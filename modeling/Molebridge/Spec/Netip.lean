import Mathlib.Data.List.Dedup
import Mathlib.Data.List.Sort
import Mathlib.Data.Nat.Bits
import Mathlib.Tactic

/-! Addresses and prefixes as net/netip has them. An address is a family and a
number below the family's size; the zero `netip.Addr` and the zero
`netip.Prefix` ("not valid") are `none` wherever the code can hold one. Zones
are left out: nothing the kernel reports and nothing the configuration accepts
carries one. -/

namespace Molebridge

/-- rtnl.Family -/
inductive Family where
  | v4
  | v6
deriving DecidableEq, Repr

def Family.bits : Family → ℕ
  | .v4 => 32
  | .v6 => 128

def Family.text : Family → String
  | .v4 => "IPv4"
  | .v6 => "IPv6"

/-- The order the code goes through the families in. -/
def families : List Family := [.v4, .v6]

theorem mem_families (f : Family) : f ∈ families := by cases f <;> simp [families]

@[ext] structure Addr where
  fam : Family
  val : ℕ
  lt : val < 2 ^ fam.bits
deriving DecidableEq

namespace Addr

def is4 (a : Addr) : Bool := a.fam == .v4

def bitLen (a : Addr) : ℕ := a.fam.bits

/-- IPv4Unspecified and IPv6Unspecified -/
def zero (f : Family) : Addr := ⟨f, 0, by positivity⟩

def isUnspecified (a : Addr) : Bool := a.val == 0

/-- An IPv4-mapped IPv6 address is unmapped before it is looked at. -/
def isLoopback (a : Addr) : Bool :=
  match a.fam with
  | .v4 => a.val / 2 ^ 24 == 127
  | .v6 => a.val == 1 || (a.val / 2 ^ 32 == 0xffff && a.val % 2 ^ 32 / 2 ^ 24 == 127)

def less (a b : Addr) : Bool :=
  a.bitLen < b.bitLen || (a.bitLen == b.bitLen && a.val < b.val)

def prev (a : Addr) : Option Addr :=
  if a.val = 0 then none else some ⟨a.fam, a.val - 1, lt_of_le_of_lt (Nat.sub_le _ _) a.lt⟩

def next (a : Addr) : Option Addr :=
  if h : a.val + 1 < 2 ^ a.fam.bits then some ⟨a.fam, a.val + 1, h⟩ else none

/-- The eight 16-bit groups of an IPv6 address, the leading one first. -/
def groups (a : Addr) : List ℕ :=
  (List.range 8).map fun i => a.val / 2 ^ (16 * (7 - i)) % 2 ^ 16

/-- The first longest run of zero groups, as its start and length. -/
def zeroRun (gs : List ℕ) : ℕ × ℕ :=
  (List.range gs.length).foldl (fun best i =>
    let n := ((gs.drop i).takeWhile (· == 0)).length
    if best.2 < n then (i, n) else best) (0, 0)

def hexText (n : ℕ) : String := String.ofList (Nat.toDigits 16 n)

def dotted (v : ℕ) : String :=
  String.intercalate "." ([24, 16, 8, 0].map fun k => toString (v / 2 ^ k % 256))

def text (a : Addr) : String :=
  match a.fam with
  | .v4 => dotted a.val
  | .v6 =>
    if a.val / 2 ^ 32 = 0xffff then "::ffff:" ++ dotted (a.val % 2 ^ 32)
    else
      let gs := a.groups
      let (i, n) := zeroRun gs
      if n < 2 then String.intercalate ":" (gs.map hexText)
      else String.intercalate ":" ((gs.take i).map hexText) ++ "::" ++
        String.intercalate ":" ((gs.drop (i + n)).map hexText)

end Addr

structure Prefix where
  addr : Addr
  bits : ℕ
  le : bits ≤ addr.fam.bits
deriving DecidableEq

namespace Prefix

/-- The number of addresses the length leaves open. -/
def size (p : Prefix) : ℕ := 2 ^ (p.addr.fam.bits - p.bits)

/-- netip.PrefixFrom with a host address and its own length. -/
def host (a : Addr) : Prefix := ⟨a, a.bitLen, le_refl _⟩

def default (f : Family) : Prefix := ⟨Addr.zero f, 0, Nat.zero_le _⟩

theorem masked_lt (p : Prefix) : p.addr.val / p.size * p.size < 2 ^ p.addr.fam.bits :=
  lt_of_le_of_lt (Nat.div_mul_le_self _ _) p.addr.lt

def masked (p : Prefix) : Prefix :=
  ⟨⟨p.addr.fam, p.addr.val / p.size * p.size, p.masked_lt⟩, p.bits, p.le⟩

/-- The two addresses agree in the bits the length fixes. -/
def contains (p : Prefix) (a : Addr) : Bool :=
  p.addr.fam == a.fam && a.val / p.size == p.addr.val / p.size

def text (p : Prefix) : String := p.addr.text ++ "/" ++ toString p.bits

end Prefix

end Molebridge
