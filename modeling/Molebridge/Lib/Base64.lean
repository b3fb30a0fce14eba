import Mathlib.Data.List.Basic
import Mathlib.Tactic

/-! Base64 with the standard alphabet, decoded strictly: the last quantum is padded, and the bits
that its characters spare are zero. -/

namespace Molebridge.Base64

def sextet (c : Char) : Option ℕ :=
  if 'A' ≤ c ∧ c ≤ 'Z' then some (c.toNat - 65)
  else if 'a' ≤ c ∧ c ≤ 'z' then some (c.toNat - 71)
  else if '0' ≤ c ∧ c ≤ '9' then some (c.toNat + 4)
  else if c = '+' then some 62
  else if c = '/' then some 63
  else none

def decode : List Char → Option (List ℕ)
  | [] => some []
  | a :: b :: c :: d :: rest =>
    match sextet a, sextet b, sextet c, sextet d with
    | some x, some y, some z, some w => (decode rest).map fun out =>
        (4 * x + y / 16) :: (y % 16 * 16 + z / 4) :: (z % 4 * 64 + w) :: out
    | some x, some y, some z, none =>
      if d = '=' ∧ rest = [] ∧ z % 4 = 0 then some [4 * x + y / 16, y % 16 * 16 + z / 4] else none
    | some x, some y, none, none =>
      if c = '=' ∧ d = '=' ∧ rest = [] ∧ y % 16 = 0 then some [4 * x + y / 16] else none
    | _, _, _, _ => none
  | _ => none

theorem decode_padded {v : List Char} {raw : List ℕ} (h : decode v = some raw)
    (hlen : 3 * v.length = 4 * (raw.length + 1)) :
    ∃ body c z, v = body ++ [c, '='] ∧ (∀ x ∈ body, (sextet x).isSome) ∧ sextet c = some z ∧ z % 4 = 0 := by
  fun_induction decode v generalizing raw with
  | case1 =>
    cases hlen
  | case2 a b c d rest x y z w hw hz hy hx ih =>
    obtain ⟨_, hout, rfl⟩ := Option.map_eq_some_iff.1 h
    simp only [List.length_cons] at hlen
    obtain ⟨body, c', z', rfl, hbody, hc', hbits⟩ := ih hout (by omega)
    refine ⟨a :: b :: c :: d :: body, c', z', rfl, ?_, hc', hbits⟩
    simpa [hx, hy, hz, hw] using hbody
  | case3 a b c d rest x y z hw hz hy hx hpad =>
    obtain ⟨rfl, rfl, hbits⟩ := hpad
    exact ⟨[a, b], c, z, rfl, by simp [hx, hy], hz, hbits⟩
  | case5 a b c d rest x y hw hz hy hx hpad =>
    obtain ⟨rfl, rfl, rfl, -⟩ := hpad
    cases h
    cases hlen
  | _ => cases h

end Molebridge.Base64
