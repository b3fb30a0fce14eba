import Mathlib.Data.List.Lex
import Molebridge.Proofs.Lexed

/-! Strict decoding against the grammar: what DecodeJSON accepts is one JSON text with
different names in every object, within the limits, and every such text is accepted and
decoded to the value of its tree. -/

namespace Molebridge.Validate

open Utf8 Rfc8259

variable {name k raw : List ℕ} {items : List Tree} {members : List (List ℕ × Tree)} {m : List ℕ × Tree}

/-! ### White space and words -/

variable {cs b rest w body after : List ℕ} {v : Value} {result : List (List ℕ × Value)} {fuel depth c : ℕ}
  {t : Tree} {ts : List Tree} {ms : List (List ℕ × Tree)}

theorem space_encodeAll (hcs : ∀ c ∈ cs, IsScalar c) : space (encodeAll cs) = encodeAll (cs.dropWhile isWs) := by
  induction cs with
  | nil => rfl
  | cons c cs ih =>
    obtain ⟨hc, hcs⟩ := List.forall_mem_cons.1 hcs
    by_cases hws : isWs c = true
    · rw [List.dropWhile_cons_of_pos hws, ← ih hcs, encodeAll_cons, encode_ascii (isWs_ascii hws), List.singleton_append]
      exact List.dropWhile_cons_of_pos hws
    · rw [List.dropWhile_cons_of_neg hws]
      obtain ⟨first, _, hencode⟩ := List.exists_cons_of_ne_nil (encode_ne_nil c)
      have hfirst : ¬ isWs first = true := by
        intro hfirst
        by_cases hascii : c < 0x80
        · rw [encode_ascii hascii] at hencode
          exact hws ((List.cons.inj hencode).1 ▸ hfirst)
        · have := (encode_high (not_lt.1 hascii) hc.1 first (hencode ▸ (.head _))).1
          exact absurd (isWs_ascii hfirst) (not_lt.2 this)
      rw [encodeAll_cons, hencode, List.cons_append]
      exact List.dropWhile_cons_of_neg hfirst

theorem space_sound (hcs : ∀ c ∈ cs, IsScalar c) :
    ∃ w cs', cs = w ++ cs' ∧ IsWs w ∧ (∀ c ∈ cs', IsScalar c) ∧ space (encodeAll cs) = encodeAll cs' :=
  ⟨cs.takeWhile isWs, cs.dropWhile isWs, List.takeWhile_append_dropWhile.symm, fun _ hc => List.mem_takeWhile_imp hc,
    fun c hc => hcs c ((List.dropWhile_sublist _).mem hc), space_encodeAll hcs⟩

theorem space_peel {bytes : List ℕ} {b : ℕ} (hb : b < 0x80) (hcs : ∀ c ∈ cs, IsScalar c)
    (h : space (encodeAll cs) = b :: bytes) :
    ∃ w cs', cs = w ++ b :: cs' ∧ IsWs w ∧ (∀ c ∈ cs', IsScalar c) ∧ bytes = encodeAll cs' := by
  obtain ⟨w, _, rfl, hw, hcs', hspace⟩ := space_sound hcs
  obtain ⟨cs'', rfl, rfl⟩ := peel hb hcs' (hspace ▸ h)
  exact ⟨w, cs'', rfl, hw, (List.forall_mem_cons.1 hcs').2, rfl⟩

theorem literal_eq_some {word : List ℕ} : literal word b = some rest ↔ b = word ++ rest := by
  unfold literal
  split_ifs with h
  · obtain ⟨-, rfl⟩ := List.isPrefixOf_iff_prefix.1 h
    simp
  · constructor
    · exact fun h => nomatch h
    · rintro rfl
      exact absurd (List.isPrefixOf_iff_prefix.2 (List.prefix_append word rest)) h

theorem word_sound (h : word b = .ok (v, rest)) :
    v = .bool true ∧ b = trueText ++ rest ∨ v = .bool false ∧ b = falseText ++ rest ∨ v = .null ∧ b = nullText ++ rest := by
  unfold word at h
  cases htrue : literal wordTrue b with
  | some after =>
    simp only [htrue] at h
    cases h
    exact .inl ⟨rfl, literal_eq_some.1 htrue⟩
  | none =>
    cases hfalse : literal wordFalse b with
    | some after =>
      simp only [htrue, hfalse] at h
      cases h
      exact .inr (.inl ⟨rfl, literal_eq_some.1 hfalse⟩)
    | none =>
      cases hnull : literal wordNull b with
      | some after =>
        simp only [htrue, hfalse, hnull] at h
        cases h
        exact .inr (.inr ⟨rfl, literal_eq_some.1 hnull⟩)
      | none =>
        simp only [htrue, hfalse, hnull] at h
        cases hnan : literal wordNaN b <;> cases hinf : literal wordInfinity b <;> simp [hnan, hinf] at h

/-! ### The map of an object -/

@[simp] theorem hasKey_nil (key : List ℕ) : hasKey key [] = false := rfl

@[simp] theorem hasKey_cons (key k : List ℕ) (v : Value) (result : List (List ℕ × Value)) :
    hasKey key ((k, v) :: result) = true ↔ key = k ∨ hasKey key result = true := by
  simp [hasKey, @eq_comm _ key k]

theorem hasKey_setKey (key k : List ℕ) (v : Value) (result : List (List ℕ × Value)) :
    hasKey key (setKey k v result) = true ↔ key = k ∨ hasKey key result = true := by
  induction result with
  | nil => simp only [setKey, hasKey_cons]
  | cons m result ih =>
    obtain ⟨-, -⟩ := m
    simp only [setKey]
    split_ifs with hlt heq
    · simp only [hasKey_cons]
    · subst heq
      simp only [hasKey_cons]
      tauto
    · simp only [hasKey_cons]
      tauto

theorem hasKey_of_mem {m : List ℕ × Value} {members : List (List ℕ × Value)} (h : m ∈ members) : hasKey m.1 members = true :=
  List.any_eq_true.2 ⟨m, h, beq_self_eq_true _⟩

def Sorted (members : List (List ℕ × Value)) : Prop := members.Pairwise fun a b => a.1 < b.1

theorem mem_setKey (hname : hasKey name result = false)
    (m : List ℕ × Value) : m ∈ setKey name v result ↔ m = (name, v) ∨ m ∈ result := by
  induction result with
  | nil => simp [setKey]
  | cons first result ih =>
    rw [← Bool.not_eq_true, hasKey_cons, not_or, Bool.not_eq_true] at hname
    simp only [setKey, if_neg hname.1]
    split_ifs
    · simp
    · simp [ih hname.2, or_left_comm]

theorem sorted_setKey (hname : hasKey name result = false)
    (h : Sorted result) : Sorted (setKey name v result) := by
  induction result with
  | nil => simp [setKey, Sorted]
  | cons first result ih =>
    obtain ⟨hfirst, hrest⟩ := List.pairwise_cons.1 h
    rw [← Bool.not_eq_true, hasKey_cons, not_or, Bool.not_eq_true] at hname
    simp only [setKey, if_neg hname.1]
    split_ifs with hlt
    · refine List.pairwise_cons.2 ⟨?_, h⟩
      intro m hm
      rcases List.mem_cons.1 hm with rfl | hm
      · exact hlt
      · exact lt_trans hlt (hfirst m hm)
    · refine List.pairwise_cons.2 ⟨?_, ih hname.2 hrest⟩
      intro m hm
      rcases (mem_setKey hname.2 m).1 hm with rfl | hm
      · exact lt_of_le_of_ne (not_lt.1 hlt) (Ne.symm hname.1)
      · exact hfirst m hm

/-! ### The value of a tree -/

variable (pf : ParseFloat)

mutual

def toValue : Tree → Value
  | .null => .null
  | .bool b => .bool b
  | .num n => numberValue pf n
  | .str s => .str (encodeAll s)
  | .arr items => .arr (toValues items)
  | .obj members => .obj (toMembers members [])

def toValues : List Tree → List Value
  | [] => []
  | t :: ts => toValue t :: toValues ts

/-- The members one after another, into the map so far. -/
def toMembers : List (List ℕ × Tree) → List (List ℕ × Value) → List (List ℕ × Value)
  | [], result => result
  | (k, t) :: ms, result => toMembers ms (setKey (encodeAll k) (toValue t) result)

end

/-! ### One step of each loop -/

theorem objectLoop_ok {out : Value} (h : objectLoop pf (fuel + 1) depth result b = .ok (out, rest)) :
    ∃ b₁ key b₂ b₃ v b₄, space b = 0x22 :: b₁ ∧ str b₁ = .ok (key, b₂) ∧ space b₂ = 0x3A :: b₃ ∧
      value pf fuel depth (space b₃) = .ok (v, b₄) ∧ hasKey key result = false ∧
      ((∃ b₅, space b₄ = 0x2C :: b₅ ∧ objectLoop pf fuel depth (setKey key v result) b₅ = .ok (out, rest)) ∨
        space b₄ = 0x7D :: rest ∧ out = .obj (setKey key v result)) := by
  unfold objectLoop at h
  split at h
  · next b₁ hquote =>
    split at h
    · cases h
    · next key b₂ hkey =>
      split at h
      · next b₃ hcolon =>
        split at h
        · cases h
        · next v b₄ hvalue =>
          split_ifs at h with hdup
          split at h
          · next b₅ hcomma => exact ⟨b₁, key, b₂, b₃, v, b₄, hquote, hkey, hcolon, hvalue, by simpa using hdup, .inl ⟨b₅, hcomma, h⟩⟩
          · next b₅ hclose =>
            cases h
            exact ⟨b₁, key, b₂, b₃, v, b₄, hquote, hkey, hcolon, hvalue, by simpa using hdup, .inr ⟨hclose, rfl⟩⟩
          · cases h
      · cases h
  · cases h

theorem arrayLoop_ok {result : List Value} {out : Value}
    (h : arrayLoop pf (fuel + 1) depth result b = .ok (out, rest)) :
    ∃ v b₁, value pf fuel depth (space b) = .ok (v, b₁) ∧
      ((∃ b₂, space b₁ = 0x2C :: b₂ ∧ arrayLoop pf fuel depth (result ++ [v]) b₂ = .ok (out, rest)) ∨
        space b₁ = 0x5D :: rest ∧ out = .arr (result ++ [v])) := by
  unfold arrayLoop at h
  split at h
  · cases h
  · next v b₁ hvalue =>
    split at h
    · next b₂ hcomma => exact ⟨v, b₁, hvalue, .inl ⟨b₂, hcomma, h⟩⟩
    · next b₂ hclose =>
      cases h
      exact ⟨v, b₁, hvalue, .inr ⟨hclose, rfl⟩⟩
    · cases h

/-! ### What is accepted -/

/-- The tree is within the limits at the depth, and its objects have different names. -/
structure Strict (depth : ℕ) (t : Tree) : Prop where
  nesting : t.nesting ≤ maxDepth - depth
  distinct : t.All Tree.Distinct
  digits : t.All (Tree.IntegerWithin maxIntDigits)

structure StrictItems (depth : ℕ) (ts : List Tree) : Prop where
  nesting : nestingItems ts ≤ maxDepth - depth
  distinct : AllItems Tree.Distinct ts
  digits : AllItems (Tree.IntegerWithin maxIntDigits) ts

structure StrictMembers (depth : ℕ) (ms : List (List ℕ × Tree)) : Prop where
  nesting : nestingMembers ms ≤ maxDepth - depth
  distinct : AllMembers Tree.Distinct ms
  digits : AllMembers (Tree.IntegerWithin maxIntDigits) ms

theorem strictItems_cons :
    StrictItems depth (t :: ts) ↔ Strict depth t ∧ StrictItems depth ts := by
  constructor
  · rintro ⟨hnesting, hdistinct, hdigits⟩
    have := max_le_iff.1 hnesting
    exact ⟨⟨this.1, hdistinct.1, hdigits.1⟩, this.2, hdistinct.2, hdigits.2⟩
  · rintro ⟨ht, hts⟩
    exact ⟨max_le ht.nesting hts.nesting, ⟨ht.distinct, hts.distinct⟩, ht.digits, hts.digits⟩

theorem strictMembers_cons :
    StrictMembers depth ((k, t) :: ms) ↔ Strict depth t ∧ StrictMembers depth ms := by
  constructor
  · rintro ⟨hnesting, hdistinct, hdigits⟩
    have := max_le_iff.1 hnesting
    exact ⟨⟨this.1, hdistinct.1, hdigits.1⟩, this.2, hdistinct.2, hdigits.2⟩
  · rintro ⟨ht, hms⟩
    exact ⟨max_le ht.nesting hms.nesting, ⟨ht.distinct, hms.distinct⟩, ht.digits, hms.digits⟩

theorem strictItems_nil (depth : ℕ) : StrictItems depth [] := ⟨Nat.zero_le _, trivial, trivial⟩

theorem strictMembers_nil (depth : ℕ) : StrictMembers depth [] := ⟨Nat.zero_le _, trivial, trivial⟩

theorem strict_arr :
    Strict depth (.arr items) ↔ depth + 1 ≤ maxDepth ∧ StrictItems (depth + 1) items := by
  constructor
  · rintro ⟨hnesting, hdistinct, hdigits⟩
    simp only [Tree.nesting] at hnesting
    exact ⟨by omega, by omega, hdistinct.2, hdigits.2⟩
  · rintro ⟨_, _, hdistinct, hdigits⟩
    exact ⟨by simp only [Tree.nesting]; omega, ⟨trivial, hdistinct⟩, trivial, hdigits⟩

theorem strict_obj :
    Strict depth (.obj members) ↔ depth + 1 ≤ maxDepth ∧ (members.map Prod.fst).Nodup ∧ StrictMembers (depth + 1) members := by
  constructor
  · rintro ⟨hnesting, hdistinct, hdigits⟩
    simp only [Tree.nesting] at hnesting
    exact ⟨by omega, hdistinct.1, by omega, hdistinct.2, hdigits.2⟩
  · rintro ⟨_, hnodup, _, hdistinct, hdigits⟩
    exact ⟨by simp only [Tree.nesting]; omega, ⟨hnodup, hdistinct⟩, trivial, hdigits⟩

/-- Each name, in bytes, is not in the map when its member is set. -/
def Fresh : List (List ℕ × Tree) → List (List ℕ × Value) → Prop
  | [], _ => True
  | (k, t) :: ms, result => hasKey (encodeAll k) result = false ∧ Fresh ms (setKey (encodeAll k) (toValue pf t) result)

theorem fresh_iff :
    Fresh pf ms result ↔ ((ms.map Prod.fst).map encodeAll).Nodup ∧ ∀ m ∈ ms, hasKey (encodeAll m.1) result = false := by
  induction ms generalizing result with
  | nil => simp [Fresh]
  | cons m ms ih =>
    simp only [Fresh, ih, List.map_cons, List.map_map, List.nodup_cons, List.mem_map, List.forall_mem_cons, ← Bool.not_eq_true,
      hasKey_setKey, not_or, not_exists, not_and]
    constructor
    · rintro ⟨hk, hnodup, hms⟩
      exact ⟨⟨fun m hm => (hms m hm).1, hnodup⟩, hk, fun m hm => (hms m hm).2⟩
    · rintro ⟨⟨hne, hnodup⟩, hk, hms⟩
      exact ⟨hk, hnodup, fun m hm => ⟨hne m hm, hms m hm⟩⟩

def ValueRead (depth : ℕ) (cs : List ℕ) (v : Value) (rest : List ℕ) : Prop :=
  ∃ t text after, cs = text ++ after ∧ rest = encodeAll after ∧ Spells t text ∧ v = toValue pf t ∧ Strict depth t

def ItemsRead (depth : ℕ) (result : List Value) (cs : List ℕ) (v : Value) (rest : List ℕ) : Prop :=
  ∃ t ts body after, cs = body ++ 0x5D :: after ∧ rest = encodeAll after ∧ Elements (t :: ts) body ∧
    v = .arr (result ++ toValues pf (t :: ts)) ∧ StrictItems depth (t :: ts)

def MembersRead (depth : ℕ) (result : List (List ℕ × Value)) (cs : List ℕ) (v : Value) (rest : List ℕ) : Prop :=
  ∃ m ms body after, cs = body ++ 0x7D :: after ∧ rest = encodeAll after ∧ Fields (m :: ms) body ∧
    v = .obj (toMembers pf (m :: ms) result) ∧ StrictMembers depth (m :: ms) ∧ Fresh pf (m :: ms) result

def ValueSound (fuel : ℕ) : Prop :=
  ∀ (depth : ℕ) (cs : List ℕ) (v : Value) (rest : List ℕ), (∀ c ∈ cs, IsScalar c) →
    value pf fuel depth (encodeAll cs) = .ok (v, rest) → ValueRead pf depth cs v rest

def ItemsSound (fuel : ℕ) : Prop :=
  ∀ (depth : ℕ) (result : List Value) (cs : List ℕ) (v : Value) (rest : List ℕ), (∀ c ∈ cs, IsScalar c) →
    arrayLoop pf fuel depth result (encodeAll cs) = .ok (v, rest) → ItemsRead pf depth result cs v rest

def MembersSound (fuel : ℕ) : Prop :=
  ∀ (depth : ℕ) (result : List (List ℕ × Value)) (cs : List ℕ) (v : Value) (rest : List ℕ), (∀ c ∈ cs, IsScalar c) →
    objectLoop pf fuel depth result (encodeAll cs) = .ok (v, rest) → MembersRead pf depth result cs v rest

variable {pf}

theorem ValueSound.spaced (hsound : ValueSound pf fuel)
    (hcs : ∀ c ∈ cs, IsScalar c) (h : value pf fuel depth (space (encodeAll cs)) = .ok (v, rest)) :
    ∃ t w text after, cs = w ++ text ++ after ∧ rest = encodeAll after ∧ IsWs w ∧ Spells t text ∧ v = toValue pf t ∧
      Strict depth t ∧ ∀ c ∈ after, IsScalar c := by
  obtain ⟨w, cs', rfl, hw, hcs', hspace⟩ := space_sound hcs
  obtain ⟨t, text, after, rfl, rfl, hspells, rfl, hstrict⟩ := hsound depth cs' v rest hcs' (hspace ▸ h)
  exact ⟨t, w, text, after, by rw [List.append_assoc], rfl, hw, hspells, rfl, hstrict, (List.forall_mem_append.1 hcs').2⟩

theorem items_step (hvalue : ValueSound pf fuel) (hitems : ItemsSound pf fuel) : ItemsSound pf (fuel + 1) := by
  intro depth result cs v rest hcs h
  obtain ⟨_, _, hitem, hnext⟩ := arrayLoop_ok pf h
  obtain ⟨t, w, text, after, rfl, rfl, hw, hspells, rfl, hstrict, hafter⟩ := hvalue.spaced hcs hitem
  rcases hnext with ⟨_, hcomma, hloop⟩ | ⟨hclose, rfl⟩
  · obtain ⟨w', cs', rfl, hw', hcs', rfl⟩ := space_peel (by decide) hafter hcomma
    obtain ⟨t', ts, body, after, rfl, rfl, helements, rfl, hitems⟩ := hitems _ _ _ _ _ hcs' hloop
    refine ⟨t, t' :: ts, w ++ text ++ w' ++ 0x2C :: body, after, by simp, rfl, ⟨w, text, w', body, hw, hspells, hw', helements, rfl⟩,
      by simp [toValues], strictItems_cons.2 ⟨hstrict, hitems⟩⟩
  · obtain ⟨w', cs', rfl, hw', -, rfl⟩ := space_peel (by decide) hafter hclose
    exact ⟨t, [], w ++ text ++ w', cs', by simp, rfl, ⟨w, text, w', hw, hspells, hw', rfl⟩, rfl,
      strictItems_cons.2 ⟨hstrict, strictItems_nil depth⟩⟩

theorem members_step (hvalue : ValueSound pf fuel) (hmembers : MembersSound pf fuel) : MembersSound pf (fuel + 1) := by
  intro depth result cs v rest hcs h
  obtain ⟨_, _, _, _, _, _, hquote, hkey, hcolon, hitem, hfresh, hnext⟩ := objectLoop_ok pf h
  obtain ⟨w, _, rfl, hw, hcs₁, rfl⟩ := space_peel (by decide) hcs hquote
  rw [str_eq_chars] at hkey
  obtain ⟨kbody, k, _, rfl, rfl, rfl, hchars⟩ := chars_sound hcs₁ hkey
  have hcs₂ := (List.forall_mem_cons.1 (List.forall_mem_append.1 hcs₁).2).2
  obtain ⟨w₁, _, rfl, hw₁, hcs₃, rfl⟩ := space_peel (by decide) hcs₂ hcolon
  obtain ⟨t, w₂, text, after, rfl, rfl, hw₂, hspells, rfl, hstrict, hafter⟩ := hvalue.spaced hcs₃ hitem
  have hquoted : Quoted k (0x22 :: kbody ++ [0x22]) := ⟨kbody, hchars, rfl⟩
  rcases hnext with ⟨_, hcomma, hloop⟩ | ⟨hclose, rfl⟩
  · obtain ⟨w', cs', rfl, hw', hcs', rfl⟩ := space_peel (by decide) hafter hcomma
    obtain ⟨m, ms, body, after, rfl, rfl, hfields, rfl, hstrict', hfresh'⟩ := hmembers _ _ _ _ _ hcs' hloop
    exact ⟨(k, t), m :: ms, w ++ (0x22 :: kbody ++ [0x22]) ++ w₁ ++ 0x3A :: w₂ ++ text ++ w' ++ 0x2C :: body, after, by simp, rfl,
      ⟨w, _, w₁, w₂, text, w', body, hw, hquoted, hw₁, hw₂, hspells, hw', hfields, rfl⟩, rfl,
      strictMembers_cons.2 ⟨hstrict, hstrict'⟩, hfresh, hfresh'⟩
  · obtain ⟨w', cs', rfl, hw', -, rfl⟩ := space_peel (by decide) hafter hclose
    exact ⟨(k, t), [], w ++ (0x22 :: kbody ++ [0x22]) ++ w₁ ++ 0x3A :: w₂ ++ text ++ w', cs', by simp, rfl,
      ⟨w, _, w₁, w₂, text, w', hw, hquoted, hw₁, hw₂, hspells, hw', rfl⟩, rfl,
      strictMembers_cons.2 ⟨hstrict, strictMembers_nil depth⟩, hfresh, trivial⟩

theorem elements_space (hw : IsWs w) (h : Elements (t :: ts) body) :
    Elements (t :: ts) (w ++ body) := by
  cases ts with
  | nil =>
    obtain ⟨w₁, v, w₂, hw₁, hv, hw₂, rfl⟩ := h
    exact ⟨w ++ w₁, v, w₂, List.forall_mem_append.2 ⟨hw, hw₁⟩, hv, hw₂, by simp⟩
  | cons t' ts =>
    obtain ⟨w₁, v, w₂, rest, hw₁, hv, hw₂, hrest, rfl⟩ := h
    exact ⟨w ++ w₁, v, w₂, rest, List.forall_mem_append.2 ⟨hw, hw₁⟩, hv, hw₂, hrest, by simp⟩

theorem fields_space (hw : IsWs w) (h : Fields (m :: ms) body) :
    Fields (m :: ms) (w ++ body) := by
  cases ms with
  | nil =>
    obtain ⟨w₀, key, w₁, w₂, v, w', hw₀, hkey, hw₁, hw₂, hv, hw', rfl⟩ := h
    exact ⟨w ++ w₀, key, w₁, w₂, v, w', List.forall_mem_append.2 ⟨hw, hw₀⟩, hkey, hw₁, hw₂, hv, hw', by simp⟩
  | cons m ms =>
    obtain ⟨w₀, key, w₁, w₂, v, w', rest, hw₀, hkey, hw₁, hw₂, hv, hw', hrest, rfl⟩ := h
    exact ⟨w ++ w₀, key, w₁, w₂, v, w', rest, List.forall_mem_append.2 ⟨hw, hw₀⟩, hkey, hw₁, hw₂, hv, hw', hrest, by simp⟩

theorem array_sound (hitems : ItemsSound pf fuel) (hcs : ∀ c ∈ cs, IsScalar c)
    (h : array (depth + 1) (encodeAll cs) (arrayLoop pf fuel (depth + 1) []) = .ok (v, rest)) :
    ValueRead pf depth (0x5B :: cs) v rest := by
  unfold array at h
  split_ifs at h with hdepth
  split at h
  · next after hclose =>
    obtain ⟨w, cs', rfl, hw, -, rfl⟩ := space_peel (by decide) hcs hclose
    cases h
    exact ⟨.arr [], 0x5B :: w ++ [0x5D], cs', by simp, rfl, ⟨w, hw, rfl⟩, rfl, strict_arr.2 ⟨by omega, strictItems_nil _⟩⟩
  · obtain ⟨w, _, rfl, hw, hcs', hspace⟩ := space_sound hcs
    obtain ⟨t, ts, body, after, rfl, rfl, helements, rfl, hstrict⟩ := hitems _ _ _ _ _ hcs' (hspace ▸ h)
    exact ⟨.arr (t :: ts), 0x5B :: (w ++ body) ++ [0x5D], after, by simp, rfl, ⟨w ++ body, elements_space hw helements, rfl⟩, rfl,
      strict_arr.2 ⟨by omega, hstrict⟩⟩

theorem object_sound (hmembers : MembersSound pf fuel) (hcs : ∀ c ∈ cs, IsScalar c)
    (h : object (depth + 1) (encodeAll cs) (objectLoop pf fuel (depth + 1) []) = .ok (v, rest)) :
    ValueRead pf depth (0x7B :: cs) v rest := by
  unfold object at h
  split_ifs at h with hdepth
  split at h
  · next after hclose =>
    obtain ⟨w, cs', rfl, hw, -, rfl⟩ := space_peel (by decide) hcs hclose
    cases h
    exact ⟨.obj [], 0x7B :: w ++ [0x7D], cs', by simp, rfl, ⟨w, hw, rfl⟩, rfl,
      strict_obj.2 ⟨by omega, List.nodup_nil, strictMembers_nil _⟩⟩
  · obtain ⟨w, _, rfl, hw, hcs', hspace⟩ := space_sound hcs
    obtain ⟨m, ms, body, after, rfl, rfl, hfields, rfl, hstrict, hfresh⟩ := hmembers _ _ _ _ _ hcs' (hspace ▸ h)
    have hnodup : ((m :: ms).map Prod.fst).Nodup := List.Nodup.of_map encodeAll ((fresh_iff pf).1 hfresh).1
    exact ⟨.obj (m :: ms), 0x7B :: (w ++ body) ++ [0x7D], after, by simp, rfl, ⟨w ++ body, fields_space hw hfields, rfl⟩, rfl,
      strict_obj.2 ⟨by omega, hnodup, hstrict⟩⟩

theorem value_step (hitems : ItemsSound pf fuel) (hmembers : MembersSound pf fuel) : ValueSound pf (fuel + 1) := by
  intro depth cs v rest hcs h
  cases hbytes : encodeAll cs with
  | nil =>
    rw [hbytes] at h
    cases h
  | cons b bytes =>
    rw [hbytes] at h
    simp only [value] at h
    split_ifs at h with hobject harray hstring hnumber
    · obtain ⟨cs', rfl, rfl⟩ := peel (by omega) hcs hbytes
      exact hobject ▸ object_sound hmembers (List.forall_mem_cons.1 hcs).2 h
    · obtain ⟨cs', rfl, rfl⟩ := peel (by omega) hcs hbytes
      exact harray ▸ array_sound hitems (List.forall_mem_cons.1 hcs).2 h
    · obtain ⟨cs', rfl, rfl⟩ := peel (by omega) hcs hbytes
      subst hstring
      rw [str_eq_chars] at h
      cases hchars : chars (encodeAll cs') with
      | error e => simp [hchars] at h
      | ok found =>
        obtain ⟨s, after⟩ := found
        simp only [hchars] at h
        cases h
        obtain ⟨text, s', after, rfl, rfl, rfl, hbody⟩ := chars_sound (List.forall_mem_cons.1 hcs).2 hchars
        exact ⟨.str s', 0x22 :: text ++ [0x22], after, by simp, rfl, ⟨text, hbody, rfl⟩, rfl, Nat.zero_le _, trivial, trivial⟩
    · obtain ⟨n, hn, rfl, hsize⟩ := number_sound pf h
      obtain ⟨cs', rfl, rfl⟩ := peelAll n.ascii hcs (hbytes.trans hn)
      exact ⟨.num n, n.text, cs', rfl, rfl, rfl, rfl, Nat.zero_le _, trivial, hsize⟩
    · rcases word_sound h with ⟨rfl, hword⟩ | ⟨rfl, hword⟩ | ⟨rfl, hword⟩
      · obtain ⟨cs', rfl, rfl⟩ := peelAll (by decide) hcs (hbytes.trans hword)
        exact ⟨.bool true, trueText, cs', rfl, rfl, rfl, rfl, Nat.zero_le _, trivial, trivial⟩
      · obtain ⟨cs', rfl, rfl⟩ := peelAll (by decide) hcs (hbytes.trans hword)
        exact ⟨.bool false, falseText, cs', rfl, rfl, rfl, rfl, Nat.zero_le _, trivial, trivial⟩
      · obtain ⟨cs', rfl, rfl⟩ := peelAll (by decide) hcs (hbytes.trans hword)
        exact ⟨.null, nullText, cs', rfl, rfl, rfl, rfl, Nat.zero_le _, trivial, trivial⟩

/-- What the parser accepts is a value of the grammar, and it returns its value. -/
theorem reads_sound (pf : ParseFloat) (fuel : ℕ) : ValueSound pf fuel ∧ ItemsSound pf fuel ∧ MembersSound pf fuel := by
  induction fuel with
  | zero =>
    refine ⟨(fun _ _ _ _ _ h => nomatch h), fun _ _ _ _ _ _ h => ?_, fun _ _ _ _ _ _ h => ?_⟩
    · simp [arrayLoop] at h
    · simp [objectLoop] at h
  | succ fuel ih =>
    obtain ⟨hvalue, hitems, hmembers⟩ := ih
    exact ⟨value_step hitems hmembers, items_step hvalue hitems, members_step hvalue hmembers⟩

/-! ### What is refused -/

theorem space_read (cs : List ℕ) (hw : IsWs w) (hc : c < 0x80 ∧ isWs c = false) :
    space (encodeAll (w ++ c :: cs)) = c :: encodeAll cs := by
  rw [encodeAll_append, encodeAll_ascii fun x hx => isWs_ascii (hw x hx), encodeAll_cons, encode_ascii hc.1, List.singleton_append]
  refine (List.dropWhile_append_of_pos hw).trans ?_
  exact List.dropWhile_cons_of_neg (by simp [hc.2])

theorem spells_head {text : List ℕ} (h : Spells t text) :
    ∃ c more, text = c :: more ∧ (c < 0x80 ∧ isWs c = false) ∧ c ≠ 0x5D := by
  cases t with
  | null => exact ⟨_, _, h, by decide, by decide⟩
  | bool b => cases b <;> exact ⟨_, _, h, by decide, by decide⟩
  | num n =>
    obtain ⟨c, more, htext, _⟩ := n.head
    refine ⟨c, more, h.trans htext, ?_⟩
    simp only [isWs, Bool.or_eq_false_iff, decide_eq_false_iff_not]
    omega
  | str | arr | obj =>
    obtain ⟨-, -, rfl⟩ := h
    exact ⟨_, _, rfl, by decide, by decide⟩

variable (pf)

def ValueComplete (fuel : ℕ) : Prop :=
  ∀ (t : Tree) (depth : ℕ) (text after : List ℕ), Spells t text → Strict depth t → text.length ≤ fuel →
    (∀ c ∈ text ++ after, IsScalar c) → Ends (encodeAll after) →
    value pf fuel depth (encodeAll (text ++ after)) = .ok (toValue pf t, encodeAll after)

def ItemsComplete (fuel : ℕ) : Prop :=
  ∀ (t : Tree) (ts : List Tree) (depth : ℕ) (result : List Value) (body after : List ℕ), Elements (t :: ts) body →
    StrictItems depth (t :: ts) → body.length + 1 ≤ fuel → (∀ c ∈ body ++ 0x5D :: after, IsScalar c) →
    arrayLoop pf fuel depth result (encodeAll (body ++ 0x5D :: after)) =
      .ok (.arr (result ++ toValues pf (t :: ts)), encodeAll after)

def MembersComplete (fuel : ℕ) : Prop :=
  ∀ (m : List ℕ × Tree) (ms : List (List ℕ × Tree)) (depth : ℕ) (result : List (List ℕ × Value)) (body after : List ℕ),
    Fields (m :: ms) body → StrictMembers depth (m :: ms) → Fresh pf (m :: ms) result → body.length ≤ fuel →
    (∀ c ∈ body ++ 0x7D :: after, IsScalar c) →
    objectLoop pf fuel depth result (encodeAll (body ++ 0x7D :: after)) =
      .ok (.obj (toMembers pf (m :: ms) result), encodeAll after)

variable {pf}

def IsEnd (c : ℕ) : Prop := c = 0x2C ∨ c = 0x5D ∨ c = 0x7D

theorem IsEnd.ascii (h : IsEnd c) : c < 0x80 ∧ isWs c = false := by
  rcases h with rfl | rfl | rfl <;> decide

theorem ends_space (hw : IsWs w) : Ends (encodeAll w) := by
  rw [encodeAll_ascii fun x hx => isWs_ascii (hw x hx)]
  intro c hc
  have := hw c (List.mem_of_mem_head? hc)
  simp only [isWs, Bool.or_eq_true, decide_eq_true_eq] at this
  simp only [isDigit, Bool.and_eq_false_iff, decide_eq_false_iff_not]
  omega

theorem ends_end (hw : IsWs w) (hc : IsEnd c) : Ends (encodeAll (w ++ c :: after)) := by
  cases w with
  | nil =>
    rw [List.nil_append, encodeAll_cons, encode_ascii hc.ascii.1]
    rintro _ ⟨rfl⟩
    rcases hc with rfl | rfl | rfl <;> decide
  | cons x w =>
    have hx := ends_space hw
    rw [encodeAll_cons, encode_ascii (isWs_ascii (hw x (.head _)))] at hx
    rw [List.cons_append, encodeAll_cons, encode_ascii (isWs_ascii (hw x (.head _)))]
    rintro _ ⟨rfl⟩
    exact hx x rfl

theorem ValueComplete.spaced {v w' : List ℕ} (hcomplete : ValueComplete pf fuel)
    (hw : IsWs w) (hv : Spells t v) (hw' : IsWs w') (hc : IsEnd c) (hstrict : Strict depth t) (hfuel : v.length ≤ fuel)
    (hcs : ∀ x ∈ v ++ (w' ++ c :: after), IsScalar x) :
    value pf fuel depth (space (encodeAll (w ++ (v ++ (w' ++ c :: after))))) = .ok (toValue pf t, encodeAll (w' ++ c :: after)) ∧
      space (encodeAll (w' ++ c :: after)) = c :: encodeAll after := by
  obtain ⟨first, more, rfl, hfirst, -⟩ := spells_head hv
  refine ⟨?_, space_read after hw' hc.ascii⟩
  have hspace : space (encodeAll (w ++ (first :: more ++ (w' ++ c :: after)))) = encodeAll (first :: more ++ (w' ++ c :: after)) := by
    rw [List.cons_append, space_read _ hw hfirst, encodeAll_cons, encode_ascii hfirst.1, List.singleton_append]
  rw [hspace]
  exact hcomplete t depth _ _ hv hstrict hfuel hcs (ends_end hw' hc)

theorem items_complete_step (hvalue : ValueComplete pf fuel) (hitems : ItemsComplete pf fuel) :
    ItemsComplete pf (fuel + 1) := by
  intro t ts depth result body after helements hstrict hfuel hcs
  obtain ⟨ht, hts⟩ := strictItems_cons.1 hstrict
  cases ts with
  | nil =>
    obtain ⟨w, v, _, hw, hv, hw', rfl⟩ := helements
    simp only [List.append_assoc] at hcs ⊢
    have hread := hvalue.spaced hw hv hw' (.inr (.inl rfl)) ht (by simp at hfuel; omega) (List.forall_mem_append.1 hcs).2
    simp only [arrayLoop, hread]
    rfl
  | cons t' ts =>
    obtain ⟨w, v, _, rest, hw, hv, hw', hrest, rfl⟩ := helements
    simp only [List.append_assoc, List.cons_append] at hcs ⊢
    have hcs' := (List.forall_mem_append.1 hcs).2
    have hread := hvalue.spaced hw hv hw' (.inl rfl) ht (by simp at hfuel; omega) hcs'
    have hcs'' := (List.forall_mem_cons.1 (List.forall_mem_append.1 (List.forall_mem_append.1 hcs').2).2).2
    have hloop := hitems t' ts depth (result ++ [toValue pf t]) rest after hrest hts (by simp at hfuel; omega) hcs''
    simp only [arrayLoop, hread, hloop, toValues, List.append_assoc, List.singleton_append]

theorem str_complete {key : List ℕ} (hkey : Quoted k key) (hafter : ∀ c ∈ after, IsScalar c) :
    ∃ more, key ++ after = 0x22 :: more ∧ str (encodeAll more) = .ok (encodeAll k, encodeAll after) := by
  obtain ⟨body, hchars, rfl⟩ := hkey
  refine ⟨body ++ 0x22 :: after, by simp, ?_⟩
  rw [str_eq_chars, chars_complete hafter hchars]

theorem members_complete_step (hvalue : ValueComplete pf fuel) (hmembers : MembersComplete pf fuel) :
    MembersComplete pf (fuel + 1) := by
  intro m ms depth result body after hfields hstrict hfresh hfuel hcs
  obtain ⟨k, t⟩ := m
  obtain ⟨ht, hms⟩ := strictMembers_cons.1 hstrict
  cases ms with
  | nil =>
    obtain ⟨w, _, _, _, v, _, hw, hkey, hw₁, hw₂, hv, hw', rfl⟩ := hfields
    simp only [List.append_assoc, List.cons_append] at hcs ⊢
    have hcs₁ := (List.forall_mem_append.1 (List.forall_mem_append.1 hcs).2).2
    have hcs₂ := (List.forall_mem_append.1 (List.forall_mem_cons.1 (List.forall_mem_append.1 hcs₁).2).2).2
    have hread := hvalue.spaced hw₂ hv hw' (.inr (.inr rfl)) ht (by simp at hfuel; omega) hcs₂
    obtain ⟨more, hmore, hstr⟩ := str_complete hkey hcs₁
    rw [hmore]
    simp only [objectLoop, space_read (c := 0x22) more hw (by decide), hstr, space_read (c := 0x3A) _ hw₁ (by decide), hread,
      hfresh.1]
    rfl
  | cons m ms =>
    obtain ⟨w, _, _, _, v, _, rest, hw, hkey, hw₁, hw₂, hv, hw', hrest, rfl⟩ := hfields
    simp only [List.append_assoc, List.cons_append] at hcs ⊢
    have hcs₁ := (List.forall_mem_append.1 (List.forall_mem_append.1 hcs).2).2
    have hcs₂ := (List.forall_mem_append.1 (List.forall_mem_cons.1 (List.forall_mem_append.1 hcs₁).2).2).2
    have hcs₃ := (List.forall_mem_cons.1 (List.forall_mem_append.1 (List.forall_mem_append.1 hcs₂).2).2).2
    have hread := hvalue.spaced hw₂ hv hw' (.inl rfl) ht (by simp at hfuel; omega) hcs₂
    obtain ⟨more, hmore, hstr⟩ := str_complete hkey hcs₁
    have hloop := hmembers m ms depth (setKey (encodeAll k) (toValue pf t) result) rest after hrest hms hfresh.2
      (by simp at hfuel; omega) hcs₃
    rw [hmore]
    simp only [objectLoop, space_read (c := 0x22) more hw (by decide), hstr, space_read (c := 0x3A) _ hw₁ (by decide), hread,
      hfresh.1, hloop]
    rfl

theorem elements_trim (h : Elements (t :: ts) body) :
    ∃ w c more, body = w ++ c :: more ∧ IsWs w ∧ Elements (t :: ts) (c :: more) ∧ (c < 0x80 ∧ isWs c = false) ∧ c ≠ 0x5D := by
  cases ts with
  | nil =>
    obtain ⟨w, v, w', hw, hv, hw', rfl⟩ := h
    obtain ⟨c, more, rfl, hc⟩ := spells_head hv
    exact ⟨w, c, more ++ w', by simp, hw, ⟨[], _, w', isWs_nil, hv, hw', rfl⟩, hc⟩
  | cons t' ts =>
    obtain ⟨w, v, w', rest, hw, hv, hw', hrest, rfl⟩ := h
    obtain ⟨c, more, rfl, hc⟩ := spells_head hv
    exact ⟨w, c, more ++ w' ++ 0x2C :: rest, by simp, hw, ⟨[], _, w', rest, isWs_nil, hv, hw', hrest, rfl⟩, hc⟩

theorem fields_trim (h : Fields (m :: ms) body) :
    ∃ w more, body = w ++ 0x22 :: more ∧ IsWs w ∧ Fields (m :: ms) (0x22 :: more) := by
  cases ms with
  | nil =>
    obtain ⟨w, -, w₁, w₂, v, w', hw, ⟨kbody, hk, rfl⟩, hw₁, hw₂, hv, hw', rfl⟩ := h
    exact ⟨w, kbody ++ [0x22] ++ w₁ ++ 0x3A :: w₂ ++ v ++ w', by simp, hw,
      ⟨[], _, w₁, w₂, v, w', isWs_nil, ⟨kbody, hk, rfl⟩, hw₁, hw₂, hv, hw', by simp⟩⟩
  | cons m ms =>
    obtain ⟨w, -, w₁, w₂, v, w', rest, hw, ⟨kbody, hk, rfl⟩, hw₁, hw₂, hv, hw', hrest, rfl⟩ := h
    exact ⟨w, kbody ++ [0x22] ++ w₁ ++ 0x3A :: w₂ ++ v ++ w' ++ 0x2C :: rest, by simp, hw,
      ⟨[], _, w₁, w₂, v, w', rest, isWs_nil, ⟨kbody, hk, rfl⟩, hw₁, hw₂, hv, hw', hrest, by simp⟩⟩

theorem array_complete (hitems : ItemsComplete pf fuel)
    (helements : Elements items body) (hdepth : depth ≤ maxDepth) (hstrict : StrictItems depth items)
    (hfuel : body.length + 1 ≤ fuel) (hcs : ∀ c ∈ body ++ 0x5D :: after, IsScalar c) :
    array depth (encodeAll (body ++ 0x5D :: after)) (arrayLoop pf fuel depth []) =
      .ok (.arr (toValues pf items), encodeAll after) := by
  unfold array
  rw [if_neg (by omega)]
  cases items with
  | nil =>
    rw [space_read after helements (by decide)]
    rfl
  | cons t ts =>
    obtain ⟨w, c, more, rfl, hw, helements, hc, hclose⟩ := elements_trim helements
    rw [List.append_assoc] at hcs ⊢
    have hloop := hitems t ts depth [] (c :: more) after helements hstrict (by simp at hfuel ⊢; omega)
      (List.forall_mem_append.1 hcs).2
    rw [List.cons_append] at hloop ⊢
    rw [encodeAll_cons, encode_ascii hc.1, List.singleton_append] at hloop
    rw [space_read _ hw hc]
    split
    · next h => exact absurd (List.cons.inj h).1 hclose
    · exact hloop

theorem object_complete (hmembers : MembersComplete pf fuel)
    (hfields : Fields members body) (hdepth : depth ≤ maxDepth) (hstrict : StrictMembers depth members)
    (hfresh : Fresh pf members []) (hfuel : body.length ≤ fuel) (hcs : ∀ c ∈ body ++ 0x7D :: after, IsScalar c) :
    object depth (encodeAll (body ++ 0x7D :: after)) (objectLoop pf fuel depth []) =
      .ok (.obj (toMembers pf members []), encodeAll after) := by
  unfold object
  rw [if_neg (by omega)]
  cases members with
  | nil =>
    rw [space_read after hfields (by decide)]
    rfl
  | cons m ms =>
    obtain ⟨w, more, rfl, hw, hfields⟩ := fields_trim hfields
    rw [List.append_assoc] at hcs ⊢
    have hloop := hmembers m ms depth [] (0x22 :: more) after hfields hstrict hfresh (by simp at hfuel ⊢; omega)
      (List.forall_mem_append.1 hcs).2
    rw [List.cons_append] at hloop ⊢
    rw [space_read _ hw (by decide)]
    exact hloop

theorem fresh_of_nodup (hnodup : (ms.map Prod.fst).Nodup) : Fresh pf ms [] :=
  (fresh_iff pf).2 ⟨hnodup.map fun _ _ heq => encodeAll_inj heq, fun _ _ => rfl⟩

theorem value_complete_step (hitems : ItemsComplete pf fuel) (hmembers : MembersComplete pf fuel) :
    ValueComplete pf (fuel + 1) := by
  intro t depth text after hspells hstrict hfuel hcs hends
  cases t with
  | null =>
    obtain rfl := hspells
    rfl
  | bool b =>
    cases b with
    | true | false =>
      obtain rfl := hspells
      rfl
  | num n =>
    obtain rfl := hspells
    obtain ⟨c, _, htext, _⟩ := n.head
    have hnumber := number_eq pf (scanNumber_complete hends hstrict.digits)
    rw [encodeAll_front _ n.ascii]
    rw [htext, List.cons_append] at hnumber ⊢
    rw [value, if_neg (by omega), if_neg (by omega), if_neg (by omega), if_pos (by omega), hnumber]
    rfl
  | str s =>
    obtain ⟨_, hmore, hstr⟩ := str_complete hspells (List.forall_mem_append.1 hcs).2
    rw [hmore, encodeAll_cons, encode_ascii (by decide), List.singleton_append]
    simp only [value, hstr]
    rfl
  | arr items =>
    obtain ⟨_, helements, rfl⟩ := hspells
    obtain ⟨hdepth, hstrict⟩ := strict_arr.1 hstrict
    simp only [List.append_assoc] at hcs ⊢
    exact array_complete hitems helements hdepth hstrict (by simp at hfuel; omega) (List.forall_mem_cons.1 hcs).2
  | obj members =>
    obtain ⟨_, hfields, rfl⟩ := hspells
    obtain ⟨hdepth, hnodup, hstrict⟩ := strict_obj.1 hstrict
    simp only [List.append_assoc] at hcs ⊢
    exact object_complete hmembers hfields hdepth hstrict (fresh_of_nodup hnodup) (by simp at hfuel; omega)
      (List.forall_mem_cons.1 hcs).2

/-- Every value of the grammar within the limits is read, given fuel for its characters. -/
theorem reads_complete (pf : ParseFloat) (fuel : ℕ) : ValueComplete pf fuel ∧ ItemsComplete pf fuel ∧ MembersComplete pf fuel := by
  induction fuel with
  | zero =>
    refine ⟨fun t depth text after hspells _ hfuel _ _ => ?_, fun t ts _ _ _ _ _ _ hfuel _ => ?_,
      fun m ms depth result body after hfields _ _ hfuel _ => ?_⟩
    · obtain ⟨c, _, rfl, -⟩ := spells_head hspells
      cases hfuel
    · cases hfuel
    · obtain ⟨w, _, rfl, -⟩ := fields_trim hfields
      simp at hfuel
  | succ fuel ih =>
    obtain ⟨hvalue, hitems, hmembers⟩ := ih
    exact ⟨value_complete_step hitems hmembers, items_complete_step hvalue hitems, members_complete_step hvalue hmembers⟩

/-! ### DecodeJSON -/

/-- One JSON text with different names in every object, within the limits. -/
structure StrictText (raw : List ℕ) (t : Tree) : Prop where
  text : ∃ cs : List ℕ, (∀ c ∈ cs, IsScalar c) ∧ raw = encodeAll cs ∧ JsonText t cs
  distinct : t.All Tree.Distinct
  nesting : t.nesting ≤ 1000
  digits : t.All (Tree.IntegerWithin 4300)

theorem decodeJSON_sound (h : decodeJSON pf raw = .ok v) :
    ∃ t, StrictText raw t ∧ v = toValue pf t := by
  unfold decodeJSON at h
  split_ifs at h with hvalid
  obtain ⟨cs, hcs, rfl⟩ := valid_iff.1 (by simpa using hvalid)
  cases hvalue : value pf (2 * (encodeAll cs).length + 1) 0 (space (encodeAll cs)) with
  | error e => simp [hvalue] at h
  | ok found =>
    obtain ⟨_, _⟩ := found
    simp only [hvalue] at h
    split_ifs at h with hend
    cases h
    obtain ⟨t, w, text, _, rfl, rfl, hw, hspells, rfl, hstrict, hafter⟩ := (reads_sound pf _).1.spaced hcs hvalue
    obtain ⟨w', cs', rfl, hw', -, hspace⟩ := space_sound hafter
    rw [hspace] at hend
    cases cs' with
    | nil => exact ⟨t, ⟨⟨_, hcs, rfl, w, text, w', hw, hspells, hw', by simp⟩, hstrict.distinct, hstrict.nesting, hstrict.digits⟩, rfl⟩
    | cons c cs' => exact absurd (List.append_eq_nil_iff.1 hend).1 (encode_ne_nil c)

theorem length_encodeAll (cs : List ℕ) : cs.length ≤ (encodeAll cs).length := by
  induction cs with
  | nil => exact le_rfl
  | cons c cs ih =>
    have := List.length_pos_iff.2 (encode_ne_nil c)
    rw [encodeAll_cons, List.length_append, List.length_cons]
    omega

theorem decodeJSON_complete (h : StrictText raw t) : decodeJSON pf raw = .ok (toValue pf t) := by
  obtain ⟨⟨_, hcs, rfl, w, v, w', hw, hv, hw', rfl⟩, hdistinct, hnesting, hdigits⟩ := h
  have hvalid : valid (encodeAll (w ++ v ++ w')) = true := valid_iff.2 ⟨_, hcs, rfl⟩
  obtain ⟨c, more, rfl, hc, -⟩ := spells_head hv
  have hspace : space (encodeAll (w ++ c :: more ++ w')) = encodeAll (c :: more ++ w') := by
    rw [List.append_assoc, List.cons_append, space_read _ hw hc, encodeAll_cons, encode_ascii hc.1, List.singleton_append]
  have hlength := length_encodeAll (w ++ c :: more ++ w')
  have hvalue := (reads_complete pf (2 * (encodeAll (w ++ c :: more ++ w')).length + 1)).1 t 0 _ w' hv ⟨hnesting, hdistinct, hdigits⟩
    (by simp at hlength ⊢; omega) (by rw [List.append_assoc] at hcs; exact (List.forall_mem_append.1 hcs).2) (ends_space hw')
  have hend : space (encodeAll w') = [] := by
    rw [encodeAll_ascii fun x hx => isWs_ascii (hw' x hx)]
    exact List.dropWhile_eq_nil_iff.2 hw'
  unfold decodeJSON
  simp only [hvalid, hspace, hvalue, hend, Bool.not_true, Bool.false_eq_true, if_false, if_true]

/-- DecodeJSON accepts exactly the UTF-8 texts of RFC 8259 whose objects have different names,
whose nesting is 1000 levels at most and whose integers have 4300 digits at most. -/
theorem accepts_exactly_strict_json (pf : ParseFloat) (raw : List ℕ) :
    (∃ v, decodeJSON pf raw = .ok v) ↔
      ∃ (cs : List ℕ) (t : Tree), (∀ c ∈ cs, IsScalar c) ∧ raw = encodeAll cs ∧ JsonText t cs ∧ t.All Tree.Distinct ∧
        t.nesting ≤ 1000 ∧ t.All (Tree.IntegerWithin 4300) := by
  constructor
  · rintro ⟨v, h⟩
    obtain ⟨t, ⟨⟨cs, hcs, hraw, htext⟩, hdistinct, hnesting, hdigits⟩, -⟩ := decodeJSON_sound h
    exact ⟨cs, t, hcs, hraw, htext, hdistinct, hnesting, hdigits⟩
  · rintro ⟨cs, t, hcs, hraw, htext, hdistinct, hnesting, hdigits⟩
    exact ⟨toValue pf t, decodeJSON_complete ⟨⟨cs, hcs, hraw, htext⟩, hdistinct, hnesting, hdigits⟩⟩

end Molebridge.Validate
