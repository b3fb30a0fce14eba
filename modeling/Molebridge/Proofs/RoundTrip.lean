import Molebridge.Proofs.Decoded
import Molebridge.Proofs.Written

/-! The JSON codec round-trips: what DecodeJSON returned, MarshalJSON writes, and DecodeJSON
reads it back. -/

namespace Molebridge.Validate

open Utf8 Rfc8259

variable {members : List (List ℕ × Value)} {f : BitVec 64} {s text name : List ℕ} {ms ts : List (List ℕ × Tree)}

/-! ### Values that can be written -/

def IsText (s : List ℕ) : Prop := ∃ cs : List ℕ, (∀ c ∈ cs, IsCodePoint c) ∧ NoPair cs ∧ s = encodeAll cs

mutual

/-- The value can be written at the depth, and reads back. -/
def Value.Writable : Value → ℕ → Prop
  | .int n, _ => n.natAbs < 10 ^ maxIntDigits
  | .float f, _ => isFinite f = true
  | .str s, _ => IsText s
  | .arr items, depth => depth + 1 ≤ maxDepth ∧ WritableItems items (depth + 1)
  | .obj members, depth => depth + 1 ≤ maxDepth ∧ Sorted members ∧ WritableMembers members (depth + 1)
  | _, _ => True

def WritableItems : List Value → ℕ → Prop
  | [], _ => True
  | v :: vs, depth => v.Writable depth ∧ WritableItems vs depth

def WritableMembers : List (List ℕ × Value) → ℕ → Prop
  | [], _ => True
  | (k, v) :: ms, depth => (IsText k ∧ v.Writable depth) ∧ WritableMembers ms depth

end

variable {depth : ℕ}

theorem writableMembers_iff :
    WritableMembers members depth ↔ ∀ m ∈ members, IsText m.1 ∧ m.2.Writable depth := by
  induction members with
  | nil => simp [WritableMembers]
  | cons m ms ih =>
    rw [List.forall_mem_cons, ← ih]
    rfl

def isInf (f : BitVec 64) : Bool := f &&& 0x7fffffffffffffff == 0x7ff0000000000000

mutual

def Value.NoInf : Value → Prop
  | .float f => isInf f = false
  | .arr items => NoInfItems items
  | .obj members => NoInfMembers members
  | _ => True

def NoInfItems : List Value → Prop
  | [] => True
  | v :: vs => v.NoInf ∧ NoInfItems vs

def NoInfMembers : List (List ℕ × Value) → Prop
  | [] => True
  | (_, v) :: ms => v.NoInf ∧ NoInfMembers ms

end

theorem noInfMembers_iff : NoInfMembers members ↔ ∀ m ∈ members, m.2.NoInf := by
  induction members with
  | nil => simp [NoInfMembers]
  | cons m ms ih =>
    rw [List.forall_mem_cons, ← ih]
    rfl

theorem isFinite_of (hnan : isNaN f = false) (hinf : isInf f = false) : isFinite f = true := by
  simp only [isNaN, isInf, isFinite, decide_eq_false_iff_not, decide_eq_true_eq, beq_eq_false_iff_ne, ne_eq, BitVec.lt_def,
    ← BitVec.toNat_inj] at *
  omega

variable (pf : ParseFloat)

/-! ### What was decoded can be written -/

theorem quoted_isText (h : Quoted s text) : IsText (encodeAll s) := by
  obtain ⟨_, hchars, -⟩ := h
  exact ⟨s, hchars.codePoint, hchars.noPair, rfl⟩

theorem number_writable {n : Number} (hsize : n.isInteger = true → n.int.length ≤ maxIntDigits)
    (hinf : (numberValue pf n).NoInf) : (numberValue pf n).Writable depth := by
  unfold numberValue at hinf ⊢
  cases hn : n.isInteger with
  | true =>
    have hdigits : ∀ c ∈ n.int, Rfc8259.isDigit c = true := by
      rcases n.isInt with h | h
      · rw [h]
        decide
      · exact h.1.2
    have hlt : digitsValue n.int < 10 ^ maxIntDigits :=
      (digitsValue_lt hdigits).trans_le (Nat.pow_le_pow_right (by decide) (hsize hn))
    have hsigned : (signed n).natAbs = digitsValue n.int := by
      unfold signed
      rw [show natOfDigits = digitsValue from rfl]
      split_ifs <;> simp
    simp only [if_true, Value.Writable, hsigned]
    exact hlt
  | false =>
    obtain ⟨f, hparse, hnan⟩ := pf.accepts n hn
    simp only [hn, hparse] at hinf ⊢
    exact isFinite_of hnan hinf

variable {result : List (List ℕ × Value)}

theorem mem_toMembers (hfresh : Fresh pf ms result)
    {m : List ℕ × Value} (hm : m ∈ result) : m ∈ toMembers pf ms result := by
  induction ms generalizing result with
  | nil => exact hm
  | cons first ms ih =>
    exact ih hfresh.2 ((mem_setKey hfresh.1 m).2 (.inr hm))

theorem setKey_writable {v : Value} (hname : hasKey name result = false)
    (htext : IsText name) (hv : v.Writable depth) (hresult : WritableMembers result depth) :
    WritableMembers (setKey name v result) depth := by
  rw [writableMembers_iff] at hresult ⊢
  intro m hm
  rcases (mem_setKey hname m).1 hm with rfl | hm
  · exact ⟨htext, hv⟩
  · exact hresult m hm

theorem noInf_next {k : List ℕ} {t : Tree}
    (hfresh : Fresh pf ((k, t) :: ms) result) (hinf : NoInfMembers (toMembers pf ((k, t) :: ms) result)) : (toValue pf t).NoInf :=
  noInfMembers_iff.1 hinf (encodeAll k, toValue pf t) (mem_toMembers pf hfresh.2 ((mem_setKey hfresh.1 _).2 (.inl rfl)))

mutual

theorem tree_writable : ∀ (t : Tree) (text : List ℕ) (depth : ℕ), Spells t text → Strict depth t → (toValue pf t).NoInf →
    (toValue pf t).Writable depth
  | .null, _, _, _, _, _ => trivial
  | .bool _, _, _, _, _, _ => trivial
  | .num _, _, _, _, hstrict, hinf => number_writable pf hstrict.digits hinf
  | .str _, _, _, hspells, _, _ => quoted_isText hspells
  | .arr items, _, depth, hspells, hstrict, hinf => by
    obtain ⟨body, helements, -⟩ := hspells
    obtain ⟨hdepth, hstrict⟩ := strict_arr.1 hstrict
    exact ⟨hdepth, items_writable items body (depth + 1) helements hstrict hinf⟩
  | .obj members, _, depth, hspells, hstrict, hinf => by
    obtain ⟨body, hfields, -⟩ := hspells
    obtain ⟨hdepth, hnodup, hstrict⟩ := strict_obj.1 hstrict
    have hmembers := members_writable members body (depth + 1) [] hfields hstrict (fresh_of_nodup hnodup) hinf trivial .nil
    exact ⟨hdepth, hmembers.2, hmembers.1⟩

theorem items_writable : ∀ (ts : List Tree) (body : List ℕ) (depth : ℕ), Elements ts body → StrictItems depth ts →
    NoInfItems (toValues pf ts) → WritableItems (toValues pf ts) depth
  | [], _, _, _, _, _ => trivial
  | [t], _, depth, helements, hstrict, hinf => by
    obtain ⟨w, v, w', -, hv, -, -⟩ := helements
    exact ⟨tree_writable t v depth hv (strictItems_cons.1 hstrict).1 hinf.1, trivial⟩
  | t :: t' :: ts, _, depth, helements, hstrict, hinf => by
    obtain ⟨w, v, w', rest, -, hv, -, hrest, -⟩ := helements
    obtain ⟨ht, hts⟩ := strictItems_cons.1 hstrict
    exact ⟨tree_writable t v depth hv ht hinf.1, items_writable (t' :: ts) rest depth hrest hts hinf.2⟩

theorem members_writable : ∀ (ms : List (List ℕ × Tree)) (body : List ℕ) (depth : ℕ) (result : List (List ℕ × Value)),
    Fields ms body → StrictMembers depth ms → Fresh pf ms result → NoInfMembers (toMembers pf ms result) →
    WritableMembers result depth → Sorted result →
    WritableMembers (toMembers pf ms result) depth ∧ Sorted (toMembers pf ms result)
  | [], _, _, _, _, _, _, _, hwritable, hsorted => ⟨hwritable, hsorted⟩
  | [(k, t)], _, depth, result, hfields, hstrict, hfresh, hinf, hwritable, hsorted => by
    obtain ⟨w, key, w₁, w₂, v, w', -, hkey, -, -, hv, -, -⟩ := hfields
    have ht := tree_writable t v depth hv (strictMembers_cons.1 hstrict).1 (noInf_next pf hfresh hinf)
    exact ⟨setKey_writable hfresh.1 (quoted_isText hkey) ht hwritable, sorted_setKey hfresh.1 hsorted⟩
  | (k, t) :: m :: ms, _, depth, result, hfields, hstrict, hfresh, hinf, hwritable, hsorted => by
    obtain ⟨w, key, w₁, w₂, v, w', rest, -, hkey, -, -, hv, -, hrest, -⟩ := hfields
    obtain ⟨hstrict, hstricts⟩ := strictMembers_cons.1 hstrict
    have ht := tree_writable t v depth hv hstrict (noInf_next pf hfresh hinf)
    exact members_writable (m :: ms) rest depth _ hrest hstricts hfresh.2 hinf
      (setKey_writable hfresh.1 (quoted_isText hkey) ht hwritable) (sorted_setKey hfresh.1 hsorted)

end

/-! ### What can be written reads back -/

theorem hexChar_ascii {d : ℕ} (h : d < 16) : hexChar d < 0x80 := by
  unfold hexChar
  split_ifs <;> omega

theorem u4_ascii (r : ℕ) : ∀ c ∈ u4 r, c < 0x80 :=
  escape_front_ascii ⟨hexChar_ascii (by omega), hexChar_ascii (by omega), hexChar_ascii (by omega), hexChar_ascii (by omega)⟩

theorem charText_ascii (c : ℕ) : ∀ x ∈ charText c, x < 0x80 := by
  unfold charText
  split_ifs with hascii
  · rcases asciiText_cases hascii with ⟨e, hshort, htext⟩ | htext | ⟨-, htext⟩
    · rw [htext]
      exact List.forall_mem_cons.2 ⟨by decide, List.forall_mem_singleton.2 (shortEscape_ascii hshort)⟩
    · rw [htext]
      exact u4_ascii c
    · rw [htext]
      exact List.forall_mem_singleton.2 hascii
  · unfold runeText
    split_ifs
    · exact List.forall_mem_append.2 ⟨u4_ascii _, u4_ascii _⟩
    · exact u4_ascii c

variable (sc : Strconv)

/-- What is written is a value of the grammar, in ASCII, and stands for this value. -/
def WrittenAs (depth : ℕ) (v : Value) (out : Except EncodeError (List ℕ)) : Prop :=
  ∃ t text, out = .ok text ∧ Spells t text ∧ toValue sc.toParseFloat t = v ∧ Strict depth t ∧ ∀ c ∈ text, c < 0x80

def ItemsWritten (depth : ℕ) (vs : List Value) (out : Except EncodeError (List ℕ)) : Prop :=
  ∃ ts text, out = .ok text ∧ Elements ts text ∧ toValues sc.toParseFloat ts = vs ∧ StrictItems depth ts ∧ ∀ c ∈ text, c < 0x80

def SameMember (m : List ℕ × Tree) (m' : List ℕ × Value) : Prop :=
  encodeAll m.1 = m'.1 ∧ toValue sc.toParseFloat m.2 = m'.2

def MembersWritten (depth : ℕ) (ms : List (List ℕ × Value)) (out : Except EncodeError (List ℕ)) : Prop :=
  ∃ ts text, out = .ok text ∧ Fields ts text ∧ List.Forall₂ (SameMember sc) ts ms ∧ StrictMembers depth ts ∧ ∀ c ∈ text, c < 0x80

variable {sc}

theorem str_written (h : IsText s) : ∃ k text, encodeStr s = .ok text ∧ Quoted k text ∧ s = encodeAll k ∧ ∀ c ∈ text, c < 0x80 := by
  obtain ⟨cs, hcs, hpair, rfl⟩ := h
  refine ⟨cs, 0x22 :: cs.flatMap charText ++ [0x22], ?_, ⟨_, chars_flatMap hcs hpair, rfl⟩, rfl, ?_⟩
  · unfold encodeStr
    rw [strLoop_encodeAll hcs le_rfl]
  · intro c hc
    simp only [List.cons_append, List.mem_cons, List.mem_append, List.mem_flatMap, List.not_mem_nil, or_false] at hc
    rcases hc with rfl | ⟨d, -, hc⟩ | rfl
    · decide
    · exact charText_ascii d c hc
    · decide

theorem atDepth_of_le (out : Except EncodeError (List ℕ)) (h : depth ≤ maxDepth) : atDepth depth out = out := if_neg (by omega)

theorem between_ascii {first last : ℕ} (h : first < 0x80 ∧ last < 0x80) (hascii : ∀ c ∈ text, c < 0x80) :
    ∀ c ∈ first :: text ++ [last], c < 0x80 :=
  List.forall_mem_append.2 ⟨List.forall_mem_cons.2 ⟨h.1, hascii⟩, List.forall_mem_singleton.2 h.2⟩

theorem setKey_last {v : Value} (h : ∀ m ∈ result, m.1 < name) :
    setKey name v result = result ++ [(name, v)] := by
  induction result with
  | nil => rfl
  | cons first result ih =>
    obtain ⟨hk, hrest⟩ := List.forall_mem_cons.1 h
    simp [setKey, if_neg (not_lt.2 hk.le), if_neg hk.ne', ih hrest]

theorem toMembers_sorted {ms : List (List ℕ × Value)} (h : List.Forall₂ (SameMember sc) ts ms)
    (hsorted : Sorted (result ++ ms)) : toMembers sc.toParseFloat ts result = result ++ ms := by
  induction h generalizing result with
  | nil => simp [toMembers]
  | @cons t m ts ms hsame _ ih =>
    obtain ⟨k, t⟩ := t
    obtain ⟨_, v⟩ := m
    obtain ⟨rfl, rfl⟩ : encodeAll k = _ ∧ toValue sc.toParseFloat t = v := hsame
    have hlast : ∀ m ∈ result, m.1 < encodeAll k := fun m hm =>
      (List.pairwise_append.1 hsorted).2.2 m hm _ (.head _)
    rw [toMembers, setKey_last hlast, ih (by rwa [List.append_assoc, List.singleton_append]), List.append_assoc,
      List.singleton_append]

theorem names_nodup {ms : List (List ℕ × Value)} (h : List.Forall₂ (SameMember sc) ts ms)
    (hsorted : Sorted ms) : (ts.map Prod.fst).Nodup := by
  have hnames : (ts.map Prod.fst).map encodeAll = ms.map Prod.fst := by
    induction h with
    | nil => rfl
    | cons hsame _ ih =>
      rw [List.map_cons, List.map_cons, List.map_cons, hsame.1, ih (List.pairwise_cons.1 hsorted).2]
  refine List.Nodup.of_map encodeAll ?_
  rw [hnames]
  exact List.pairwise_map.2 (hsorted.imp fun h => h.ne)

mutual

theorem value_written : ∀ (v : Value) (depth : ℕ), depth ≤ maxDepth → v.Writable depth → WrittenAs sc depth v (encodeValue sc v depth)
  | .null, depth, hdepth, _ => by
    rw [encodeValue, atDepth_of_le _ hdepth]
    exact ⟨.null, nullText, rfl, rfl, rfl, ⟨Nat.zero_le _, trivial, trivial⟩, by decide⟩
  | .bool true, depth, hdepth, _ => by
    rw [encodeValue, atDepth_of_le _ hdepth]
    exact ⟨.bool true, trueText, rfl, rfl, rfl, ⟨Nat.zero_le _, trivial, trivial⟩, by decide⟩
  | .bool false, depth, hdepth, _ => by
    rw [encodeValue, atDepth_of_le _ hdepth]
    exact ⟨.bool false, falseText, rfl, rfl, rfl, ⟨Nat.zero_le _, trivial, trivial⟩, by decide⟩
  | .int n, depth, hdepth, hn => by
    rw [encodeValue, atDepth_of_le _ hdepth, ← intNumber_text]
    exact ⟨.num (intNumber n), (intNumber n).text, rfl, rfl, intNumber_value _ n,
      ⟨Nat.zero_le _, trivial, fun _ => natText_length (by decide) hn⟩, (intNumber n).ascii⟩
  | .float f, depth, hdepth, hf => by
    have hfinite : isFinite f = true := hf
    obtain ⟨n, htext, hvalue⟩ := formatFloat_number sc hfinite
    rw [encodeValue, atDepth_of_le _ hdepth, if_pos hfinite, ← htext]
    have hinteger : n.isInteger = true → n.int.length ≤ maxIntDigits := by
      intro h
      rw [numberValue, if_pos h] at hvalue
      exact nomatch hvalue
    exact ⟨.num n, n.text, rfl, rfl, hvalue, ⟨Nat.zero_le _, trivial, hinteger⟩, n.ascii⟩
  | .str s, depth, hdepth, hs => by
    obtain ⟨k, text, hout, hquoted, rfl, hascii⟩ := str_written hs
    rw [encodeValue, atDepth_of_le _ hdepth, hout]
    exact ⟨.str k, text, rfl, hquoted, rfl, ⟨Nat.zero_le _, trivial, trivial⟩, hascii⟩
  | .arr items, depth, hdepth, ⟨hdeeper, hitems⟩ => by
    obtain ⟨ts, text, hout, helements, rfl, hstrict, hascii⟩ := items_written items (depth + 1) hdeeper hitems
    rw [encodeValue, atDepth_of_le _ hdepth, hout]
    exact ⟨.arr ts, 0x5B :: text ++ [0x5D], rfl, ⟨text, helements, rfl⟩, rfl, strict_arr.2 ⟨hdeeper, hstrict⟩,
      between_ascii (by decide) hascii⟩
  | .obj members, depth, hdepth, ⟨hdeeper, hsorted, hmembers⟩ => by
    obtain ⟨ts, text, hout, hfields, hsame, hstrict, hascii⟩ := members_written members (depth + 1) hdeeper hmembers
    rw [encodeValue, atDepth_of_le _ hdepth, hout]
    refine ⟨.obj ts, 0x7B :: text ++ [0x7D], rfl, ⟨text, hfields, rfl⟩, ?_, strict_obj.2 ⟨hdeeper, names_nodup hsame hsorted, hstrict⟩,
      between_ascii (by decide) hascii⟩
    rw [toValue, toMembers_sorted hsame (by exact hsorted : Sorted ([] ++ members)), List.nil_append]

theorem items_written : ∀ (vs : List Value) (depth : ℕ), depth ≤ maxDepth → WritableItems vs depth →
    ItemsWritten sc depth vs (encodeItems sc vs depth)
  | [], depth, _, _ => ⟨[], [], by rw [encodeItems], isWs_nil, rfl, strictItems_nil depth, fun _ h => nomatch h⟩
  | [v], depth, hdepth, ⟨hv, _⟩ => by
    obtain ⟨t, text, hout, hspells, rfl, hstrict, hascii⟩ := value_written v depth hdepth hv
    rw [encodeItems, hout]
    exact ⟨[t], text, rfl, ⟨[], text, [], isWs_nil, hspells, isWs_nil, by simp⟩, rfl,
      strictItems_cons.2 ⟨hstrict, strictItems_nil depth⟩, hascii⟩
  | v :: v' :: vs, depth, hdepth, ⟨hv, hvs⟩ => by
    obtain ⟨t, text, hout, hspells, rfl, hstrict, hascii⟩ := value_written v depth hdepth hv
    obtain ⟨ts, rest, hrest, helements, hvalues, hstricts, hasciis⟩ := items_written (v' :: vs) depth hdepth hvs
    rw [encodeItems, hout, hrest]
    cases ts with
    | nil => exact nomatch hvalues
    | cons t' ts =>
      have hspace : Elements (t' :: ts) ([0x20] ++ rest) := elements_space isWs_blank helements
      refine ⟨t :: t' :: ts, text ++ 0x2C :: 0x20 :: rest, rfl, ⟨[], text, [], 0x20 :: rest, isWs_nil, hspells,
        isWs_nil, hspace, by simp⟩, ?_, strictItems_cons.2 ⟨hstrict, hstricts⟩, ?_⟩
      · rw [toValues, hvalues]
      · exact List.forall_mem_append.2 ⟨hascii, List.forall_mem_cons.2 ⟨by decide, List.forall_mem_cons.2 ⟨by decide, hasciis⟩⟩⟩

theorem members_written : ∀ (ms : List (List ℕ × Value)) (depth : ℕ), depth ≤ maxDepth → WritableMembers ms depth →
    MembersWritten sc depth ms (encodeMembers sc ms depth)
  | [], depth, _, _ => ⟨[], [], by rw [encodeMembers], isWs_nil, .nil, strictMembers_nil depth, fun _ h => nomatch h⟩
  | [(name, v)], depth, hdepth, ⟨⟨hname, hv⟩, _⟩ => by
    obtain ⟨k, key, hkey, hquoted, rfl, hkascii⟩ := str_written hname
    obtain ⟨t, text, hout, hspells, rfl, hstrict, hascii⟩ := value_written v depth hdepth hv
    rw [encodeMembers, hkey, hout]
    refine ⟨[(k, t)], key ++ 0x3A :: 0x20 :: text, rfl, ⟨[], key, [], [0x20], text, [], isWs_nil, hquoted,
      isWs_nil, isWs_blank, hspells, isWs_nil, by simp⟩, .cons ⟨rfl, rfl⟩ .nil,
      strictMembers_cons.2 ⟨hstrict, strictMembers_nil depth⟩, ?_⟩
    exact List.forall_mem_append.2 ⟨hkascii, List.forall_mem_cons.2 ⟨by decide, List.forall_mem_cons.2 ⟨by decide, hascii⟩⟩⟩
  | (name, v) :: m :: ms, depth, hdepth, ⟨⟨hname, hv⟩, hms⟩ => by
    obtain ⟨k, key, hkey, hquoted, rfl, hkascii⟩ := str_written hname
    obtain ⟨t, text, hout, hspells, rfl, hstrict, hascii⟩ := value_written v depth hdepth hv
    obtain ⟨ts, rest, hrest, hfields, hsame, hstricts, hasciis⟩ := members_written (m :: ms) depth hdepth hms
    rw [encodeMembers, hkey, hout, hrest]
    cases ts with
    | nil => exact nomatch hsame
    | cons t' ts =>
      have hspace : Fields (t' :: ts) ([0x20] ++ rest) := fields_space isWs_blank hfields
      refine ⟨(k, t) :: t' :: ts, key ++ 0x3A :: 0x20 :: text ++ 0x2C :: 0x20 :: rest, rfl, ⟨[], key, [], [0x20], text, [],
        0x20 :: rest, isWs_nil, hquoted, isWs_nil, isWs_blank, hspells, isWs_nil, hspace,
        by simp⟩, .cons ⟨rfl, rfl⟩ hsame, strictMembers_cons.2 ⟨hstrict, hstricts⟩, ?_⟩
      exact List.forall_mem_append.2 ⟨List.forall_mem_append.2 ⟨hkascii,
        List.forall_mem_cons.2 ⟨by decide, List.forall_mem_cons.2 ⟨by decide, hascii⟩⟩⟩,
        List.forall_mem_cons.2 ⟨by decide, List.forall_mem_cons.2 ⟨by decide, hasciis⟩⟩⟩

end

/-! ### Such floats are there -/

theorem exp_unique {e e' : Exp} (h : e.text = e'.text) : e.value = e'.value := by
  have hrest : e.sign ++ (e.digits ++ []) = e'.sign ++ (e'.digits ++ []) := by simpa using (List.cons.inj h).2
  have hsign := scanExpSign_complete e []
  rw [hrest, scanExpSign_complete e'] at hsign
  obtain ⟨hsign, hdigits⟩ := Prod.mk.inj hsign
  simp only [List.append_nil] at hdigits
  rw [Exp.value, Exp.value, hsign, hdigits]

theorem number_unique {n m : Number} (h : n.text = m.text) : n.neg = m.neg ∧ n.magnitude = m.magnitude := by
  have hends : Ends [] := fun _ h => nomatch h
  have htext (n : Number) : n.text = n.signText ++ (n.int ++ (n.fracText ++ (n.expText ++ []))) := by
    simp [Number.text]
  have hsign := scanSign_complete (n := n) (n.fracText ++ (n.expText ++ []))
  rw [← htext n, h, htext m, scanSign_complete] at hsign
  obtain ⟨hsign, hafter⟩ := Prod.mk.inj hsign
  have hint := scanInt_complete (n := n) (fracText_head n hends)
  rw [← hafter, scanInt_complete (fracText_head m hends)] at hint
  obtain ⟨hint, hafter⟩ := Prod.mk.inj (Except.ok.inj hint)
  have hfrac := scanFrac_complete (n := n) (expText_head n hends)
  rw [← hafter, scanFrac_complete (expText_head m hends)] at hfrac
  obtain ⟨hfrac, hafter⟩ := Prod.mk.inj hfrac
  have hfrac : m.frac.getD [] = n.frac.getD [] := by
    unfold Number.fracText at hfrac
    cases hm : m.frac <;> cases hn : n.frac <;> simp_all
  have hexp : m.exp.elim 0 Exp.value = n.exp.elim 0 Exp.value := by
    unfold Number.expText at hafter
    cases hm : m.exp with
    | none =>
      cases hn : n.exp with
      | none => rfl
      | some e => simp [hm, hn, Exp.text] at hafter
    | some e =>
      cases hn : n.exp with
      | none => simp [hm, hn, Exp.text] at hafter
      | some e' => exact exp_unique (by simpa [hm, hn] using hafter)
  constructor
  · unfold Number.signText at hsign
    cases hm : m.neg <;> cases hn : n.neg <;> simp_all
  · unfold Number.magnitude
    rw [hint, hfrac, hexp]

/-- A sign and a magnitude as the bits of a float: here the magnitude is the number of the
float in the order of the floats. -/
def bitsOf (neg : Bool) (q : ℚ) : BitVec 64 :=
  BitVec.ofNat 64 ((if neg then 2 ^ 63 else 0) + if q.den = 1 ∧ q.num.toNat < 0x7ff0000000000000 then q.num.toNat else 0x7ff0000000000000)

open Classical in
noncomputable def parseOrdinal (text : List ℕ) : Option (BitVec 64) :=
  if h : ∃ n : Number, n.text = text then some (bitsOf h.choose.neg h.choose.magnitude) else none

theorem parseOrdinal_text (n : Number) : parseOrdinal n.text = some (bitsOf n.neg n.magnitude) := by
  have h : ∃ m : Number, m.text = n.text := ⟨n, rfl⟩
  obtain ⟨hneg, hmagnitude⟩ := number_unique h.choose_spec
  rw [parseOrdinal, dif_pos h, hneg, hmagnitude]

def ordinal (f : BitVec 64) : Shortest :=
  if h : f.toNat % 2 ^ 63 = 0 then ⟨signbit f, [0x31], 0, ⟨by decide, by decide⟩, by decide⟩
  else ⟨signbit f, natText (f.toNat % 2 ^ 63), (natText (f.toNat % 2 ^ 63)).length - 1, natText_isDigits _, by
    rcases natText_isInt (f.toNat % 2 ^ 63) with hzero | hint
    · have := natText_value (f.toNat % 2 ^ 63)
      rw [hzero] at this
      exact absurd this.symm h
    · exact hint.2⟩

theorem bitsOf_nat (neg : Bool) {k : ℕ} (hk : k < 0x7ff0000000000000) : (bitsOf neg k).toNat = (if neg then 2 ^ 63 else 0) + k := by
  have hcond : ((k : ℚ).den = 1 ∧ (k : ℚ).num.toNat < 0x7ff0000000000000) := ⟨Rat.den_natCast k, by simpa using hk⟩
  unfold bitsOf
  rw [if_pos hcond, BitVec.toNat_ofNat, Rat.num_natCast, Int.toNat_natCast]
  split_ifs <;> omega

theorem bitsOf_magnitude (neg : Bool) (q : ℚ) : (bitsOf neg q).toNat % 2 ^ 63 ≤ 0x7ff0000000000000 := by
  unfold bitsOf
  rw [BitVec.toNat_ofNat]
  split_ifs <;> omega

theorem toNat_signbit (f : BitVec 64) : f.toNat = (if signbit f then 2 ^ 63 else 0) + f.toNat % 2 ^ 63 := by
  unfold signbit
  rw [BitVec.msb_eq_decide]
  simp only [decide_eq_true_eq]
  split_ifs <;> omega

theorem ordinal_magnitude (h : f.toNat % 2 ^ 63 ≠ 0) : (ordinal f).magnitude = (f.toNat % 2 ^ 63 : ℕ) := by
  rw [ordinal, dif_neg h, Shortest.magnitude]
  simp only [natText_value]
  have hexp : ((natText (f.toNat % 2 ^ 63)).length : ℤ) - 1 + 1 - (natText (f.toNat % 2 ^ 63)).length = 0 := by omega
  rw [hexp, zpow_zero, mul_one]

theorem ordinal_neg (f : BitVec 64) : (ordinal f).neg = signbit f := by
  unfold ordinal
  split_ifs <;> rfl

/-- Floats whose shortest text is their number among the floats. -/
noncomputable def ordinalStrconv : Strconv where
  parse := parseOrdinal
  accepts n _ := by
    refine ⟨_, parseOrdinal_text n, ?_⟩
    rw [isNaN, decide_eq_false_iff_not, BitVec.lt_def, toNat_magnitude]
    exact not_lt.2 (bitsOf_magnitude n.neg n.magnitude)
  shortest := ordinal
  reads f hfinite hzero n _ hneg hmagnitude := by
    have hne : f.toNat % 2 ^ 63 ≠ 0 := by
      intro h
      rw [isZero, beq_eq_false_iff_ne] at hzero
      exact hzero (BitVec.eq_of_toNat_eq ((toNat_magnitude f).trans h))
    have hlt : f.toNat % 2 ^ 63 < 0x7ff0000000000000 := by
      rw [isFinite, decide_eq_true_eq, BitVec.lt_def, toNat_magnitude] at hfinite
      exact hfinite
    rw [parseOrdinal_text, hneg, hmagnitude, ordinal_magnitude hne, ordinal_neg, Option.some_inj]
    exact BitVec.eq_of_toNat_eq ((bitsOf_nat _ hlt).trans (toNat_signbit f).symm)
  zero n _ hmagnitude := by
    rw [parseOrdinal_text, hmagnitude, Option.some_inj]
    apply BitVec.eq_of_toNat_eq
    have := bitsOf_nat n.neg (k := 0) (by decide)
    rw [Nat.cast_zero] at this
    rw [this]
    split_ifs <;> rfl

/-- What DecodeJSON returned and holds no infinity, MarshalJSON writes so that DecodeJSON
returns it again. -/
theorem codec_round_trips (sc : Strconv) (raw : List ℕ) (v : Value) (h : decodeJSON sc.toParseFloat raw = .ok v) (hinf : v.NoInf) :
    ∃ text, marshalJSON sc v = .ok text ∧ decodeJSON sc.toParseFloat text = .ok v := by
  obtain ⟨t, ⟨⟨cs, -, -, w, body, w', -, hspells, -, -⟩, hdistinct, hnesting, hdigits⟩, rfl⟩ := decodeJSON_sound h
  have hwritable := tree_writable sc.toParseFloat t body 0 hspells ⟨hnesting, hdistinct, hdigits⟩ hinf
  obtain ⟨t', text, hout, hspells', hvalue, hstrict, hascii⟩ :=
    (value_written _ 0 (Nat.zero_le _) hwritable : WrittenAs sc 0 _ _)
  refine ⟨text, hout, ?_⟩
  have htext : StrictText text t' := by
    refine ⟨⟨text, fun c hc => isScalar_of_ascii (hascii c hc), (encodeAll_ascii hascii).symm, [], text, [], isWs_nil,
      hspells', isWs_nil, by simp⟩, hstrict.distinct, hstrict.nesting, hstrict.digits⟩
  rw [decodeJSON_complete htext, hvalue]

theorem codec_round_trips_surrogate :
    ∃ text, marshalJSON ordinalStrconv (.obj [([0x61], .arr [.int 1, .str [0xED, 0xA0, 0x80]])]) = .ok text ∧
      decodeJSON ordinalStrconv.toParseFloat text = .ok (.obj [([0x61], .arr [.int 1, .str [0xED, 0xA0, 0x80]])]) :=
  codec_round_trips ordinalStrconv
    [0x7B, 0x22, 0x61, 0x22, 0x3A, 0x5B, 0x31, 0x2C, 0x22, 0x5C, 0x75, 0x44, 0x38, 0x30, 0x30, 0x22, 0x5D, 0x7D] _ rfl
    ⟨⟨trivial, trivial, trivial⟩, trivial⟩

end Molebridge.Validate
