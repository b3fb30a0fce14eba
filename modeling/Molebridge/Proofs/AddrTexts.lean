import Mathlib.Data.List.TakeWhile
import Mathlib.Tactic
import Molebridge.Spec.TunnelConf

/-! The texts of addresses: the exit's validator reads back what Addr.String writes, unless it is
an IPv6 address that maps an IPv4 one. -/

namespace Molebridge.TunnelConf

open Text Addr

/-! IPv4 -/

theorem ofDigitChars_cons (c : Char) (rest : List Char) (acc : ℕ) :
    Nat.ofDigitChars 10 (c :: rest) acc = Nat.ofDigitChars 10 rest (10 * acc + (c.toNat - '0'.toNat)) := by
  rfl

theorem le_ofDigitChars (rest : List Char) (acc : ℕ) :
    acc * 10 ^ rest.length ≤ Nat.ofDigitChars 10 rest acc := by
  induction rest generalizing acc with
  | nil => simp
  | cons c rest ih =>
    calc acc * 10 ^ (c :: rest).length = (10 * acc) * 10 ^ rest.length := by
          rw [List.length_cons, pow_succ]; ring
      _ ≤ (10 * acc + (c.toNat - '0'.toNat)) * 10 ^ rest.length := by gcongr; omega
      _ ≤ _ := ih _

theorem isDigit_iff (c : Char) : c.isDigit = true ↔ '0' ≤ c ∧ c ≤ '9' := by
  simp [Char.isDigit, Char.le_def]

theorem all_digits_iff (p : List Char) :
    p.all (fun c => '0' ≤ c && c ≤ '9') = p.all Char.isDigit := by
  refine congrArg (fun f => p.all f) (funext fun c => ?_)
  rw [Bool.eq_iff_iff, isDigit_iff]
  simp

variable {p s : List Char} {a : Addr} {c : Char}

theorem length_le_of_value (hd : ∀ c ∈ p, c.isDigit = true) (hz : p.head? ≠ some '0')
    {k : ℕ} (h : Nat.ofDigitChars 10 p 0 < 10 ^ k) : p.length ≤ k := by
  cases p with
  | nil => exact Nat.zero_le _
  | cons c rest =>
    have hc := (isDigit_iff c).1 (hd c (.head _))
    have hone : 1 ≤ c.toNat - '0'.toNat := by
      have hne : c ≠ '0' := by simpa using hz
      have h0 : '0'.toNat ≤ c.toNat := hc.1
      have hne' : c.toNat ≠ '0'.toNat := fun h => hne (Char.toNat_inj.1 h)
      omega
    have hle := le_ofDigitChars rest (c.toNat - '0'.toNat)
    rw [ofDigitChars_cons, Nat.mul_zero, Nat.zero_add] at h
    have hpow : 10 ^ rest.length < 10 ^ k :=
      lt_of_le_of_lt ((Nat.le_mul_of_pos_left _ hone).trans hle) h
    exact (Nat.pow_lt_pow_iff_right (by decide)).1 hpow

theorem head_bounds (hne : p ≠ []) (hd : ∀ c ∈ p, c.isDigit = true)
    (hz : p.head? ≠ some '0') : p.headD ' ' ≥ '1' ∧ p.headD ' ' ≤ '9' := by
  cases p with
  | nil => exact absurd rfl hne
  | cons c rest =>
    have hc := (isDigit_iff c).1 (hd c (.head _))
    refine ⟨?_, hc.2⟩
    have hne' : c.toNat ≠ '0'.toNat := fun h => hz (by rw [Char.toNat_inj.1 h]; rfl)
    have h0 : '0'.toNat ≤ c.toNat := hc.1
    have h1 : '1'.toNat ≤ c.toNat := by
      have : '0'.toNat = 48 := rfl
      have : '1'.toNat = 49 := rfl
      omega
    exact h1

theorem v4Part_of_octet {n : ℕ} (h : octet p = some n) : v4Part p = some n := by
  unfold octet at h
  split_ifs at h with hbad hle
  simp only [not_or, Bool.not_eq_true', Bool.not_eq_false, not_and] at hbad
  obtain ⟨hne, hall, hzero⟩ := hbad
  cases h
  have hd : ∀ c ∈ p, c.isDigit = true := List.all_eq_true.1 hall
  have hform : p = ['0'] ∨ (p.headD ' ' ≥ '1' ∧ p.headD ' ' ≤ '9') ∧ p.length ≤ 3 := by
    by_cases hz : p.head? = some '0'
    · have hlen := hzero hz
      cases p with
      | nil => cases hz
      | cons c rest =>
        have hc : c = '0' := by simpa using hz
        have hrest : rest = [] := List.eq_nil_of_length_eq_zero (by simpa using hlen)
        exact .inl (by rw [hc, hrest])
    · exact .inr ⟨head_bounds hne hd hz, length_le_of_value hd hz (by omega)⟩
  have hok : (p = ['0'] || (p ≠ [] && (p.headD ' ' ≥ '1' && p.headD ' ' ≤ '9') && p.length ≤ 3)) = true := by
    rcases hform with rfl | ⟨⟨h1, h9⟩, hlen⟩
    · rfl
    · rw [List.headD_eq_head?_getD] at h1 h9
      simp [hne, h1.le, h9, hlen]
  rw [v4Part, hok, all_digits_iff, hall]
  simp only [Bool.not_true, Bool.false_eq_true, if_false]
  rw [if_neg (by omega)]

theorem v4_of_parseIPv4 (h : parseIPv4 s = some a) : v4 s = some a := by
  unfold parseIPv4 at h
  unfold v4
  split at h
  · rename_i p q r t hs
    split at h
    · rename_i x y z w hx hy hz hw
      simp only [*, v4Part_of_octet hx, v4Part_of_octet hy, v4Part_of_octet hz, v4Part_of_octet hw]
    · cases h
  · cases h

theorem mem_of_parseIPv4 (h : parseIPv4 s = some a) :
    ∀ c ∈ s, c = '.' ∨ c.isDigit = true := by
  have hoctet : ∀ {p : List Char} {n : ℕ}, octet p = some n → ∀ c ∈ p, c.isDigit = true := by
    intro p n hp
    unfold octet at hp
    split_ifs at hp with hbad hle
    simp only [not_or, Bool.not_eq_true', Bool.not_eq_false] at hbad
    exact List.all_eq_true.1 hbad.2.1
  unfold parseIPv4 at h
  split at h
  · rename_i p q r t hs
    split at h
    · rename_i x y z w hx hy hz hw
      rw [← (List.intercalate_splitOn '.' : _ = s), hs]
      intro c hc
      simp only [List.intercalate_cons_cons, List.intercalate_singleton, List.mem_append,
        List.mem_singleton] at hc
      rcases hc with (hc | hc) | (hc | hc) | (hc | hc) | hc
      · exact .inr (hoctet hx c hc)
      · exact .inl hc
      · exact .inr (hoctet hy c hc)
      · exact .inl hc
      · exact .inr (hoctet hz c hc)
      · exact .inl hc
      · exact .inr (hoctet hw c hc)
    · cases h
  · cases h

theorem parseIPv4_of_parseAddr (h : parseAddr s = some a) (h4 : a.is4) :
    parseIPv4 s = some a := by
  unfold parseAddr at h
  split at h
  · exact h
  · have h6 : a.is4 = false := by
      unfold parseIPv6 at h
      split_ifs at h
      split at h
      · split at h
        · split_ifs at h
          cases h
          rfl
        · cases h
      · split at h
        · split_ifs at h
          cases h
          rfl
        · cases h
    rw [h6] at h4
    cases h4
  · cases h

theorem v4Part_toDigits : ∀ n < 256, v4Part (Nat.toDigits 10 n) = some n := by
  decide +kernel

theorem not_mem_toDigits (hc : c.isDigit = false) (n : ℕ) : c ∉ Nat.toDigits 10 n := by
  intro h
  rw [Nat.isDigit_of_mem_toDigits (by decide) (by decide) h] at hc
  cases hc

theorem dotted_toList (v : ℕ) : (dotted v).toList =
    ['.'].intercalate ([24, 16, 8, 0].map fun k => Nat.toDigits 10 (v / 2 ^ k % 256)) := by
  rw [dotted, String.toList_intercalate, List.map_map]
  simp

theorem v4_text (h : a.is4 = true) : v4 a.text.toList = some a := by
  obtain ⟨fam, val, hlt⟩ := a
  cases fam with
  | v6 => cases h
  | v4 =>
    have hval : val < 2 ^ 32 := hlt
    rw [show (Addr.mk .v4 val hlt).text = dotted val from rfl, dotted_toList, v4,
      List.splitOn_intercalate '.' (by simp [not_mem_toDigits]) (by simp)]
    simp only [List.map_cons, List.map_nil, v4Part_toDigits _ (Nat.mod_lt _ (by decide))]
    refine congrArg some (Addr.ext rfl ?_)
    simp only [from4]
    omega

/-! IPv6 -/

theorem hexDigit_digitChar : ∀ d < 16, hexDigit (Nat.digitChar d) = some d := by decide

theorem hexValue_append (acc : ℕ) (s t : List Char) :
    hexValue acc (s ++ t) = (hexValue acc s).bind fun v => hexValue v t := by
  induction s generalizing acc with
  | nil => rfl
  | cons c rest ih =>
    rw [List.cons_append, hexValue, hexValue]
    cases hexDigit c with
    | none => rfl
    | some d => exact ih _

theorem hexValue_toDigits (n : ℕ) : hexValue 0 (Nat.toDigits 16 n) = some n := by
  induction n using Nat.strong_induction_on with
  | _ n ih =>
    rcases lt_or_ge n 16 with hlt | hge
    · rw [Nat.toDigits_of_lt_base hlt, hexValue, hexDigit_digitChar n hlt]
      simp [hexValue]
    · have hmod : n % 16 < 16 := Nat.mod_lt _ (by decide)
      rw [Nat.toDigits_of_base_le (by decide) hge, hexValue_append, ih (n / 16) (by omega)]
      simp only [Option.bind_some, hexValue, hexDigit_digitChar _ hmod]
      rw [Nat.div_add_mod]

theorem mem_toDigits_hex {n : ℕ} (h : c ∈ Nat.toDigits 16 n) : ∃ d < 16, c = Nat.digitChar d := by
  induction n using Nat.strong_induction_on with
  | _ n ih =>
    rcases lt_or_ge n 16 with hlt | hge
    · rw [Nat.toDigits_of_lt_base hlt, List.mem_singleton] at h
      exact ⟨n, hlt, h⟩
    · rw [Nat.toDigits_of_base_le (by decide) hge, List.mem_append, List.mem_singleton] at h
      rcases h with h | h
      · exact ih (n / 16) (by omega) h
      · exact ⟨n % 16, Nat.mod_lt _ (by decide), h⟩

theorem digitChar_hex : ∀ d < 16, isHex (Nat.digitChar d) = true ∧ (Nat.digitChar d).toLower = Nat.digitChar d ∧
    Nat.digitChar d ≠ ':' ∧ Nat.digitChar d ≠ '.' ∧ Nat.digitChar d ≠ '%' := by decide

structure IsGroup (field : List Char) (g : ℕ) : Prop where
  value : hexField field = some g
  group : hexGroup field = true
  chars : ∀ c ∈ field, isHex c = true ∧ c.toLower = c ∧ c ≠ ':' ∧ c ≠ '.' ∧ c ≠ '%'

theorem isGroup_hexText {g : ℕ} (h : g < 65536) : IsGroup (hexText g).toList g := by
  have htext : (hexText g).toList = Nat.toDigits 16 g := String.toList_ofList
  have hlen : (Nat.toDigits 16 g).length ≤ 4 :=
    (Nat.length_toDigits_le_iff (by decide) (by decide)).2 (by omega)
  have hne : Nat.toDigits 16 g ≠ [] := Nat.toDigits_ne_nil
  have hchars : ∀ c ∈ Nat.toDigits 16 g, isHex c = true ∧ c.toLower = c ∧ c ≠ ':' ∧ c ≠ '.' ∧ c ≠ '%' := by
    intro c hc
    obtain ⟨d, hd, rfl⟩ := mem_toDigits_hex hc
    exact digitChar_hex d hd
  refine ⟨?_, ?_, htext ▸ hchars⟩
  · rw [htext, hexField, if_neg (by simp [hlen]), hexValue_toDigits]
  · rw [htext, hexGroup]
    simp only [Bool.and_eq_true, decide_eq_true_eq, List.all_eq_true]
    exact ⟨⟨hne, hlen⟩, fun c hc => (hchars c hc).1⟩

def joined (gs : List ℕ) : List Char := [':'].intercalate (gs.map fun g => (hexText g).toList)

section
variable {gs : List ℕ} (hgs : ∀ g ∈ gs, g < 65536)
include hgs

theorem fields_ok : ∀ f ∈ gs.map fun g => (hexText g).toList, ':' ∉ f ∧ f ≠ [] := by
  intro f hf
  obtain ⟨g, hg, rfl⟩ := List.mem_map.1 hf
  have hgroup := isGroup_hexText (hgs g hg)
  refine ⟨fun hc => (hgroup.chars _ hc).2.2.1 rfl, fun hnil => ?_⟩
  have := hgroup.group
  rw [hnil] at this
  cases this

theorem colonFields_joined : colonFields (joined gs) = gs.map fun g => (hexText g).toList := by
  cases gs with
  | nil => rfl
  | cons g rest =>
    have hne : joined (g :: rest) ≠ [] := by
      have := (fields_ok hgs _ (List.mem_map_of_mem (.head _))).2
      cases rest <;> simp_all [joined]
    rw [colonFields, if_neg hne]
    exact List.splitOn_intercalate ':' (fun f hf => (fields_ok hgs f hf).1) (by simp)

theorem hexFields_texts : hexFields (gs.map fun g => (hexText g).toList) = some gs := by
  induction gs with
  | nil => rfl
  | cons g rest ih =>
    rw [List.forall_mem_cons] at hgs
    rw [List.map_cons, hexFields, (isGroup_hexText hgs.1).value, ih hgs.2]

theorem hexGroup_texts : (gs.map fun g => (hexText g).toList).all hexGroup = true := by
  rw [List.all_map, List.all_eq_true]
  exact fun g hg => (isGroup_hexText (hgs g hg)).group

theorem mem_joined : ∀ c ∈ joined gs, c = ':' ∨
    (isHex c = true ∧ c.toLower = c ∧ c ≠ ':' ∧ c ≠ '.' ∧ c ≠ '%') := by
  induction gs with
  | nil => simp [joined]
  | cons g rest ih =>
    rw [List.forall_mem_cons] at hgs
    have hfirst := (isGroup_hexText hgs.1).chars
    cases rest with
    | nil => simpa [joined] using fun c hc => .inr (hfirst c hc)
    | cons g' rest =>
      intro c hc
      rw [joined, List.map_cons, List.map_cons, List.intercalate_cons_cons] at hc
      simp only [List.mem_append, List.mem_singleton] at hc
      rcases hc with (hc | hc) | hc
      · exact .inr (hfirst c hc)
      · exact .inl hc
      · exact ih hgs.2 c hc

theorem length_joined : (joined gs).length ≤ 5 * gs.length - 1 := by
  induction gs with
  | nil => simp [joined]
  | cons g rest ih =>
    rw [List.forall_mem_cons] at hgs
    have hlen : (hexText g).toList.length ≤ 4 := by
      have := (isGroup_hexText hgs.1).group
      simp only [hexGroup, Bool.and_eq_true, decide_eq_true_eq] at this
      exact this.1.2
    have hrest := ih hgs.2
    cases rest with
    | nil => simpa [joined] using hlen
    | cons g' rest =>
      rw [joined, List.map_cons, List.map_cons, List.intercalate_cons_cons]
      simp only [List.length_append, List.length_nil, List.length_cons] at hrest ⊢
      rw [joined, List.map_cons] at hrest
      omega

theorem lastGroups_joined : lastGroups (joined gs) = some gs := by
  have hdot : '.' ∉ (gs.map fun g => (hexText g).toList).getLastD [] := by
    intro hdot
    have hne : (gs.map fun g => (hexText g).toList) ≠ [] := by
      rintro hnil
      rw [hnil] at hdot
      cases hdot
    rw [List.getLastD_eq_getLast?, List.getLast?_eq_some_getLast hne, Option.getD_some] at hdot
    obtain ⟨g, hg, heq⟩ := List.mem_map.1 (List.getLast_mem hne)
    rw [← heq] at hdot
    exact ((isGroup_hexText (hgs g hg)).chars _ hdot).2.2.2.1 rfl
  simp only [lastGroups, colonFields_joined hgs, if_neg hdot, hexFields_texts hgs]

end

variable (h : ∀ c ∈ s, c = ':' ∨ (isHex c = true ∧ c.toLower = c ∧ c ≠ ':' ∧ c ≠ '.' ∧ c ≠ '%'))
include h

theorem find_colon (hcolon : ':' ∈ s) :
    s.find? (fun c => c == '.' || c == ':' || c == '%') = some ':' := by
  induction s with
  | nil => cases hcolon
  | cons c rest ih =>
    rw [List.forall_mem_cons] at h
    rcases h.1 with rfl | ⟨-, -, hcol, hdot, hzone⟩
    · rfl
    · rw [List.find?_cons_of_neg (by simp [hcol, hdot, hzone])]
      exact ih h.2 ((List.mem_cons.1 hcolon).resolve_left (Ne.symm hcol))

theorem v6_of_chars {gs : List ℕ} (hcolon : ':' ∈ s)
    (hlen : s.length ≤ 39) (hshape : v6Shape s = true) (hparse : parseIPv6 s = some (from16 gs)) :
    v6 s = some (from16 gs) := by
  have hne : s ≠ [] := List.ne_nil_of_mem hcolon
  have hall : s.all (fun c => c == ':' || isHex c) = true := by
    rw [List.all_eq_true]
    intro c hc
    rcases h c hc with rfl | hhex
    · rfl
    · simp [hhex.1]
  have hlower : lowered s = s := by
    refine (List.map_congr_left fun c hc => ?_).trans (List.map_id s)
    rcases h c hc with rfl | hhex
    · rfl
    · exact hhex.2.1
  rw [v6, if_neg (by simp [hne, hlen]), hall, hshape, hlower, parseAddr, find_colon h hcolon]
  simp only [hparse]
  rfl

theorem not_mem_zone : '%' ∉ s := by
  intro hz
  rcases h _ hz with h | h
  · cases h
  · exact h.2.2.2.2 rfl

omit h

theorem v6_joined {gs : List ℕ} (hgs : ∀ g ∈ gs, g < 65536) (hlen : gs.length = 8) :
    v6 (joined gs) = some (from16 gs) := by
  have hsplit : (joined gs).splitOn ':' = gs.map fun g => (hexText g).toList :=
    List.splitOn_intercalate ':' (fun f hf => (fields_ok hgs f hf).1) (by rintro h; simp_all)
  have hcut : cutDouble ':' (joined gs) = none := cutDouble_intercalate (fields_ok hgs)
  have hlength := length_joined hgs
  refine v6_of_chars (mem_joined hgs) ?_ (by omega) ?_ ?_
  · by_contra hcolon
    rw [List.splitOn_eq_singleton hcolon] at hsplit
    have := congrArg List.length hsplit
    simp [hlen] at this
  · rw [v6Shape, hcut, hsplit, hexGroup_texts hgs]
    simp [hlen]
  · rw [parseIPv6, if_neg (not_mem_zone (mem_joined hgs)), hcut, lastGroups_joined hgs]
    simp [hlen]

theorem v6_double {l r : List ℕ} (hl : ∀ g ∈ l, g < 65536) (hr : ∀ g ∈ r, g < 65536)
    (hlen : l.length + r.length ≤ 6) :
    v6 (joined l ++ ':' :: ':' :: joined r) =
      some (from16 (l ++ List.replicate (8 - (l.length + r.length)) 0 ++ r)) := by
  have hcut : cutDouble ':' (joined l ++ ':' :: ':' :: joined r) = some (joined l, joined r) :=
    cutDouble_append (cutDouble_intercalate (fields_ok hl)) (getLast?_intercalate (fields_ok hl)) _
  have hchars : ∀ c ∈ joined l ++ ':' :: ':' :: joined r, c = ':' ∨
      (isHex c = true ∧ c.toLower = c ∧ c ≠ ':' ∧ c ≠ '.' ∧ c ≠ '%') := by
    intro c hc
    simp only [List.mem_append, List.mem_cons] at hc
    rcases hc with hc | hc | hc | hc
    · exact mem_joined hl c hc
    · exact .inl hc
    · exact .inl hc
    · exact mem_joined hr c hc
  have hlength := length_joined hl
  have hlength' := length_joined hr
  refine v6_of_chars hchars (by simp) ?_ ?_ ?_
  · simp only [List.length_append, List.length_cons]
    omega
  · have hright : cutDouble ':' (joined r) = none := cutDouble_intercalate (fields_ok hr)
    rw [v6Shape, hcut]
    simp only [hright, colonFields_joined hl, colonFields_joined hr, List.all_append,
      hexGroup_texts hl, hexGroup_texts hr]
    simp
    omega
  · rw [parseIPv6, if_neg (not_mem_zone hchars), hcut]
    simp only [colonFields_joined hl, hexFields_texts hl, lastGroups_joined hr]
    rw [if_pos (by omega)]

theorem zeroRun_spec (gs : List ℕ) : (zeroRun gs).1 + (zeroRun gs).2 ≤ gs.length ∧
    (gs.drop (zeroRun gs).1).take (zeroRun gs).2 = List.replicate (zeroRun gs).2 0 := by
  refine List.foldlRecOn (motive := fun best : ℕ × ℕ => best.1 + best.2 ≤ gs.length ∧
    (gs.drop best.1).take best.2 = List.replicate best.2 0) _ _ (by simp) ?_
  intro best hbest i hi
  simp only
  split_ifs with hlonger
  · have hle : ((gs.drop i).takeWhile (· == 0)).length ≤ gs.length - i := by
      rw [← List.length_drop]
      exact (List.takeWhile_sublist _).length_le
    refine ⟨by simp only; omega, ?_⟩
    rw [← List.prefix_iff_eq_take.1 (List.takeWhile_prefix _), List.eq_replicate_iff]
    exact ⟨rfl, fun g hg => by simpa using List.mem_takeWhile_imp hg⟩
  · exact hbest

theorem from16_groups (a : Addr) (h : a.is4 = false) : from16 a.groups = a := by
  obtain ⟨fam, val, hlt⟩ := a
  cases fam with
  | v4 => cases h
  | v6 =>
    have hval : val < 2 ^ 128 := hlt
    refine Addr.ext rfl ?_
    simp only [from16, groups, List.range, List.range.loop, List.map_cons, List.map_nil, List.foldl_cons,
      List.foldl_nil]
    omega

theorem groups_lt (a : Addr) : ∀ g ∈ a.groups, g < 65536 := by
  intro g hg
  obtain ⟨i, -, rfl⟩ := List.mem_map.1 hg
  exact Nat.mod_lt _ (by decide)

theorem fam_of_not_is4 (h : a.is4 = false) : a.fam = .v6 := by
  cases hf : a.fam with
  | v4 => simp [is4, hf] at h
  | v6 => rfl

theorem text_v6 (h : a.is4 = false) (hmap : a.is4In6 = false) :
    a.text.toList = if (zeroRun a.groups).2 < 2 then joined a.groups
      else joined (a.groups.take (zeroRun a.groups).1) ++ ':' :: ':' ::
        joined (a.groups.drop ((zeroRun a.groups).1 + (zeroRun a.groups).2)) := by
  have hnot : a.val / 2 ^ 32 ≠ 0xffff := by simpa [is4In6, h] using hmap
  rw [text, fam_of_not_is4 h]
  simp only [if_neg hnot]
  split_ifs <;> simp [joined, Function.comp_def]

theorem text_mapped (hmap : a.is4In6 = true) :
    a.text.toList = "::ffff:".toList ++ (dotted (a.val % 2 ^ 32)).toList := by
  simp only [is4In6, Bool.and_eq_true, Bool.not_eq_true', beq_iff_eq] at hmap
  rw [text, fam_of_not_is4 hmap.1]
  simp only [if_pos hmap.2]
  exact String.toList_append

theorem v6_text (h : a.is4 = false) (hmap : a.is4In6 = false) : v6 a.text.toList = some a := by
  have hgs := groups_lt a
  have hlen : a.groups.length = 8 := by simp [groups]
  rw [text_v6 h hmap]
  split_ifs with hshort
  · rw [v6_joined hgs hlen, from16_groups a h]
  · obtain ⟨_, hzero⟩ := zeroRun_spec a.groups
    rw [v6_double (fun g hg => hgs g (List.mem_of_mem_take hg)) (fun g hg => hgs g (List.mem_of_mem_drop hg))]
    · have hcount : 8 - ((a.groups.take (zeroRun a.groups).1).length +
          (a.groups.drop ((zeroRun a.groups).1 + (zeroRun a.groups).2)).length) = (zeroRun a.groups).2 := by
        simp only [List.length_take, List.length_drop]
        omega
      rw [hcount, ← hzero, List.append_assoc, ← List.drop_drop, List.take_append_drop,
        List.take_append_drop, from16_groups a h]
    · simp only [List.length_take, List.length_drop]
      omega

/-! What the texts are made of -/

theorem mem_dotted {v : ℕ} (hc : c ∈ (dotted v).toList) : c = '.' ∨ isHex c = true := by
  have hnum : ∀ n, c ∈ Nat.toDigits 10 n → c = '.' ∨ isHex c = true := by
    intro n hn
    have := (isDigit_iff c).1 (Nat.isDigit_of_mem_toDigits (by decide) (by decide) hn)
    exact .inr (by simp [isHex, this.1, this.2])
  rw [dotted_toList] at hc
  simp only [List.map_cons, List.map_nil, List.intercalate_cons_cons, List.intercalate_singleton,
    List.mem_append, List.mem_singleton] at hc
  rcases hc with (hc | hc) | (hc | hc) | (hc | hc) | hc
  · exact hnum _ hc
  · exact .inl hc
  · exact hnum _ hc
  · exact .inl hc
  · exact hnum _ hc
  · exact .inl hc
  · exact hnum _ hc

theorem mem_text_v6 (h : a.is4 = false) (hmap : a.is4In6 = false)
    (hc : c ∈ a.text.toList) : c = ':' ∨ isHex c = true := by
  have hgs := groups_lt a
  have hjoined : ∀ {gs : List ℕ}, (∀ g ∈ gs, g < 65536) → c ∈ joined gs → c = ':' ∨ isHex c = true :=
    fun hgs hc => (mem_joined hgs c hc).imp_right And.left
  rw [text_v6 h hmap] at hc
  split_ifs at hc
  · exact hjoined hgs hc
  · simp only [List.mem_append, List.mem_cons] at hc
    rcases hc with hc | hc | hc | hc
    · exact hjoined (fun g hg => hgs g (List.mem_of_mem_take hg)) hc
    · exact .inl hc
    · exact .inl hc
    · exact hjoined (fun g hg => hgs g (List.mem_of_mem_drop hg)) hc

theorem mem_text (hc : c ∈ a.text.toList) : c = ':' ∨ c = '.' ∨ isHex c = true := by
  by_cases h4 : a.is4 = true
  · have hfam : a.fam = .v4 := by simpa [is4] using h4
    rw [text, hfam] at hc
    exact .inr (mem_dotted hc)
  · rw [Bool.not_eq_true] at h4
    by_cases hmap : a.is4In6 = true
    · rw [text_mapped hmap, List.mem_append] at hc
      rcases hc with hc | hc
      · simp only [String.reduceToList, List.mem_cons, List.not_mem_nil, or_false] at hc
        rcases hc with rfl | rfl | rfl | rfl | rfl | rfl | rfl <;> decide
      · exact .inr (mem_dotted hc)
    · rw [Bool.not_eq_true] at hmap
      exact (mem_text_v6 h4 hmap hc).imp_right .inr

/-! What the exit makes of an IPv6 text -/

theorem v4_text_v6 (h : a.is4 = false) (hmap : a.is4In6 = false) : v4 a.text.toList = none := by
  have hdot : '.' ∉ a.text.toList := by
    intro hdot
    rcases mem_text_v6 h hmap hdot with h | h
    · cases h
    · cases h
  rw [v4, List.splitOn_eq_singleton hdot]

/-- A mapped address is written with dots, which the exit takes in no IPv6 address. -/
theorem v4_text_mapped (hmap : a.is4In6 = true) : v4 a.text.toList = none := by
  let fields := ("::ffff:".toList ++ Nat.toDigits 10 (a.val % 2 ^ 32 / 2 ^ 24 % 256)) ::
    [16, 8, 0].map fun k => Nat.toDigits 10 (a.val % 2 ^ 32 / 2 ^ k % 256)
  have htext : a.text.toList = ['.'].intercalate fields := by
    rw [text_mapped hmap, dotted_toList]
    simp [fields]
  have hfields : ∀ f ∈ fields, '.' ∉ f := by simp [fields, not_mem_toDigits]
  have hfirst : ∀ s : List Char, v4Part (':' :: s) = none := by
    simp [v4Part]
  rw [htext, v4, List.splitOn_intercalate '.' hfields (List.cons_ne_nil _ _)]
  simp only [fields, List.map_cons, List.map_nil]
  rw [show "::ffff:".toList = ':' :: ":ffff:".toList from rfl, List.cons_append, hfirst]

theorem v6_text_mapped (hmap : a.is4In6 = true) : v6 a.text.toList = none := by
  have hdot : '.' ∈ a.text.toList := by
    rw [text_mapped hmap, dotted_toList]
    simp
  have hall : a.text.toList.all (fun c => c == ':' || isHex c) = false := by
    rw [List.all_eq_false]
    exact ⟨'.', hdot, by decide⟩
  rw [v6, hall]
  simp only [Bool.not_false, if_true]
  split_ifs <;> rfl

end Molebridge.TunnelConf
