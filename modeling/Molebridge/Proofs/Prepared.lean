import Molebridge.Proofs.AddrTexts
import Molebridge.Spec.PrepareConfig

/-! What prepare-config writes, the exit reads: line by line, every field under its name, and
each value with the meaning it was given. -/

variable {s v : List Char} {r : Reading}

namespace Molebridge.TunnelConf

open Text Addr

variable {fs : List (Field × List Char)} {address : List (List Char)}

/-! Values and lines -/

def Starts (s : List Char) : Prop := ∃ c, s.head? = some c ∧ isBlank c = false

def Ends (s : List Char) : Prop := ∃ c, s.getLast? = some c ∧ isBlank c = false

structure IsValue (s : List Char) : Prop where
  starts : Starts s
  ends : Ends s

theorem Starts.append (h : Starts s) (t : List Char) : Starts (s ++ t) := by
  obtain ⟨c, hc, hblank⟩ := h
  exact ⟨c, by rw [List.head?_append, hc]; rfl, hblank⟩

theorem Ends.append {t : List Char} (h : Ends t) (s : List Char) : Ends (s ++ t) := by
  obtain ⟨c, hc, hblank⟩ := h
  exact ⟨c, by rw [List.getLast?_append, hc]; rfl, hblank⟩

namespace IsValue

variable {s t : List Char}

theorem of_forall (hne : s ≠ []) (h : ∀ c ∈ s, isBlank c = false) : IsValue s :=
  ⟨⟨s.head hne, List.head?_eq_some_head hne, h _ (List.head_mem hne)⟩,
    ⟨s.getLast hne, List.getLast?_eq_some_getLast hne, h _ (List.getLast_mem hne)⟩⟩

theorem of_any (hne : s ≠ []) (h : s.any isBlank = false) : IsValue s :=
  .of_forall hne fun c hc => by simpa using List.any_eq_false.1 h c hc

theorem ne_nil (h : IsValue s) : s ≠ [] := by
  rintro rfl
  obtain ⟨c, hc, -⟩ := h.starts
  cases hc

theorem trimmed (h : IsValue s) : blankTrim s = s := by
  obtain ⟨c, hc, hblank⟩ := h.starts
  obtain ⟨d, hd, hblank'⟩ := h.ends
  refine trim_eq_self ?_ ?_
  · simpa [hc] using hblank
  · simpa [hd] using hblank'

theorem trimmed_blank (h : IsValue s) : blankTrim (' ' :: s) = s := by
  exact h.trimmed

end IsValue

def fieldLine (p : Field × List Char) : List Char := p.1.name.toList ++ (" = ".toList ++ p.2)

theorem name_isValue (f : Field) : IsValue f.name.toList :=
  IsValue.of_any (by cases f <;> decide) (by cases f <;> decide)

theorem cut_fieldLine (f : Field) (v : List Char) :
    cut '=' (fieldLine (f, v)) = some (f.name.toList ++ [' '], ' ' :: v) := by
  have hname : '=' ∉ f.name.toList ++ [' '] := by cases f <;> decide
  rw [← cut_append hname]
  simp [fieldLine]

theorem ofName_name (f : Field) : Field.ofName (blankTrim (f.name.toList ++ [' '])) = some f := by
  cases f <;> decide

theorem line_field {nr : ℕ} {f : Field} (hv : IsValue v)
    (hsect : r.sect = some f.sect) (hnew : r.seen f = none) :
    r.line nr (fieldLine (f, v)) =
      { r with seen := fun g => if g = f then some ⟨nr, v⟩ else r.seen g } := by
  have htrim : blankTrim (fieldLine (f, v)) = fieldLine (f, v) :=
    IsValue.trimmed ⟨(name_isValue f).starts.append _, (hv.ends.append _).append _⟩
  have hhead : (fieldLine (f, v)).head? = f.name.toList.head? :=
    List.head?_append_of_ne_nil _ (name_isValue f).ne_nil
  have hplain : f.name.toList.head? ≠ some '#' ∧ f.name.toList.head? ≠ some '[' ∧
      f.name.toList.head? ≠ none := by cases f <;> decide
  have hline : ∀ text : List Char, text.head? = some '[' → fieldLine (f, v) ≠ text := by
    rintro text htext rfl
    exact hplain.2.1 (hhead ▸ htext)
  have hnil : fieldLine (f, v) ≠ [] := by
    intro hnil
    rw [hnil] at hhead
    exact hplain.2.2 hhead.symm
  simp only [Reading.line, htrim]
  rw [if_neg (by simp [hnil, hhead, hplain.1]), if_neg (hline _ rfl), if_neg (hline _ rfl)]
  simp [Reading.field, cut_fieldLine, ofName_name, hsect, hnew, hv.trimmed_blank]

/-- What is seen after consecutive lines of fields, the first on line nr. -/
def recorded (seen : Field → Option Entry) (nr : ℕ) : List (Field × List Char) → Field → Option Entry
  | [] => seen
  | p :: rest => recorded (fun g => if g = p.1 then some ⟨nr, p.2⟩ else seen g) (nr + 1) rest

theorem lines_fields {s : Section} (fs : List (Field × List Char)) (rest : List (List Char)) {nr : ℕ} (hsect : r.sect = some s)
    (hfs : ∀ p ∈ fs, p.1.sect = s ∧ IsValue p.2 ∧ r.seen p.1 = none) (hnodup : (fs.map Prod.fst).Nodup) :
    r.lines nr (fs.map fieldLine ++ rest) =
      Reading.lines { r with seen := recorded r.seen nr fs } (nr + fs.length) rest := by
  induction fs generalizing r nr with
  | nil => rfl
  | cons p fs ih =>
    obtain ⟨f, v⟩ := p
    rw [List.forall_mem_cons] at hfs
    rw [List.map_cons, List.nodup_cons] at hnodup
    obtain ⟨⟨hf, hv, hnew⟩, hfs⟩ := hfs
    rw [List.map_cons, List.cons_append, Reading.lines, line_field hv (hsect.trans (by rw [hf])) hnew, ih]
    · rw [List.length_cons, Nat.add_right_comm, Nat.add_assoc]
      rfl
    · exact hsect
    · intro q hq
      obtain ⟨hq1, hq2, hq3⟩ := hfs q hq
      refine ⟨hq1, hq2, ?_⟩
      have hne : q.1 ≠ f := by
        intro h
        have hmem := List.mem_map_of_mem (f := Prod.fst) hq
        rw [h] at hmem
        exact hnodup.1 hmem
      simp only [if_neg hne]
      exact hq3
    · exact hnodup.2

theorem intercalate_snoc {sep : Char} (lines : List (List Char)) (hne : lines ≠ []) :
    [sep].intercalate (lines ++ [[]]) = [sep].intercalate lines ++ [sep] := by
  induction lines with
  | nil => exact absurd rfl hne
  | cons l rest ih =>
    cases rest with
    | nil => simp
    | cons l' rest =>
      rw [List.cons_append, List.cons_append, List.intercalate_cons_cons, ← List.cons_append, ih (by simp),
        List.intercalate_cons_cons]
      simp only [List.append_assoc]

theorem linesOf_joined {lines : List (List Char)} (hne : lines ≠ []) (h : ∀ l ∈ lines, '\n' ∉ l) :
    linesOf (['\n'].intercalate (lines ++ [[]])) = lines := by
  have hsplit : (['\n'].intercalate (lines ++ [[]])).splitOn '\n' = lines ++ [[]] :=
    List.splitOn_intercalate '\n' (by simpa [or_imp, forall_and] using h) (by simp)
  have hlast : (['\n'].intercalate (lines ++ [[]])).getLast? = some '\n' := by
    rw [intercalate_snoc lines hne]
    simp
  have hnil : ['\n'].intercalate (lines ++ [[]]) ≠ [] := by
    intro hnil
    rw [hnil] at hlast
    cases hlast
  rw [linesOf, if_neg hnil, if_pos hlast, hsplit, List.dropLast_concat]

end Molebridge.TunnelConf

namespace Molebridge.PrepareConfig

open Text Addr TunnelConf

variable {c : Char} {a : IfaceAddr} {table privateKey text out : List Char} {comments : List String}

theorem not_blank (hspace : c ≠ ' ') (htab : c ≠ '\t') : isBlank c = false := by
  simp [isBlank, hspace, htab]

/-! Keys -/

theorem sextet_isKeyChar (h : (Base64.sextet c).isSome) : isKeyChar c = true := by
  unfold Base64.sextet at h
  unfold isKeyChar
  split_ifs at h <;> simp_all

theorem final_of_sextet {z : ℕ} (h : Base64.sextet c = some z) (hz : z % 4 = 0) :
    c ∈ finalChars := by
  have hlt : c.toNat < 128 := by
    have hkey := sextet_isKeyChar (by rw [h]; rfl)
    simp only [isKeyChar, Bool.or_eq_true, Bool.and_eq_true, decide_eq_true_eq, beq_iff_eq] at hkey
    rcases hkey with (((⟨-, hc⟩ | ⟨-, hc⟩) | ⟨-, hc⟩) | rfl) | rfl
    · exact lt_of_le_of_lt (hc) (by decide)
    · exact lt_of_le_of_lt (hc) (by decide)
    · exact lt_of_le_of_lt (hc) (by decide)
    · decide
    · decide
  have hall : ∀ n < 128, ∀ z, Base64.sextet (Char.ofNat n) = some z → z % 4 = 0 →
      Char.ofNat n ∈ finalChars := by
    intro n hn
    have : ∀ n < 128, ((Base64.sextet (Char.ofNat n)).elim true fun z => z % 4 != 0 ||
        finalChars.contains (Char.ofNat n)) = true := by decide
    intro z hs hz
    have := this n hn
    rw [hs] at this
    simpa [hz] using this
  have := hall c.toNat hlt z
  rw [Char.ofNat_toNat] at this
  exact this h hz

theorem key_of_requireKey {w : List Char} {field : String} (h : requireKey v field = .ok w) :
    w = v ∧ IsValue v ∧ '\n' ∉ v ∧ ∃ raw, key v = some raw ∧ Base64.decode v = some raw := by
  unfold requireKey at h
  split_ifs at h with hok
  obtain ⟨hlen, -, hbreak, hdec⟩ := hok
  obtain ⟨raw, hraw, hlen'⟩ := Option.map_eq_some_iff.1 hdec
  obtain ⟨body, c, z, rfl, hbody, hc, hz⟩ := Base64.decode_padded hraw (by omega)
  have hbodylen : body.length = 42 := by simpa using hlen
  refine ⟨(Except.ok.inj h).symm, ⟨?_, '=', by simp, rfl⟩, hbreak, raw, ?_, hraw⟩
  · obtain ⟨x, _, rfl⟩ := List.exists_cons_of_ne_nil (l := body) (by rintro rfl; cases hbodylen)
    refine ⟨x, rfl, ?_⟩
    have hx := sextet_isKeyChar (hbody x (.head _))
    refine not_blank ?_ ?_ <;>
    · rintro rfl
      cases hx
  · have hdrop : (body ++ [c, '=']).drop 43 = ['='] := by
      rw [show 43 = body.length + 1 by omega, ← List.drop_drop, List.drop_left]
      rfl
    have hdrop' : (body ++ [c, '=']).drop 42 = [c, '='] := by rw [← hbodylen, List.drop_left]
    have htake : (body ++ [c, '=']).take 42 = body := by rw [← hbodylen, List.take_left]
    have hall : body.all isKeyChar = true := List.all_eq_true.2 fun x hx => sextet_isKeyChar (hbody x hx)
    rw [key, if_neg (by simp [hbodylen, hdrop, final_of_sextet hc hz]), htake, hall, hraw]
    simp [hlen']

/-! Addresses -/

theorem bits_text (a : Addr) : Nat.toDigits 10 a.bitLen = if a.is4 then "32".toList else "128".toList := by
  unfold bitLen is4
  cases a.fam <;> rfl

theorem not_blank_of_hex (h : c = ':' ∨ c = '.' ∨ isHex c = true) :
    isBlank c = false ∧ c ≠ '/' ∧ c ≠ ',' ∧ c ≠ '\n' := by
  have hother : ∀ d : Char, ¬ (d = ':' ∨ d = '.' ∨ isHex d = true) → c ≠ d := by
    rintro d hd rfl
    exact hd h
  exact ⟨not_blank (hother _ (by decide)) (hother _ (by decide)), hother _ (by decide), hother _ (by decide),
    hother _ (by decide)⟩

theorem text_host (hb : a.bits = a.addr.bitLen) :
    a.text = a.addr.text.toList ++ '/' :: if a.addr.is4 then "32".toList else "128".toList := by
  rw [IfaceAddr.text, hb, bits_text]

theorem plain_of_mem_text (hb : a.bits = a.addr.bitLen) (hc : c ∈ a.text) :
    isBlank c = false ∧ c ≠ ',' ∧ c ≠ '\n' := by
  rw [text_host hb, List.mem_append, List.mem_cons] at hc
  rcases hc with hc | rfl | hc
  · obtain ⟨hblank, -, hrest⟩ := not_blank_of_hex (mem_text hc)
    exact ⟨hblank, hrest⟩
  · decide
  · split_ifs at hc <;> simp at hc <;> rcases hc with rfl | rfl | rfl <;> decide

theorem text_isValue (hb : a.bits = a.addr.bitLen) : IsValue a.text :=
  IsValue.of_forall (by simp [IfaceAddr.text]) fun _ hc => (plain_of_mem_text hb hc).1

theorem cut_text (hb : a.bits = a.addr.bitLen) :
    cut '/' a.text = some (a.addr.text.toList, if a.addr.is4 then "32".toList else "128".toList) := by
  rw [text_host hb, cut_append]
  exact fun hc => (not_blank_of_hex (mem_text hc)).2.1 rfl

section
variable {a : IfaceAddr} {part : List Char} (hb : a.bits = a.addr.bitLen) (hpart : blankTrim part = a.text)
  (rest : List (List Char))
include hb hpart

theorem addresses_v4 (h4 : a.addr.is4 = true) (addr6 : Option Addr) :
    addresses none addr6 (part :: rest) = addresses (some a.addr) addr6 rest := by
  rw [addresses, hpart, cut_text hb]
  simp [h4, v4_text h4]

theorem addresses_v6 (h4 : a.addr.is4 = false) (hmap : a.addr.is4In6 = false) (addr4 : Option Addr) :
    addresses addr4 none (part :: rest) = addresses addr4 (some a.addr) rest := by
  rw [addresses, hpart, cut_text hb]
  simp [h4, v6_text h4 hmap]

theorem addresses_mapped (hmap : a.addr.is4In6 = true) (addr4 addr6 : Option Addr) :
    addresses addr4 addr6 (part :: rest) = none := by
  rw [addresses, hpart, cut_text hb]
  simp [v4_text_mapped hmap, v6_text_mapped hmap]

end

theorem splitOn_one {x : IfaceAddr} (h : ∀ u ∈ [x].map IfaceAddr.text, ',' ∉ u) :
    ([',', ' '].intercalate ([x].map IfaceAddr.text)).splitOn ',' = [x.text] := by
  rw [List.map_singleton, List.intercalate_singleton]
  exact List.splitOn_eq_singleton (h x.text (by simp))

theorem splitOn_two {x y : IfaceAddr} (h : ∀ u ∈ [x, y].map IfaceAddr.text, ',' ∉ u) :
    ([',', ' '].intercalate ([x, y].map IfaceAddr.text)).splitOn ',' = [x.text, ' ' :: y.text] := by
  have hsplit := List.splitOn_intercalate ',' (by simpa using h) (List.cons_ne_nil x.text [' ' :: y.text])
  simpa using hsplit

theorem one_per_family {parsed : List IfaceAddr} (h4 : parsed.countP (fun a => a.addr.is4) = 1)
    (h6 : parsed.countP (fun a => !a.addr.is4) ≤ 1) :
    (∃ x, parsed = [x] ∧ x.addr.is4 = true) ∨
    (∃ x y, (parsed = [x, y] ∨ parsed = [y, x]) ∧ x.addr.is4 = true ∧ y.addr.is4 = false) := by
  have hlen := List.length_eq_countP_add_countP (fun a : IfaceAddr => a.addr.is4) (l := parsed)
  simp only [Bool.not_eq_true, Bool.decide_eq_false] at hlen
  rcases parsed with _ | ⟨x, _ | ⟨y, _ | ⟨z, _⟩⟩⟩
  · cases h4
  · refine .inl ⟨x, rfl, ?_⟩
    by_contra hx
    simp [hx] at h4
  · refine .inr ?_
    cases hx : x.addr.is4 <;> cases hy : y.addr.is4 <;> simp [hx, hy] at h4
    · exact ⟨y, x, .inr rfl, hy, hx⟩
    · exact ⟨x, y, .inl rfl, hx, hy⟩
  · simp only [List.length_cons] at hlen
    omega

section
variable {parsed : List IfaceAddr} (h4 : parsed.countP (fun a => a.addr.is4) = 1)
  (h6 : parsed.countP (fun a => !a.addr.is4) ≤ 1) (hbits : ∀ a ∈ parsed, a.bits = a.addr.bitLen)
include h4 h6 hbits

theorem addresses_isValue : IsValue ([',', ' '].intercalate (parsed.map IfaceAddr.text)) ∧
    '\n' ∉ [',', ' '].intercalate (parsed.map IfaceAddr.text) := by
  have hvalue : ∀ a ∈ parsed, IsValue a.text := fun a ha => text_isValue (hbits a ha)
  have hbreak : ∀ a ∈ parsed, '\n' ∉ a.text := fun a ha hc => (plain_of_mem_text (hbits a ha) hc).2.2 rfl
  have hpair : ∀ x ∈ parsed, ∀ y ∈ parsed, IsValue ([',', ' '].intercalate [x.text, y.text]) ∧
      '\n' ∉ [',', ' '].intercalate [x.text, y.text] := by
    intro x hx y hy
    refine ⟨?_, by simp [hbreak x hx, hbreak y hy]⟩
    rw [List.intercalate_cons_cons, List.append_assoc, List.intercalate_singleton]
    exact ⟨(hvalue x hx).starts.append _, ((hvalue y hy).ends.append _).append _⟩
  rcases one_per_family h4 h6 with ⟨x, rfl, -⟩ | ⟨x, y, rfl | rfl, -, -⟩
  · simpa using ⟨hvalue x (by simp), hbreak x (by simp)⟩
  · exact hpair x (by simp) y (by simp)
  · exact hpair y (by simp) x (by simp)

omit h4 h6 in
theorem no_comma : ∀ u ∈ parsed.map IfaceAddr.text, ',' ∉ u := by
  intro u hu hc
  obtain ⟨a, ha, rfl⟩ := List.mem_map.1 hu
  exact (plain_of_mem_text (hbits a ha) hc).2.1 rfl

theorem interfaceAddrs_plain (hplain : ∀ a ∈ parsed, a.addr.is4In6 = false) (nr : ℕ) :
    ∃ addr4 addr6, interfaceAddrs .mullvad ⟨nr, [',', ' '].intercalate (parsed.map IfaceAddr.text)⟩ =
        .ok (some addr4, addr6) ∧
      (parsed.map IfaceAddr.addr).Perm (addr4 :: addr6.toList) ∧
      (parsed.any fun a => !a.addr.is4) = addr6.isSome := by
  have hcomma := no_comma hbits
  rcases one_per_family h4 h6 with ⟨x, rfl, hx⟩ | ⟨x, y, rfl | rfl, hx, hy⟩
  · have hxb := hbits x (by simp)
    refine ⟨x.addr, none, ?_, .refl _, by simp [hx]⟩
    simp only [interfaceAddrs, splitOn_one hcomma, addresses_v4 hxb (text_isValue hxb).trimmed _ hx]
    simp [addresses]
  · have hxb := hbits x (by simp)
    have hyb := hbits y (by simp)
    refine ⟨x.addr, some y.addr, ?_, .refl _, by simp [hy]⟩
    simp only [interfaceAddrs, splitOn_two hcomma, addresses_v4 hxb (text_isValue hxb).trimmed _ hx,
      addresses_v6 hyb (text_isValue hyb).trimmed_blank _ hy (hplain y (by simp))]
    simp [addresses]
  · have hxb := hbits x (by simp)
    have hyb := hbits y (by simp)
    refine ⟨x.addr, some y.addr, ?_, .swap _ _ _, by simp [hy]⟩
    simp only [interfaceAddrs, splitOn_two hcomma,
      addresses_v6 hyb (text_isValue hyb).trimmed _ hy (hplain y (by simp)),
      addresses_v4 hxb (text_isValue hxb).trimmed_blank _ hx]
    simp [addresses]

theorem interfaceAddrs_mapped (ha : a ∈ parsed) (hmap : a.addr.is4In6 = true) (nr : ℕ) :
    ∃ m, interfaceAddrs .mullvad ⟨nr, [',', ' '].intercalate (parsed.map IfaceAddr.text)⟩ = .error m := by
  have hcomma := no_comma hbits
  have hnot : a.addr.is4 = false := by
    simp only [is4In6, Bool.and_eq_true, Bool.not_eq_true'] at hmap
    exact hmap.1
  have hnone : addresses none none
      (([',', ' '].intercalate (parsed.map IfaceAddr.text)).splitOn ',') = none := by
    rcases one_per_family h4 h6 with ⟨x, rfl, hx⟩ | ⟨x, y, rfl | rfl, hx, -⟩
    · rw [List.mem_singleton.1 ha, hx] at hnot
      cases hnot
    · obtain rfl : a = y := by
        rcases List.mem_pair.1 ha with rfl | rfl
        · rw [hx] at hnot
          cases hnot
        · rfl
      have hxb := hbits x (by simp)
      have hyb := hbits a (by simp)
      rw [splitOn_two hcomma, addresses_v4 hxb (text_isValue hxb).trimmed _ hx,
        addresses_mapped hyb (text_isValue hyb).trimmed_blank _ hmap]
    · obtain rfl : a = y := by
        rcases List.mem_pair.1 ha with rfl | rfl
        · rfl
        · rw [hx] at hnot
          cases hnot
      have hyb := hbits a (by simp)
      rw [splitOn_two hcomma, addresses_mapped hyb (text_isValue hyb).trimmed _ hmap]
  exact ⟨_, by rw [interfaceAddrs, hnone]⟩

end

/-! Endpoints and tables -/

theorem digits_isValue (hne : s ≠ []) (h : s.all Char.isDigit = true) :
    IsValue s ∧ '\n' ∉ s ∧ ':' ∉ s := by
  have hd := List.all_eq_true.1 h
  have hother : ∀ c ∈ s, ∀ d : Char, d.isDigit = false → c ≠ d := by
    rintro c hc d hno rfl
    exact absurd (hd c hc) (by simp [hno])
  exact ⟨IsValue.of_forall hne fun c hc => not_blank (hother c hc _ (by decide)) (hother c hc _ (by decide)),
    fun hc => hother _ hc _ (by decide) rfl, fun hc => hother _ hc _ (by decide) rfl⟩

section
variable {host port : List Char} {h : Addr} (hparse : parseAddr host = some h) (hh4 : h.is4 = true)
include hparse hh4

theorem host_chars : host ≠ [] ∧ ∀ c ∈ host, c = '.' ∨ c.isDigit = true := by
  have hv4 := parseIPv4_of_parseAddr hparse hh4
  refine ⟨?_, mem_of_parseIPv4 hv4⟩
  rintro rfl
  cases hparse

theorem not_mem_host (hc : c ≠ '.') (hdigit : c.isDigit = false) : c ∉ host := by
  intro hmem
  rcases (host_chars hparse hh4).2 c hmem with rfl | h
  · exact hc rfl
  · rw [h] at hdigit
    cases hdigit

theorem endpoint_isValue (hport : isPort port = true) :
    IsValue (host ++ ':' :: port) ∧ '\n' ∉ host ++ ':' :: port := by
  simp only [isPort, Bool.and_eq_true] at hport
  obtain ⟨hv, hbreak, -⟩ := digits_isValue (by rintro rfl; simp at hport) hport.2
  have hhost : IsValue host := by
    refine IsValue.of_forall (host_chars hparse hh4).1 fun c hc => not_blank ?_ ?_ <;>
    · rintro rfl
      exact not_mem_host hparse hh4 (by decide) (by decide) hc
  refine ⟨⟨hhost.starts.append _, (hv.ends.append [':']).append host⟩, ?_⟩
  simp [not_mem_host hparse hh4, hbreak]

theorem endpointOf_eq (hport : isPort port = true) (hlo : 1 ≤ decimal port) (hhi : decimal port ≤ 65535) :
    endpointOf (host ++ ':' :: port) = if port.head? = some '0' then none else some (h, decimal port) := by
  simp only [isPort, Bool.and_eq_true, decide_eq_true_eq] at hport
  obtain ⟨⟨hlen1, hlen5⟩, hall⟩ := hport
  have hne : port ≠ [] := by
    rintro rfl
    cases hlen1
  rw [endpointOf, cut_append (not_mem_host hparse hh4 (by decide) (by decide))]
  simp only [v4_of_parseIPv4 (parseIPv4_of_parseAddr hparse hh4)]
  split_ifs with hzero
  · have hhead : port.headD ' ' = '0' := by rw [List.headD_eq_head?_getD, hzero]; rfl
    rw [number, if_pos (by simp only [hhead]; exact .inr (.inl (by decide)))]
  · obtain ⟨h1, h9⟩ := head_bounds hne (List.all_eq_true.1 hall) hzero
    have hgood : ¬ (port = [] ∨ port.headD ' ' < '1' ∨ '9' < port.headD ' ' ∨ 5 < port.length) := by
      simp only [not_or, Char.not_lt, Nat.not_lt]
      exact ⟨hne, h1, h9, hlen5⟩
    rw [number, if_neg hgood, all_digits_iff, hall, if_neg (by simp), if_pos ⟨hlo, hhi⟩]
    rfl

end

theorem digit_value (h : c.isDigit = true) :
    c.toNat - '0'.toNat < 10 ∧ Nat.digitChar (c.toNat - '0'.toNat) = c := by
  obtain ⟨h0, h9⟩ := (isDigit_iff c).1 h
  have hlo : 48 ≤ c.toNat := h0
  have hhi : c.toNat ≤ 57 := h9
  have hzero : '0'.toNat = 48 := rfl
  rw [← Char.toNat_inj, Nat.toNat_digitChar_of_lt_ten (by omega)]
  omega

theorem toDigits_ofDigitChars {cs : List Char} (h : ∀ c ∈ cs, c.isDigit = true) {acc : ℕ} (hacc : 0 < acc) :
    Nat.toDigits 10 (Nat.ofDigitChars 10 cs acc) = Nat.toDigits 10 acc ++ cs := by
  induction cs generalizing acc with
  | nil => simp
  | cons c cs ih =>
    rw [List.forall_mem_cons] at h
    obtain ⟨_, hchar⟩ := digit_value h.1
    rw [ofDigitChars_cons, ih h.2 (by omega), Nat.toDigits_of_base_le (by decide) (by omega),
      show (10 * acc + (c.toNat - '0'.toNat)) / 10 = acc by omega,
      show (10 * acc + (c.toNat - '0'.toNat)) % 10 = c.toNat - '0'.toNat by omega, hchar]
    simp

theorem table_text (h : checkTable table = .ok ()) :
    Nat.toDigits 10 (decimal table) = table ∧ table ≠ [] ∧ table.all Char.isDigit = true := by
  unfold checkTable at h
  split_ifs at h with hok
  obtain ⟨hre, -, -⟩ := hok
  simp only [isTable, Bool.and_eq_true] at hre
  obtain ⟨⟨⟨hne, hzero⟩, hall⟩, -⟩ := hre
  refine ⟨?_, by simpa using hne, hall⟩
  cases table with
  | nil => cases hne
  | cons c rest =>
    rw [List.all_cons, Bool.and_eq_true] at hall
    obtain ⟨hlt, hchar⟩ := digit_value hall.1
    have hpos : 0 < c.toNat - '0'.toNat := by
      refine Nat.pos_of_ne_zero fun h => ?_
      rw [h] at hchar
      simp [← hchar] at hzero
    rw [decimal, ofDigitChars_cons, Nat.mul_zero, Nat.zero_add,
      toDigits_ofDigitChars (List.all_eq_true.1 hall.2) hpos, Nat.toDigits_of_lt_base hlt, hchar]
    rfl

/-! The lines -/

theorem routes_isValue (hne : table ≠ []) (hall : table.all Char.isDigit = true) (has6 : Bool) :
    (IsValue (routeUp table ++ if has6 then routeUp6 table else []) ∧
      '\n' ∉ routeUp table ++ if has6 then routeUp6 table else []) ∧
    (IsValue (routeDown table ++ if has6 then routeDown6 table else []) ∧
      '\n' ∉ routeDown table ++ if has6 then routeDown6 table else []) := by
  obtain ⟨hv, hbreak, -⟩ := digits_isValue hne hall
  have hup : Starts "ip route replace default dev %i table ".toList := ⟨'i', by decide, by decide⟩
  have hdown : Starts "ip route del default dev %i table ".toList := ⟨'i', by decide, by decide⟩
  have hup' : '\n' ∉ routeUp table := List.not_mem_append (by decide) hbreak
  have hdown' : '\n' ∉ routeDown table := List.not_mem_append (by decide) hbreak
  have hup6 : '\n' ∉ routeUp6 table := List.not_mem_append (by decide) hbreak
  have hdown6 : '\n' ∉ routeDown6 table := List.not_mem_append (by decide) hbreak
  cases has6
  · simp only [Bool.false_eq_true, if_false, List.append_nil]
    exact ⟨⟨⟨hup.append _, hv.ends.append _⟩, hup'⟩, ⟨⟨hdown.append _, hv.ends.append _⟩, hdown'⟩⟩
  · exact ⟨⟨⟨(hup.append _).append _, (hv.ends.append _).append _⟩, List.not_mem_append hup' hup6⟩,
      ⟨⟨(hdown.append _).append _, (hv.ends.append _).append _⟩, List.not_mem_append hdown' hdown6⟩⟩

theorem line_comment (r : Reading) (nr : ℕ) (h : s.head? = some '#') (hends : Ends s) :
    r.line nr s = r := by
  have htrim : blankTrim s = s := IsValue.trimmed ⟨⟨'#', h, rfl⟩, hends⟩
  simp [Reading.line, htrim, h]

theorem line_empty (r : Reading) (nr : ℕ) : r.line nr [] = r := rfl

theorem line_interface (r : Reading) (nr : ℕ) (h : r.interfaces = 0) (h' : r.peers = 0) :
    r.line nr "[Interface]".toList = { r with interfaces := 1, sect := some .interface } := by
  have htrim : blankTrim "[Interface]".toList = "[Interface]".toList := by decide
  simp only [Reading.line, htrim]
  rw [if_neg (by decide), if_pos trivial, if_neg (by simp [h, h']), h]

theorem line_peer (r : Reading) (nr : ℕ) (h : r.interfaces = 1) (h' : r.peers = 0) :
    r.line nr "[Peer]".toList = { r with peers := 1, sect := some .peer } := by
  have htrim : blankTrim "[Peer]".toList = "[Peer]".toList := by decide
  simp only [Reading.line, htrim]
  rw [if_neg (by decide), if_neg (by decide), if_pos trivial, if_neg (by simp [h]), if_neg (by simp [h']), h']

/-- The fields of the interface section, with or without an address. -/
def interfaceFields (privateKey : List Char) (address : List (List Char)) (up down : List Char) :
    List (Field × List Char) :=
  (.privateKey, privateKey) :: (address.map fun a => (.address, a)) ++
    [(.mtu, "1420".toList), (.table, "off".toList), (.postUp, up), (.preDown, down)]

def peerFields (publicKey endpoint allowed : List Char) : List (Field × List Char) :=
  [(.publicKey, publicKey), (.endpoint, endpoint), (.allowedIPs, allowed),
    (.persistentKeepalive, "25".toList)]

/-- What is read of the interface section, its header on line nr. -/
def interfaceReading (nr : ℕ) (fields : List (Field × List Char)) : Reading where
  interfaces := 1
  sect := some .interface
  seen := recorded (fun _ => none) (nr + 1) fields

theorem fieldLine_eq (f : Field) (label : String) (h : label.toList = f.name.toList ++ " = ".toList)
    (v : List Char) : label.toList ++ v = fieldLine (f, v) := by
  rw [h, fieldLine, List.append_assoc]

theorem break_fieldLine {f : Field} (h : '\n' ∉ v) : '\n' ∉ fieldLine (f, v) := by
  have hname : '\n' ∉ f.name.toList := by cases f <;> decide
  exact List.not_mem_append hname (List.not_mem_append (by decide) h)

/-- Fields of a section, each once and with a value that a line can hold. -/
structure Writes (sect : Section) (fs : List (Field × List Char)) : Prop where
  nodup : (fs.map Prod.fst).Nodup
  value : ∀ p ∈ fs, p.1.sect = sect ∧ IsValue p.2 ∧ '\n' ∉ p.2

theorem Writes.no_break {sect : Section} (h : Writes sect fs) :
    ∀ l ∈ fs.map fieldLine, '\n' ∉ l := by
  intro l hl
  obtain ⟨p, hp, rfl⟩ := List.mem_map.1 hl
  exact break_fieldLine (h.value p hp).2.2

theorem writes_interface {up down : List Char}
    (hkey : IsValue privateKey ∧ '\n' ∉ privateKey) (haddress : ∀ a ∈ address, IsValue a ∧ '\n' ∉ a)
    (hone : address.length ≤ 1) (hup : IsValue up ∧ '\n' ∉ up) (hdown : IsValue down ∧ '\n' ∉ down) :
    Writes .interface (interfaceFields privateKey address up down) where
  nodup := by
    rcases address with _ | ⟨a, _ | ⟨b, _⟩⟩
    · simp [interfaceFields]
    · simp [interfaceFields]
    · simp at hone
  value p hp := by
    simp only [interfaceFields, List.cons_append, List.mem_cons, List.mem_append, List.mem_map,
      List.not_mem_nil, or_false] at hp
    rcases hp with rfl | ⟨a, ha, rfl⟩ | rfl | rfl | rfl | rfl
    · exact ⟨rfl, hkey⟩
    · exact ⟨rfl, haddress a ha⟩
    · exact ⟨rfl, .of_any (by decide) (by decide), by decide⟩
    · exact ⟨rfl, .of_any (by decide) (by decide), by decide⟩
    · exact ⟨rfl, hup⟩
    · exact ⟨rfl, hdown⟩

def IsComment (s : String) : Prop := s.toList.head? = some '#' ∧ Ends s.toList ∧ '\n' ∉ s.toList

theorem lines_comments (h : ∀ s ∈ comments, IsComment s) (r : Reading) (nr : ℕ) (rest : List (List Char)) :
    r.lines nr (comments.map String.toList ++ rest) = r.lines (nr + comments.length) rest := by
  induction comments generalizing nr with
  | nil => rfl
  | cons s comments ih =>
    rw [List.forall_mem_cons] at h
    rw [List.map_cons, List.cons_append, Reading.lines, line_comment _ _ h.1.1 h.1.2.1, ih h.2, List.length_cons,
      Nat.add_assoc, Nat.add_comm 1]

theorem read_interface {rest : List (List Char)}
    (hcomments : ∀ s ∈ comments, IsComment s) (hfs : Writes .interface fs) (hrest : ∀ l ∈ rest, '\n' ∉ l) :
    read (['\n'].intercalate
        ((comments.map String.toList ++ ("[Interface]".toList :: (fs.map fieldLine ++ rest))) ++ [[]])) =
      (interfaceReading (1 + comments.length) fs).lines (1 + comments.length + 1 + fs.length) rest := by
  have hbreak : ∀ l ∈ comments.map String.toList ++ ("[Interface]".toList :: (fs.map fieldLine ++ rest)),
      '\n' ∉ l := by
    intro l hl
    simp only [List.mem_append, List.mem_map, List.mem_cons] at hl
    rcases hl with ⟨s, hs, rfl⟩ | rfl | hl | hl
    · exact (hcomments s hs).2.2
    · decide
    · exact hfs.no_break l (List.mem_map.2 hl)
    · exact hrest l hl
  unfold TunnelConf.read
  rw [linesOf_joined (by simp) hbreak, lines_comments hcomments, Reading.lines, line_interface _ _ rfl rfl,
    lines_fields _ _ rfl (fun p hp => ⟨(hfs.value p hp).1, (hfs.value p hp).2.1, rfl⟩) hfs.nodup]
  rfl

theorem read_mullvad (privateKey publicKey host port table : List Char) (addrs : List IfaceAddr)
    {up down allowed : List Char}
    (hup : up = routeUp table ++ if addrs.any (fun a => !a.addr.is4) then routeUp6 table else [])
    (hdown : down = routeDown table ++ if addrs.any (fun a => !a.addr.is4) then routeDown6 table else [])
    (hallowed : allowed =
      if addrs.any (fun a => !a.addr.is4) then "0.0.0.0/0, ::/0".toList else "0.0.0.0/0".toList)
    (hvalues : ∀ v ∈ [privateKey, [',', ' '].intercalate (addrs.map IfaceAddr.text), up, down, publicKey,
      host ++ ':' :: port], IsValue v ∧ '\n' ∉ v) :
    read (mullvadText privateKey publicKey host port table addrs) =
      { interfaces := 1, peers := 1, sect := some .peer,
        seen := recorded (recorded (fun _ => none) 3
          (interfaceFields privateKey [[',', ' '].intercalate (addrs.map IfaceAddr.text)] up down)) 11
          (peerFields publicKey (host ++ ':' :: port) allowed) } := by
  simp only [List.forall_mem_cons, List.not_mem_nil, false_implies, implies_true, and_true] at hvalues
  obtain ⟨hkey, haddr, hupv, hdownv, hpub, hend⟩ := hvalues
  have hpeer : Writes .peer (peerFields publicKey (host ++ ':' :: port) allowed) := by
    refine ⟨by simp [peerFields], fun p hp => ?_⟩
    simp only [peerFields, List.mem_cons, List.not_mem_nil, or_false] at hp
    rcases hp with rfl | rfl | rfl | rfl
    · exact ⟨rfl, hpub⟩
    · exact ⟨rfl, hend⟩
    · rw [hallowed]
      split_ifs
      · exact ⟨rfl, ⟨⟨'0', by decide, by decide⟩, ⟨'0', by decide, by decide⟩⟩, by decide⟩
      · exact ⟨rfl, .of_any (by decide) (by decide), by decide⟩
    · exact ⟨rfl, .of_any (by decide) (by decide), by decide⟩
  have htext : mullvadText privateKey publicKey host port table addrs = ['\n'].intercalate
      ((["# Generated by molebridge prepare-config. Keep mode 0600; never commit."].map String.toList ++
        ("[Interface]".toList ::
        ((interfaceFields privateKey [[',', ' '].intercalate (addrs.map IfaceAddr.text)] up down).map fieldLine ++
          ([] :: "[Peer]".toList ::
            (peerFields publicKey (host ++ ':' :: port) allowed).map fieldLine)))) ++ [[]]) := by
    rw [mullvadText, joinLines, hup, hdown, hallowed]
    simp only [fieldLine_eq .privateKey "PrivateKey = " (by decide),
      fieldLine_eq .address "Address = " (by decide),
      fieldLine_eq .postUp "PostUp = " (by decide),
      fieldLine_eq .preDown "PreDown = " (by decide),
      fieldLine_eq .publicKey "PublicKey = " (by decide),
      fieldLine_eq .endpoint "Endpoint = " (by decide),
      fieldLine_eq .allowedIPs "AllowedIPs = " (by decide)]
    rfl
  have hcomment : ∀ s ∈ ["# Generated by molebridge prepare-config. Keep mode 0600; never commit."],
      IsComment s := List.forall_mem_singleton.2 ⟨by decide, ⟨'.', by decide, by decide⟩, by decide⟩
  rw [htext, read_interface hcomment
    (writes_interface hkey (List.forall_mem_singleton.2 haddr) le_rfl hupv hdownv) (List.forall_mem_cons.2
      ⟨by decide, List.forall_mem_cons.2 ⟨by decide, hpeer.no_break⟩⟩), Reading.lines, line_empty, Reading.lines,
    line_peer _ _ rfl rfl, ← List.append_nil ((peerFields _ _ _).map fieldLine), lines_fields _ _ rfl
      (fun p hp => ⟨(hpeer.value p hp).1, (hpeer.value p hp).2.1, ?_⟩) hpeer.nodup]
  · rfl
  · simp only [peerFields, List.mem_cons, List.not_mem_nil, or_false] at hp
    rcases hp with rfl | rfl | rfl | rfl <;> rfl

theorem read_peerless
    (hcomments : ∀ s ∈ comments, IsComment s) (hkey : IsValue privateKey ∧ '\n' ∉ privateKey)
    (haddress : ∀ a ∈ address, IsValue a ∧ '\n' ∉ a) (hone : address.length ≤ 1) (hne : table ≠ [])
    (hall : table.all Char.isDigit = true) :
    read (peerless comments privateKey (address.map fun a => "Address = ".toList ++ a) table) =
      interfaceReading (1 + comments.length)
        (interfaceFields privateKey address (routeUp table) (routeDown table)) := by
  obtain ⟨hup, hdown⟩ := routes_isValue hne hall false
  simp only [Bool.false_eq_true, if_false, List.append_nil] at hup hdown
  have htext : peerless comments privateKey (address.map fun a => "Address = ".toList ++ a) table =
      ['\n'].intercalate ((comments.map String.toList ++ ("[Interface]".toList ::
        ((interfaceFields privateKey address (routeUp table) (routeDown table)).map fieldLine ++ []))) ++ [[]]) := by
    rw [peerless, joinLines]
    simp only [fieldLine_eq .privateKey "PrivateKey = " (by decide),
      fieldLine_eq .address "Address = " (by decide),
      fieldLine_eq .postUp "PostUp = " (by decide),
      fieldLine_eq .preDown "PreDown = " (by decide),
      (by decide : "MTU = 1420".toList = fieldLine (.mtu, "1420".toList)),
      (by decide : "Table = off".toList = fieldLine (.table, "off".toList)), interfaceFields,
      List.map_append, List.map_cons, List.map_nil, List.map_map, List.append_assoc, List.cons_append,
      List.nil_append, Function.comp_def]
  rw [htext, read_interface hcomments (writes_interface hkey haddress hone hup hdown) (by simp)]
  rfl

/-! Validation -/

/-- The fields that every provider's config has, as they were read. -/
structure Common (r : Reading) (table : List Char) (has6 : Bool) (secret : List ℕ) : Prop where
  msg : r.msg = none
  interfaces : r.interfaces = 1
  privateKey : ∃ e, r.seen .privateKey = some e ∧ key e.value = some secret
  mtu : ∃ e, r.seen .mtu = some e ∧ number e.value 1280 1500 = some 1420
  off : ∃ e, r.seen .table = some e ∧ e.value = "off".toList
  postUp : ∃ e, r.seen .postUp = some e ∧ e.value = routeUp table ++ if has6 then routeUp6 table else []
  preDown : ∃ e, r.seen .preDown = some e ∧ e.value = routeDown table ++ if has6 then routeDown6 table else []

section
variable {r : Reading} {table : List Char} {has6 : Bool} {secret : List ℕ} {addr4 addr6 : Option Addr}
  (h : Common r table has6 secret) (htable : Nat.toDigits 10 (decimal table) = table)
include h htable

theorem validate_mullvad (hpeers : r.peers = 1) {address publicKey endpoint allowed : Entry}
    (haddress : r.seen .address = some address) (hpub : r.seen .publicKey = some publicKey)
    (hend : r.seen .endpoint = some endpoint) (hallowed : r.seen .allowedIPs = some allowed)
    (h6 : ∀ a4 a6, interfaceAddrs .mullvad address = .ok (a4, a6) → a6.isSome = has6) :
    validate .mullvad (decimal table) r = (interfaceAddrs .mullvad address).bind fun addrs =>
      (peerOf r has6).map fun peer =>
        ⟨.mullvad, secret, addrs.1, addrs.2, 1420, decimal table, some peer⟩ := by
  obtain ⟨_, hk, hk'⟩ := h.privateKey
  obtain ⟨_, hm, hm'⟩ := h.mtu
  obtain ⟨_, ht, ht'⟩ := h.off
  obtain ⟨_, hu, hu'⟩ := h.postUp
  obtain ⟨_, hd, hd'⟩ := h.preDown
  simp only [validate, Reading.requireAll, Reading.require, h.msg, h.interfaces, hpeers, hk, hm, ht, hu, hd,
    haddress, hpub, hend, hallowed, bind, Except.bind, hk', hm', ht', htable, ne_eq]
  rcases haddr : interfaceAddrs .mullvad address with m | ⟨a4, a6⟩
  · rfl
  · simp only [h6 a4 a6 haddr, hu', hd']
    cases peerOf r has6 <;> rfl

theorem validate_peerless {provider : TunnelConf.Provider} (hprovider : provider ≠ .mullvad) (hpeers : r.peers = 0)
    (haddress : (r.seen .address).isSome = decide (provider ≠ .pia))
    (haddr : (match r.seen .address with
      | none => .ok (none, none)
      | some e => interfaceAddrs provider e) = Except.ok (addr4, addr6)) (h6 : addr6.isSome = has6) :
    validate provider (decimal table) r =
      .ok ⟨provider, secret, addr4, addr6, 1420, decimal table, none⟩ := by
  obtain ⟨_, hk, hk'⟩ := h.privateKey
  obtain ⟨_, hm, hm'⟩ := h.mtu
  obtain ⟨_, ht, ht'⟩ := h.off
  obtain ⟨_, hu, hu'⟩ := h.postUp
  obtain ⟨_, hd, hd'⟩ := h.preDown
  have hfound : provider = .pia ∧ r.seen .address = none ∨
      provider = .nordvpn ∧ ∃ e, r.seen .address = some e := by
    cases provider with
    | mullvad => exact absurd rfl hprovider
    | pia => exact .inl ⟨rfl, by simpa using haddress⟩
    | nordvpn => exact .inr ⟨rfl, Option.isSome_iff_exists.1 (by simpa using haddress)⟩
  rcases hfound with ⟨rfl, hnone⟩ | ⟨rfl, e, hsome⟩
  · rw [hnone] at haddr
    cases haddr
    simp [validate, Reading.requireAll, Reading.require, h.msg, h.interfaces, hpeers, hk, hm, ht, hu, hd, hnone,
      bind, Except.bind, hk', hm', ht', hu', hd', h6, htable, pure, Except.pure]
  · rw [hsome] at haddr
    simp [validate, Reading.requireAll, Reading.require, h.msg, h.interfaces, hpeers, hk, hm, ht, hu, hd, hsome,
      haddr, bind, Except.bind, hk', hm', ht', hu', hd', h6, htable, pure, Except.pure]

end

theorem peerOf_eq {publicKey endpoint allowed keepalive : Entry} {pub : List ℕ} (has6 : Bool)
    (hpub : r.seen .publicKey = some publicKey) (hkey : key publicKey.value = some pub)
    (hend : r.seen .endpoint = some endpoint) (hallowed : r.seen .allowedIPs = some allowed)
    (hvalue : allowed.value = if has6 then "0.0.0.0/0, ::/0".toList else "0.0.0.0/0".toList)
    (hkeep : r.seen .persistentKeepalive = some keepalive)
    (hnumber : number keepalive.value 1 65535 = some 25) :
    peerOf r has6 = match endpointOf endpoint.value with
      | none => .error (endpoint.invalid .endpoint)
      | some ep =>
        .ok ⟨pub, ep, Prefix.default .v4 :: (if has6 then [Prefix.default .v6] else []), 25⟩ := by
  have hgot : [','].intercalate ((allowed.value.splitOn ',').map blankTrim) =
      if has6 then "0.0.0.0/0,::/0".toList else "0.0.0.0/0".toList := by
    rw [hvalue]
    cases has6 <;> decide
  simp only [peerOf, Reading.require, hpub, hend, hallowed, bind, Except.bind, hkey]
  cases endpointOf endpoint.value with
  | none => rfl
  | some ep => simp only [hgot, ne_eq, not_true_eq_false, if_false, pure, Except.pure, hkeep, hnumber]

/-! What was built -/

structure Built (conf : Parsed) (table out : List Char) (parsed : List IfaceAddr) : Prop where
  privateKey : ∃ w, requireKey (conf.iface.get "PrivateKey") "Interface PrivateKey" = .ok w
  publicKey : ∃ w, requireKey (conf.peer.get "PublicKey") "Peer PublicKey" = .ok w
  addrs : parseInterfaces (addressParts (conf.iface.get "Address")) = some parsed
  one4 : parsed.countP (fun a => a.addr.is4) = 1
  one6 : parsed.countP (fun a => !a.addr.is4) ≤ 1
  hosts : ∀ a ∈ parsed, a.bits = a.addr.bitLen
  host : ∃ h, parseAddr (splitEndpoint (conf.peer.get "Endpoint")).1 = some h ∧ h.is4 = true
  port : isPort (splitEndpoint (conf.peer.get "Endpoint")).2 = true
  low : 1 ≤ decimal (splitEndpoint (conf.peer.get "Endpoint")).2
  high : decimal (splitEndpoint (conf.peer.get "Endpoint")).2 ≤ 65535
  unreserved : checkTable table = .ok ()
  text : out = mullvadText (conf.iface.get "PrivateKey") (conf.peer.get "PublicKey")
    (splitEndpoint (conf.peer.get "Endpoint")).1 (splitEndpoint (conf.peer.get "Endpoint")).2 table parsed

theorem built (h : buildTunnelConf text table = .ok out) :
    ∃ parsed, Built (parseWireguardConf text) table out parsed := by
  unfold buildTunnelConf at h
  simp only [bind, Except.bind] at h
  rcases hkey : requireKey ((parseWireguardConf text).iface.get "PrivateKey") "Interface PrivateKey"
  · simp only [hkey, reduceCtorEq] at h
  rcases hpub : requireKey ((parseWireguardConf text).peer.get "PublicKey") "Peer PublicKey" with m | publicKey
  · simp only [hkey, hpub, reduceCtorEq] at h
  rcases hparsed : parseInterfaces (addressParts ((parseWireguardConf text).iface.get "Address"))
    with _ | parsed
  · simp only [hkey, hpub, hparsed, reduceCtorEq] at h
  simp only [hkey, hpub, hparsed] at h
  split_ifs at h with hn4 hnord hone hbits hhost hport
  rcases htable : checkTable table with m | ⟨⟩
  · simp only [htable, reduceCtorEq] at h
  simp only [htable, pure, Except.pure, Except.ok.injEq] at h
  simp only [not_or, Nat.not_lt, Bool.not_eq_true', Bool.not_eq_false] at hone hport
  obtain ⟨rfl, -⟩ := key_of_requireKey hkey
  obtain ⟨rfl, -⟩ := key_of_requireKey hpub
  refine ⟨parsed, ⟨_, hkey⟩, ⟨_, hpub⟩, hparsed, by omega, hone.2, by simpa using hbits, ?_, hport.1, hport.2.1,
    hport.2.2, htable, h.symm⟩
  rcases hp : parseAddr (splitEndpoint ((parseWireguardConf text).peer.get "Endpoint")).1 with _ | a
  · rw [hp] at hhost
    exact absurd rfl hhost
  · rw [hp] at hhost
    exact ⟨a, rfl, by simpa using hhost⟩

theorem parse_built {conf : Parsed} {parsed : List IfaceAddr}
    (b : Built conf table out parsed) : ∃ secret pub h,
      Base64.decode (conf.iface.get "PrivateKey") = some secret ∧
      Base64.decode (conf.peer.get "PublicKey") = some pub ∧
      parseAddr (splitEndpoint (conf.peer.get "Endpoint")).1 = some h ∧
      parse out .mullvad (decimal table) =
        (interfaceAddrs .mullvad ⟨4, [',', ' '].intercalate (parsed.map IfaceAddr.text)⟩).bind
          fun addrs => if (splitEndpoint (conf.peer.get "Endpoint")).2.head? = some '0'
            then .error ((⟨12, []⟩ : Entry).invalid .endpoint)
            else .ok ⟨.mullvad, secret, addrs.1, addrs.2, 1420, decimal table, some
              ⟨pub, (h, decimal (splitEndpoint (conf.peer.get "Endpoint")).2), Prefix.default .v4 ::
                (if parsed.any (fun a => !a.addr.is4) then [Prefix.default .v6] else []), 25⟩⟩ := by
  obtain ⟨w, hw⟩ := b.privateKey
  obtain ⟨_, hw'⟩ := b.publicKey
  obtain ⟨-, hkeyv, hkeyb, secret, hkey, hsecret⟩ := key_of_requireKey hw
  obtain ⟨-, hpubv, hpubb, pub, hpub, hpub'⟩ := key_of_requireKey hw'
  obtain ⟨h, hparse, hh4⟩ := b.host
  obtain ⟨htable, hne, hall⟩ := table_text b.unreserved
  have hroutes := routes_isValue hne hall (parsed.any fun a => !a.addr.is4)
  refine ⟨secret, pub, h, hsecret, hpub', hparse, ?_⟩
  have hread := read_mullvad (conf.iface.get "PrivateKey") (conf.peer.get "PublicKey")
    (splitEndpoint (conf.peer.get "Endpoint")).1 (splitEndpoint (conf.peer.get "Endpoint")).2 table parsed
    rfl rfl rfl (by
      simp only [List.forall_mem_cons, List.not_mem_nil, false_implies, implies_true, and_true]
      exact ⟨⟨hkeyv, hkeyb⟩, addresses_isValue b.one4 b.one6 b.hosts, hroutes.1, hroutes.2, ⟨hpubv, hpubb⟩,
        endpoint_isValue hparse hh4 b.port⟩)
  rw [← b.text] at hread
  have hcommon : Common (TunnelConf.read out) table (parsed.any fun a => !a.addr.is4) secret := by
    rw [hread]
    exact ⟨rfl, rfl, ⟨_, rfl, hkey⟩, ⟨_, rfl, by decide⟩, ⟨_, rfl, rfl⟩, ⟨_, rfl, rfl⟩, ⟨_, rfl, rfl⟩⟩
  have h6 : ∀ a4 a6, interfaceAddrs .mullvad ⟨4, [',', ' '].intercalate (parsed.map IfaceAddr.text)⟩ =
      .ok (a4, a6) → a6.isSome = parsed.any fun a => !a.addr.is4 := by
    intro a4 a6 hok
    by_cases hplain : ∀ a ∈ parsed, a.addr.is4In6 = false
    · obtain ⟨_, _, haddrs, -, hsome⟩ := interfaceAddrs_plain b.one4 b.one6 b.hosts hplain 4
      rw [haddrs] at hok
      cases hok
      exact hsome.symm
    · push Not at hplain
      obtain ⟨a, ha, hmap⟩ := hplain
      obtain ⟨m, hm⟩ := interfaceAddrs_mapped b.one4 b.one6 b.hosts ha (by simpa using hmap) 4
      rw [hm] at hok
      cases hok
  have hpeer := peerOf_eq (r := TunnelConf.read out) (parsed.any fun a => !a.addr.is4)
    (by rw [hread]; rfl) hpub (by rw [hread]; rfl) (by rw [hread]; rfl) rfl (by rw [hread]; rfl) (by decide)
  rw [endpointOf_eq hparse hh4 b.port b.low b.high] at hpeer
  rw [parse, validate_mullvad hcommon htable (by rw [hread]) (by rw [hread]; rfl) (by rw [hread]; rfl)
    (by rw [hread]; rfl) (by rw [hread]; rfl) h6, hpeer]
  congr 1
  split_ifs <;> rfl

theorem parse_peerless (comments : List String) {privateKey table w : List Char} (address : List (List Char))
    {field : String} {provider : TunnelConf.Provider} (addr4 : Option Addr)
    (hcomments : ∀ s ∈ comments, IsComment s) (hkey : requireKey privateKey field = .ok w) (htable : checkTable table = .ok ())
    (hprovider : provider ≠ .mullvad) (haddress : ∀ a ∈ address, IsValue a ∧ '\n' ∉ a)
    (hone : address.length = if provider = .pia then 0 else 1)
    (haddr : ∀ nr, (match address with
      | [] => .ok (none, none)
      | a :: _ => interfaceAddrs provider ⟨nr, a⟩) = Except.ok (addr4, none)) :
    ∃ secret, Base64.decode privateKey = some secret ∧
      parse (peerless comments privateKey (address.map fun a => "Address = ".toList ++ a) table) provider
        (decimal table) = .ok ⟨provider, secret, addr4, none, 1420, decimal table, none⟩ := by
  obtain ⟨-, hkeyv, hkeyb, secret, hsecret, hdecode⟩ := key_of_requireKey hkey
  obtain ⟨htext, hne, hall⟩ := table_text htable
  refine ⟨secret, hdecode, ?_⟩
  have hread := read_peerless hcomments ⟨hkeyv, hkeyb⟩ haddress (by split_ifs at hone <;> omega) hne hall
  have hmtu : number "1420".toList 1280 1500 = some 1420 := by decide
  rw [parse, hread]
  rcases address with _ | ⟨a, _ | ⟨_, _⟩⟩
  · have hpia : provider = .pia := by
      by_contra hnot
      simp [hnot] at hone
    subst hpia
    have hcommon : Common (interfaceReading (1 + comments.length)
        (interfaceFields privateKey [] (routeUp table) (routeDown table))) table false secret :=
      ⟨rfl, rfl, ⟨_, rfl, hsecret⟩, ⟨_, rfl, hmtu⟩, ⟨_, rfl, rfl⟩, ⟨_, rfl, by simp⟩, ⟨_, rfl, by simp⟩⟩
    exact validate_peerless hcommon htext hprovider rfl rfl (haddr 0) rfl
  · have hpia : provider ≠ .pia := by
      rintro rfl
      cases hone
    have hcommon : Common (interfaceReading (1 + comments.length)
        (interfaceFields privateKey [a] (routeUp table) (routeDown table))) table false secret :=
      ⟨rfl, rfl, ⟨_, rfl, hsecret⟩, ⟨_, rfl, hmtu⟩, ⟨_, rfl, rfl⟩, ⟨_, rfl, by simp⟩, ⟨_, rfl, by simp⟩⟩
    exact validate_peerless hcommon htext hprovider rfl (by simp [hpia]; rfl) (haddr _) rfl
  · split_ifs at hone
    cases hone

theorem mullvad_accepted (h : buildTunnelConf text table = .ok out) :
    (∃ conf, parse out .mullvad (decimal table) = .ok conf ∧ (Source.mullvad text).given.isIn conf) ↔
      (Source.mullvad text).plain = true := by
  obtain ⟨parsed, b⟩ := built h
  obtain ⟨_, _, a, hsecret, hpub, ha, hparse⟩ := parse_built b
  have haddrs : givenAddrs ((parseWireguardConf text).iface.get "Address") = parsed.map IfaceAddr.addr := by
    rw [givenAddrs, b.addrs, Option.getD_some]
  have hplain : (Source.mullvad text).plain = true ↔
      (splitEndpoint ((parseWireguardConf text).peer.get "Endpoint")).2.head? ≠ some '0' ∧
        ∀ a ∈ parsed, a.addr.is4In6 = false := by
    simp [Source.plain, haddrs]
  rw [hplain]
  constructor
  · rintro ⟨_, hconf, -⟩
    rw [hparse] at hconf
    rcases hres : interfaceAddrs .mullvad ⟨4, [',', ' '].intercalate (parsed.map IfaceAddr.text)⟩ with m | addrs
    · rw [hres] at hconf
      cases hconf
    · rw [hres] at hconf
      refine ⟨fun hzero => ?_, fun x hx => ?_⟩
      · simp only [Except.bind, hzero, if_true, reduceCtorEq] at hconf
      · by_contra hmap
        obtain ⟨m, hm⟩ := interfaceAddrs_mapped b.one4 b.one6 b.hosts hx (by simpa using hmap) 4
        rw [hm] at hres
        cases hres
  · rintro ⟨hzero, hmap⟩
    obtain ⟨_, _, hres, hperm, -⟩ := interfaceAddrs_plain b.one4 b.one6 b.hosts hmap 4
    rw [hparse, hres]
    simp only [if_neg hzero]
    refine ⟨_, rfl, hsecret, ?_, ?_⟩
    · rw [Source.given, haddrs]
      simpa using hperm
    · simp [Source.given, hpub, ha]

theorem nordvpn_accepted (h : buildNordVPNTunnelConf text table = .ok out) :
    ∃ conf, parse out .nordvpn (decimal table) = .ok conf ∧ (Source.nordvpn text).given.isIn conf := by
  unfold buildNordVPNTunnelConf at h
  simp only [bind, Except.bind] at h
  rcases hkey : requireKey ((parseWireguardConf text).iface.get "PrivateKey") "Interface PrivateKey"
  · simp only [hkey, reduceCtorEq] at h
  rcases hparts : addressParts ((parseWireguardConf text).iface.get "Address") with _ | ⟨part, _ | ⟨p, _⟩⟩
  · simp only [hkey, hparts, reduceCtorEq] at h
  · simp only [hkey, hparts] at h
    split_ifs at h with hhost
    rcases hpart : parseInterface part with _ | a
    · rw [hpart] at hhost
      exact absurd rfl hhost
    have ha : a.addr = nordHost := by simpa [hpart] using hhost
    obtain ⟨rfl, -⟩ := key_of_requireKey hkey
    simp only [buildNordConf, bind, Except.bind] at h
    rcases hkey' : requireKey ((parseWireguardConf text).iface.get "PrivateKey") "PrivateKey" with m | w
    · simp only [hkey', reduceCtorEq] at h
    rcases htable : checkTable table with m | ⟨⟩
    · simp only [hkey', htable, reduceCtorEq] at h
    simp only [hkey', htable, pure, Except.pure, Except.ok.injEq] at h
    obtain ⟨_, hsecret, hparse⟩ := parse_peerless
      ["# Generated by molebridge " ++ "prepare-config --nordvpn" ++ ". Keep mode 0600; never commit.",
        "# No peer: the applier sets it when a server is chosen."]
      ["10.5.0.2/32".toList] (some nordHost)
      (by
        simp only [List.forall_mem_cons, List.not_mem_nil, false_implies, implies_true, and_true]
        exact ⟨⟨by decide, ⟨'.', by decide, by decide⟩, by decide⟩,
          ⟨by decide, ⟨'.', by decide, by decide⟩, by decide⟩⟩)
      hkey htable (by decide : TunnelConf.Provider.nordvpn ≠ .mullvad)
      (by
        rw [List.forall_mem_singleton]
        exact ⟨.of_any (by decide) (by decide), by decide⟩)
      rfl (fun _ => rfl)
    have hline : ["Address = 10.5.0.2/32".toList] =
        ["10.5.0.2/32".toList].map fun a => "Address = ".toList ++ a := by decide
    rw [← h, hline, hparse]
    refine ⟨_, rfl, hsecret, ?_, rfl⟩
    simp [Source.given, givenAddrs, hparts, parseInterfaces, hpart, ha]
  · simp only [hkey, hparts, reduceCtorEq] at h

theorem pia_accepted (h : buildPIAConf privateKey table = .ok out) :
    ∃ conf, parse out .pia (decimal table) = .ok conf ∧ (Source.pia privateKey).given.isIn conf := by
  simp only [buildPIAConf, bind, Except.bind] at h
  rcases hkey : requireKey privateKey "PrivateKey" with m | w
  · simp only [hkey, reduceCtorEq] at h
  rcases htable : checkTable table with m | ⟨⟩
  · simp only [hkey, htable, reduceCtorEq] at h
  simp only [hkey, htable, pure, Except.pure, Except.ok.injEq] at h
  obtain ⟨_, hsecret, hparse⟩ := parse_peerless
    ["# Generated by molebridge prepare-config --pia. Keep mode 0600; never commit.",
      "# No tunnel address or peer: the applier sets both when it registers this key with PIA."]
    [] none
    (by
      simp only [List.forall_mem_cons, List.not_mem_nil, false_implies, implies_true, and_true]
      exact ⟨⟨by decide, ⟨'.', by decide, by decide⟩, by decide⟩,
        ⟨by decide, ⟨'.', by decide, by decide⟩, by decide⟩⟩)
    hkey htable (by decide : TunnelConf.Provider.pia ≠ .mullvad) (by simp) rfl (fun _ => rfl)
  rw [List.map_nil] at hparse
  rw [← h, hparse]
  exact ⟨_, rfl, hsecret, .refl _, rfl⟩

/-- Every built config is accepted, with what was given, unless it is a Mullvad one with a port that
has a leading zero or with an IPv6 address that maps an IPv4 one. -/
theorem prepared_accepted {src : Source} {table out : List Char} (h : src.build table = .ok out) :
    (∃ conf, parse out src.provider (decimal table) = .ok conf ∧ src.given.isIn conf) ↔ src.plain = true := by
  cases src with
  | mullvad text => exact mullvad_accepted h
  | nordvpn text => exact iff_of_true (nordvpn_accepted h) rfl
  | pia privateKey => exact iff_of_true (pia_accepted h) rfl

def downloaded (address port : String) : List Char :=
  "[Interface]\nPrivateKey = ".toList ++ List.replicate 43 'A' ++ "=\nAddress = ".toList ++ address.toList ++
    "\n[Peer]\nPublicKey = ".toList ++ List.replicate 43 'A' ++ "=\nEndpoint = 192.0.2.1:".toList ++ port.toList

/-- Both families, and a port of five digits. -/
theorem prepared_accepted_both : ∃ out, (Source.mullvad (downloaded "10.64.0.1/32, fc00::1" "51820")).build
      "51821".toList = .ok out ∧
    ∃ conf, parse out .mullvad (decimal "51821".toList) = .ok conf ∧
      (Source.mullvad (downloaded "10.64.0.1/32, fc00::1" "51820")).given.isIn conf := by
  have hsome : ((Source.mullvad (downloaded "10.64.0.1/32, fc00::1" "51820")).build
      "51821".toList).toOption.isSome = true := by decide +kernel
  rcases hbuild : (Source.mullvad (downloaded "10.64.0.1/32, fc00::1" "51820")).build "51821".toList with m | out
  · rw [hbuild] at hsome
    cases hsome
  · exact ⟨out, rfl, (prepared_accepted hbuild).2 (by decide +kernel)⟩

/-- What build makes of an input, and whether the exit then refuses it. -/
def Source.refused (table : List Char) (src : Source) : Bool :=
  match src.build table with
  | .error _ => false
  | .ok out => (parse out src.provider (decimal table)).toOption.isNone

/-- A port with a leading zero, and an IPv4-mapped address: both are built, and then refused. -/
theorem prepared_refused :
    (Source.mullvad (downloaded "10.64.0.1/32" "05182")).refused "51821".toList = true ∧
    (Source.mullvad (downloaded "10.64.0.1/32, ::ffff:192.0.2.9" "51820")).refused "51821".toList = true := by
  decide +kernel

end Molebridge.PrepareConfig
