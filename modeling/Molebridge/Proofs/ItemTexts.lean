import Molebridge.Proofs.AddedRules
import Molebridge.Proofs.AddrTexts

/-! Items are compared as texts: what each text stands for, and that a rule with the texts
of an expected rule is that rule in all but its bookkeeping. -/

namespace Molebridge

open TunnelConf Addr

/-! ### Numbers -/

theorem digits_inj {m n : ℕ} (h : Nat.toDigits 10 m = Nat.toDigits 10 n) : m = n := by
  have hread : ∀ k, Nat.ofDigitChars 10 (Nat.toDigits 10 k) 0 = k := fun k =>
    Nat.ofDigitChars_toDigits (by decide) le_rfl
  rw [← hread m, h, hread n]

theorem toString_inj {m n : ℕ} (h : toString m = toString n) : m = n :=
  digits_inj (by simpa using congrArg String.toList h)

theorem hexText_inj {m n : ℕ} (h : hexText m = hexText n) : m = n := by
  have hdigits : Nat.toDigits 16 m = Nat.toDigits 16 n := String.ofList_injective h
  exact Option.some.inj ((hexValue_toDigits m).symm.trans (hdigits ▸ hexValue_toDigits n))

/-! ### Addresses and prefixes -/

theorem dotted_inj {v w : ℕ} (hv : v < 2 ^ 32) (hw : w < 2 ^ 32) (h : dotted v = dotted w) : v = w := by
  have hv' : v4 (dotted v).toList = some ⟨.v4, v, hv⟩ := v4_text (a := ⟨.v4, v, hv⟩) rfl
  have hw' : v4 (dotted w).toList = some ⟨.v4, w, hw⟩ := v4_text (a := ⟨.v4, w, hw⟩) rfl
  rw [h, hw'] at hv'
  exact (congrArg Addr.val (Option.some.inj hv')).symm

/-- The two readers read a text back, unless it is of an address that maps an IPv4 one. -/
theorem readers_text (a : Addr) :
    (v4 a.text.toList).or (v6 a.text.toList) = if a.is4In6 then none else some a := by
  by_cases h4 : a.is4 = true
  · simp [v4_text h4, is4In6, h4]
  · rw [Bool.not_eq_true] at h4
    cases hmap : a.is4In6 with
    | true => simp [v4_text_mapped hmap, v6_text_mapped hmap]
    | false => simp [v4_text_v6 h4 hmap, v6_text h4 hmap]

theorem Addr.text_inj {a b : Addr} (h : a.text = b.text) : a = b := by
  have hread := (readers_text a).symm.trans (h ▸ readers_text b)
  split_ifs at hread with ha hb hb
  · have hdot := (text_mapped ha).symm.trans ((congrArg String.toList h).trans (text_mapped hb))
    have hlow := dotted_inj (Nat.mod_lt _ (by decide)) (Nat.mod_lt _ (by decide))
      (String.toList_injective (List.append_cancel_left hdot))
    simp only [is4In6, Bool.and_eq_true, Bool.not_eq_true', beq_iff_eq] at ha hb
    refine Addr.ext ((fam_of_not_is4 ha.1).trans (fam_of_not_is4 hb.1).symm) ?_
    omega
  · exact Option.some.inj hread

theorem Prefix.text_toList (p : Prefix) :
    p.text.toList = p.addr.text.toList ++ '/' :: Nat.toDigits 10 p.bits := by
  simp [Prefix.text]

theorem Prefix.text_inj {p q : Prefix} (h : p.text = q.text) : p = q := by
  have hslash : '/' ∉ p.addr.text.toList := by
    intro hmem
    rcases mem_text hmem with h | h | h <;> revert h <;> decide
  have hlist := congrArg String.toList h
  rw [p.text_toList, q.text_toList] at hlist
  obtain ⟨haddr, -, hbits⟩ := (List.append_cons_inj_of_notMem hslash (not_mem_toDigits (by decide) _)).1 hlist
  obtain ⟨a, n, _⟩ := p
  obtain ⟨b, m, _⟩ := q
  obtain rfl : a = b := Addr.text_inj (String.toList_injective haddr)
  obtain rfl : n = m := digits_inj hbits
  rfl

/-! ### Items -/

namespace Item

def words : List String :=
  ["not", "from", "to", "tos", "fwmark", "iif", "oif", "ipproto", "l3mdev", "suppress_prefixlength",
    "suppress_ifgroup", "lookup", "goto", "nop", "blackhole", "unreachable", "prohibit", "action", "table",
    "flags", "attr", "bad"]

def place : Item → Fin 22
  | inverted => 0
  | srcAll => 1
  | src _ => 1
  | dst _ => 2
  | tos _ => 3
  | fwmark _ _ => 4
  | iif _ => 5
  | oif _ => 6
  | ipproto _ => 7
  | l3mdev _ => 8
  | suppressPrefixLen _ => 9
  | suppressIfGroup _ => 10
  | lookup _ => 11
  | gotoTo _ => 12
  | gotoNone => 12
  | nop => 13
  | blackhole => 14
  | unreachable => 15
  | prohibit => 16
  | action _ => 17
  | table _ => 18
  | flags _ => 19
  | attr _ => 20
  | bad => 21

theorem words_nodup : words.Nodup := by decide +kernel

theorem fwmark_text (mark mask : BitVec 32) : (fwmark mark mask).text =
    "fwmark 0x" ++ (hexText mark.toNat ++ if mask = 0xffffffff then "" else "/0x" ++ hexText mask.toNat) := by
  by_cases hm : mask = 0xffffffff
  · exact (if_pos hm).trans (by rw [if_pos hm, String.append_empty])
  · exact (if_neg hm).trans (by rw [if_neg hm]; simp only [String.append_assoc])

theorem word_text (i : Item) : i.text.toList.takeWhile (· ≠ ' ') = (words.get i.place).toList := by
  cases i with
  | fwmark mark mask =>
    rw [fwmark_text]
    simp [words, place]
  | _ =>
    unfold text
    simp [words, place]

theorem fwmark_inj {m k m' k' : BitVec 32} (h : (fwmark m k).text = (fwmark m' k').text) : fwmark m k = fwmark m' k' := by
  simp only [fwmark_text, String.append_right_inj] at h
  have hcut : ∀ m k : BitVec 32, (hexText m.toNat ++ if k = 0xffffffff then "" else "/0x" ++ hexText k.toNat).toList.takeWhile
      (· ≠ '/') = (hexText m.toNat).toList := by
    intro m k
    rw [String.toList_append, List.takeWhile_append_of_pos]
    · split_ifs <;> simp
    · intro c hc
      obtain ⟨d, hd, rfl⟩ := mem_toDigits_hex (by simpa [hexText] using hc)
      exact (by decide : ∀ d < 16, decide (Nat.digitChar d ≠ '/') = true) d hd
  have hmark := (hcut m k).symm.trans ((congrArg (fun t : String => t.toList.takeWhile (· ≠ '/')) h).trans (hcut m' k'))
  obtain rfl : m = m' := BitVec.eq_of_toNat_eq (hexText_inj (String.toList_injective hmark))
  rw [String.append_right_inj] at h
  split_ifs at h with hk hk' hk'
  · rw [hk, hk']
  · simp at h
  · simp at h
  · rw [BitVec.eq_of_toNat_eq (hexText_inj ((String.append_right_inj _).1 h))]

theorem protoName_inj {p q : BitVec 8} (h : protoName p = protoName q) : p = q := by
  have hword : ∀ n : ℕ, "icmp" ≠ toString n ∧ "ipv6-icmp" ≠ toString n := by
    intro n
    have hdigits : 'i' ∉ (toString n).toList := by simpa using not_mem_toDigits (by decide) n
    exact ⟨fun h => hdigits (h ▸ by decide), fun h => hdigits (h ▸ by decide)⟩
  unfold protoName at h
  split_ifs at h with hp hq hq hp' hq hq hq hq
  · rw [hp, hq]
  · exact absurd h (by decide)
  · exact absurd h (hword _).1
  · exact absurd h (by decide)
  · rw [hp', hq]
  · exact absurd h (hword _).2
  · exact absurd h.symm (hword _).1
  · exact absurd h.symm (hword _).2
  · exact BitVec.eq_of_toNat_eq (toString_inj h)

theorem text_inj {i j : Item} (hj : ∀ a, j ≠ .attr a) (h : i.text = j.text) : i = j := by
  have hplace : i.place = j.place := by
    refine (List.nodup_iff_injective_get.1 words_nodup) ?_
    rw [← String.toList_inj, ← word_text, ← word_text, h]
  have hall : ∀ p : Prefix, "from all" ≠ "from " ++ p.text := by
    intro p hp
    have := congrArg (fun t : String => '/' ∈ t.toList) hp
    simp [p.text_toList] at this
  have hgoto : ∀ n : ℕ, "goto" ≠ "goto " ++ toString n := by
    intro n hn
    simpa using congrArg String.toList hn
  -- one word means one constructor, but for a source and for a goto
  cases i <;> cases j <;> try exact absurd (congrArg Fin.val hplace) (Nat.ne_of_beq_eq_false rfl)
  all_goals first
    | rfl
    | exact absurd h (hall _)
    | exact absurd h.symm (hall _)
    | exact absurd h (hgoto _)
    | exact absurd h.symm (hgoto _)
    | exact absurd rfl (hj _)
    | exact fwmark_inj h
    | skip
  all_goals
    unfold text at h
    simp only [String.append_right_inj] at h
    first
      | exact congrArg _ h
      | exact congrArg _ (Prefix.text_inj h)
      | exact congrArg _ (toString_inj h)
      | exact congrArg _ (BitVec.eq_of_toNat_eq (toString_inj h))
      | exact congrArg _ (BitVec.eq_of_toNat_eq (hexText_inj h))
      | exact congrArg _ (protoName_inj h)

end Item

/-! ### Rules -/

theorem mem_itemTexts (r : Rule) (t : String) : t ∈ r.itemTexts ↔ ∃ i ∈ r.items, i.text = t := by
  simp [Rule.itemTexts]

theorem equalItems_of_texts {a e : Rule} (hu : e.unknown = []) (h : a.itemTexts = e.itemTexts) :
    equalItems a.items e.items = true := by
  have hattr : ∀ i ∈ e.items, ∀ x, i ≠ .attr x := by
    rintro _ hi x rfl
    rw [Rule.mem_items_of_selector _ rfl] at hi
    simp [Rule.HasItem, hu] at hi
  rw [equalItems_iff]
  intro i
  constructor
  · intro hi
    obtain ⟨j, hj, htext⟩ := (mem_itemTexts e i.text).1 (h ▸ (mem_itemTexts a _).2 ⟨i, hi, rfl⟩)
    exact Item.text_inj (hattr j hj) htext.symm ▸ hj
  · intro hi
    obtain ⟨j, hj, htext⟩ := (mem_itemTexts a i.text).1 (h ▸ (mem_itemTexts e _).2 ⟨i, hi, rfl⟩)
    exact Item.text_inj (hattr i hi) htext ▸ hj

/-- A rule with the items of an expected one, whatever installed it, takes the packets the
expected one takes and does with them what that does. -/
theorem equal_items_behave (s : Spec) (f : Family) (a e : Rule) (he : e ∈ s.rules f) (h : a.itemTexts = e.itemTexts) :
    (∀ p : Packet, ruleMatches a p = ruleMatches e p) ∧ a.action = e.action ∧ a.table = e.table ∧
      a.goto = e.goto ∧ a.suppressPrefixLen = e.suppressPrefixLen ∧ a.suppressIfGroup = e.suppressIfGroup := by
  have hadded := addedRule_of_mem (mem_rules he).2
  have hgoto := hadded.goto
  have hu : e.unknown = [] := by cases hadded <;> rfl
  have hitems := equalItems_of_texts hu h
  exact ⟨Rule.ruleMatches_eq hitems hu, Rule.action_eq hitems hgoto, Rule.table_eq hitems hgoto,
    (Rule.goto_eq hitems hgoto).trans hgoto.symm, Rule.suppressPrefixLen_eq hitems, Rule.suppressIfGroup_eq hitems⟩

/-- A native overlay, whose rule 97 rejects what comes in on wt0. -/
def rejectingSpec : Spec :=
  { config := { kind := .overlay, backend := .native, overlayIf := "wt0", exitIf := "wg0", table := 7 } }

/-- Rule 97 as the kernel shows it: with its installer, and a mask of zero that selects nothing. -/
theorem equal_items_behave_dumped :
    let e : Rule := { rejectRule prioIngressReject .v4 with iifName := "wt0" }
    let a : Rule := { e with protocol := some 3, fwMask := some 0, flags := fibRuleIifDetached }
    e ∈ rejectingSpec.rules .v4 ∧ a ≠ e ∧ ∀ p : Packet, ruleMatches a p = ruleMatches e p :=
  ⟨by decide, by decide, (equal_items_behave rejectingSpec .v4 _ _ (by decide)
    (congrArg (fun l : List Item => ((l.map Item.text).dedup).insertionSort fun a b => ¬ b < a) (by decide))).1⟩

end Molebridge
