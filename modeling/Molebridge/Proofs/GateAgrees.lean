import Molebridge.Proofs.Laid

/-! The profile gate agrees with the reader it protects: what profileVerdict and
CheckBlacklist accept decodes, by the rules of encoding/json, to what they checked. -/

namespace Molebridge.NbProfile

open Utf8
open Rfc8259 hiding isDigit hex4
open GoJson (Profile Decodes isField decoded intoBool intoString intoStrings decodeMember)

variable {pieces : List Piece} {after data overlayIF tunnelIF : List ℕ} {entries : List (List ℕ)}
  {spans : List Span} {st : ListState}

/-! ### A recorded member and its piece -/

structure Tells (p : Piece) (m : Member) : Prop where
  key : Shown p.name m.key
  plain : m.plain = p.name.all printable
  kind : m.kind = kindOf p.slot.tree
  strOf : StrOf p.slot.tree m.str m.strPlain
  value : ∃ rest, m.valStart = p.slot.value ++ rest

variable {p : Piece} {m : Member} {field name raw : List ℕ} {root : RootInfo} {dupAny : Bool}

theorem Placed.tells {next : List ℕ} (h : Placed p m next) : Tells p m := by
  obtain ⟨_, hchars, hbody⟩ := p.isBody
  obtain ⟨_, hshown, hread⟩ := str_complete hchars
  have hkey := h.key
  rw [hbody, hread] at hkey
  simp only [Option.some.injEq, Prod.mk.injEq] at hkey
  exact ⟨hkey.1 ▸ hshown, hkey.2.1.symm, h.kind, h.strOf, _, h.valStart⟩

theorem Laid.tells {members : List Member} (h : Laid pieces after members) :
    List.Forall₂ Tells pieces members := by
  induction h with
  | none => exact .nil
  | last hplaced => exact .cons hplaced.tells .nil
  | more hplaced _ ih => exact .cons hplaced.tells ih

/-! ### Names -/

theorem fold_ascii {c : ℕ} (h : c < 0x80) :
    (if 0x41 ≤ GoJson.foldRune c ∧ GoJson.foldRune c ≤ 0x5A then GoJson.foldRune c + 0x20 else GoJson.foldRune c) =
      (if 0x41 ≤ c ∧ c ≤ 0x5A then c + 0x20 else c) ∧
    GoJson.foldRune (if 0x41 ≤ c ∧ c ≤ 0x5A then c + 0x20 else c) = GoJson.foldRune c := by
  unfold GoJson.foldRune
  constructor
  · split_ifs <;> omega
  · split_ifs <;> omega

theorem asciiLower_fold {s : List ℕ} (h : ∀ c ∈ s, c < 0x80) :
    asciiLower (s.map GoJson.foldRune) = asciiLower s ∧ (asciiLower s).map GoJson.foldRune = s.map GoJson.foldRune := by
  unfold asciiLower
  rw [List.map_map, List.map_map]
  exact ⟨List.map_congr_left fun c hc => (fold_ascii (h c hc)).1, List.map_congr_left fun c hc => (fold_ascii (h c hc)).2⟩

theorem isField_plain (hfield : ∀ c ∈ field, c < 0x80) (hname : name.all printable = true) :
    isField field name = (asciiLower name == asciiLower field) := by
  have hprint : ∀ c ∈ name, printable c = true := List.all_eq_true.1 hname
  have hascii : ∀ c ∈ name, c < 0x80 := fun c hc => by
    have := printable_iff.1 (hprint c hc)
    omega
  have hrune : name.map GoJson.rune = name := by
    refine (List.map_congr_left fun c hc => ?_).trans (List.map_id name)
    refine if_neg fun hs => ?_
    have := hs.1
    have := hascii c hc
    omega
  rw [isField, hrune, Bool.eq_iff_iff, beq_iff_eq, beq_iff_eq]
  constructor
  · intro h
    rw [← (asciiLower_fold hascii).1, h, (asciiLower_fold hfield).1]
  · intro h
    rw [← (asciiLower_fold hascii).2, h, (asciiLower_fold hfield).2]

theorem Tells.named (h : Tells p m) (hplain : m.plain = true)
    (hfield : ∀ c ∈ field, c < 0x80) : m.named (asciiLower field) = isField field p.name := by
  have hname : p.name.all printable = true := h.plain ▸ hplain
  rw [Member.named, hplain, Bool.true_and, h.key.eq_of_plain hname, isField_plain hfield hname]

theorem lookup_pieces (h : List.Forall₂ Tells pieces root.members)
    (hplain : root.hasNonPlainKey = false) (hfield : ∀ c ∈ field, c < 0x80) :
    List.Forall₂ Tells (pieces.filter fun p => isField field p.name) (root.lookup (asciiLower field)) := by
  have hall : ∀ m ∈ root.members, m.plain = true := by
    intro m hm
    have := List.any_eq_false.1 hplain m hm
    simpa using this
  have hboth : List.Forall₂ (fun p m => Tells p m ∧ m.plain = true) pieces root.members := by
    refine List.forall₂_iff_get.2 ⟨h.length_eq, fun i h₁ h₂ => ⟨h.get h₁ h₂, hall _ (List.get_mem _ _)⟩⟩
  have hfilter := List.rel_filter (q := Member.named (asciiLower field))
    (fun p m hpm => by dsimp only; rw [hpm.1.named hpm.2 hfield]) hboth
  exact hfilter.imp fun _ _ hpm => hpm.1

/-! ### Decoding -/

theorem isField_ne {other : List ℕ} (hne : field.map GoJson.foldRune ≠ other.map GoJson.foldRune)
    (h : isField field name = true) : isField other name = false := by
  rw [isField, beq_iff_eq] at h
  rw [isField, h]
  exact beq_eq_false_iff_ne.2 hne

theorem fold_rosenpassEnabled (ms : List (List ℕ × Tree)) (p : Profile) :
    (ms.foldl decodeMember p).rosenpassEnabled =
      (ms.filter fun m => isField GoJson.rosenpassEnabledField m.1).foldl (fun b m => intoBool b m.2) p.rosenpassEnabled := by
  induction ms generalizing p with
  | nil => rfl
  | cons m ms ih =>
    rw [List.foldl_cons, ih, List.filter_cons]
    unfold decodeMember
    split_ifs <;> rfl

theorem fold_wgIface (ms : List (List ℕ × Tree)) (p : Profile) :
    (ms.foldl decodeMember p).wgIface =
      (ms.filter fun m => isField GoJson.wgIfaceField m.1).foldl (fun s m => intoString s m.2) p.wgIface := by
  induction ms generalizing p with
  | nil => rfl
  | cons m ms ih =>
    rw [List.foldl_cons, ih, List.filter_cons]
    unfold decodeMember
    by_cases hrosen : isField GoJson.rosenpassEnabledField m.1 = true
    · rw [if_pos hrosen, isField_ne (by decide) hrosen]
      rfl
    · split_ifs <;> rfl

theorem fold_ifaceBlackList (ms : List (List ℕ × Tree)) (p : Profile) :
    (ms.foldl decodeMember p).ifaceBlackList =
      (ms.filter fun m => isField GoJson.ifaceBlackListField m.1).foldl (fun l m => intoStrings l m.2) p.ifaceBlackList := by
  induction ms generalizing p with
  | nil => rfl
  | cons m ms ih =>
    rw [List.foldl_cons, ih, List.filter_cons]
    unfold decodeMember
    by_cases hrosen : isField GoJson.rosenpassEnabledField m.1 = true
    · rw [if_pos hrosen, isField_ne (by decide) hrosen]
      rfl
    · rw [if_neg hrosen]
      by_cases hwg : isField GoJson.wgIfaceField m.1 = true
      · rw [if_pos hwg, isField_ne (by decide) hwg]
        rfl
      · split_ifs <;> rfl

/-! ### Accepted texts -/

theorem scan_root (h : scan data dupAny = .ok root) :
    ∃ dup, valid data = true ∧ scanRoot data = some (root, dup) := by
  unfold scan at h
  split_ifs at h with hbad
  cases hroot : scanRoot data with
  | none => simp [hroot] at h
  | some found =>
    obtain ⟨_, dup⟩ := found
    simp only [hroot] at h
    split_ifs at h
    cases h
    simp only [Bool.or_eq_true, Bool.not_eq_true', not_or, Bool.not_eq_false] at hbad
    exact ⟨dup, hbad.2, rfl⟩

theorem load_ok (h : load (.regular raw) dupAny = .ok data root) :
    data = raw ∧ raw.length ≤ maxFileSize ∧ scan raw dupAny = .ok root := by
  simp only [load] at h
  split_ifs at h with hsize
  cases hscan : scan raw dupAny with
  | malformed => simp [hscan] at h
  | duplicateDeep root => simp [hscan] at h
  | ok root' =>
    simp only [hscan, Loaded.ok.injEq] at h
    exact ⟨h.1.symm, not_lt.1 hsize, by rw [h.2]⟩

theorem spells_object {t : Tree} {more : List ℕ} (h : Spells t (0x7B :: more)) :
    ∃ members body, t = .obj members ∧ Fields members body ∧ 0x7B :: more = 0x7B :: body ++ [0x7D] := by
  cases t with
  | null => cases h
  | bool b => cases b <;> cases h
  | num n =>
    obtain ⟨c, _, htext, _⟩ := n.head
    have := (List.cons.inj (h.trans htext)).1
    omega
  | str | arr =>
    obtain ⟨body, -, heq⟩ := h
    cases heq
  | obj members =>
    obtain ⟨body, hfields, heq⟩ := h
    exact ⟨members, body, rfl, hfields, heq⟩

/-- What is scanned decodes, and however it decodes, the pieces of the object and the recorded members go together. -/
theorem scanned_decodes (h : scan raw dupAny = .ok root) :
    (∃ p, Decodes raw p) ∧ ∀ p, Decodes raw p →
      ∃ L : Layout, List.Forall₂ Tells L.pieces root.members ∧ p = L.members.foldl decodeMember ⟨false, [], []⟩ := by
  obtain ⟨_, hvalid, hroot⟩ := scan_root h
  obtain ⟨cs, hcs, rfl⟩ := valid_iff.1 hvalid
  constructor
  · obtain ⟨L, -, hshallow, htext⟩ := scanRoot_layout hcs hroot
    refine ⟨_, cs, _, hcs, rfl, htext, ?_, rfl⟩
    have hbound : nestingMembers L.members ≤ 9999 := by
      refine nestingMembers_le.2 fun m hm => ?_
      obtain ⟨p, hp, rfl⟩ := List.mem_map.1 hm
      have := hshallow p hp
      dsimp only [maxNesting] at *
      omega
    rw [Tree.nesting]
    omega
  · rintro p ⟨-, t, -, heq, ⟨w, v, w', hw, hv, hw', rfl⟩, hnesting, hp⟩
    obtain rfl := encodeAll_inj heq
    obtain ⟨c, more, rfl, hc, -⟩ := Validate.spells_head hv
    have hskip : skipWS (encodeAll (w ++ c :: more ++ w')) = c :: encodeAll (more ++ w') := by
      rw [List.append_assoc]
      exact Validate.space_read _ hw hc
    have hbrace : c = 0x7B := by
      unfold scanRoot at hroot
      split at hroot
      · next rest hopen => exact (List.cons.inj (hskip.symm.trans hopen)).1
      · cases hroot
    subst hbrace
    obtain ⟨_, body, rfl, hfields, hbody⟩ := spells_object hv
    obtain ⟨L, htext, hmembers⟩ := fields_layout hw hfields hw'
    have hcs'' : w ++ 0x7B :: more ++ w' = w ++ 0x7B :: (body ++ 0x7D :: w') := by
      rw [hbody]
      simp
    have hshallow : Shallow L.pieces := by
      rw [Tree.nesting] at hnesting
      have hbound := nestingMembers_le.1 (show nestingMembers L.members ≤ 9999 by rw [hmembers]; omega)
      intro p hp
      have := hbound _ (List.mem_map_of_mem hp)
      dsimp only [maxNesting] at *
      omega
    obtain ⟨_, _, hscan, hlaid⟩ := layout_scanned L hshallow
    rw [hcs'', htext, hscan] at hroot
    cases hroot
    exact ⟨L, hlaid.tells, by rw [hmembers]; exact (Option.some.inj hp).symm⟩

theorem lookup_cases {L : Layout} (h : List.Forall₂ Tells L.pieces root.members)
    (hplain : root.hasNonPlainKey = false) (field : List ℕ) (hfield : ∀ c ∈ field, c < 0x80)
    (hlength : (root.lookup (asciiLower field)).length ≤ 1) :
    root.lookup (asciiLower field) = [] ∧ (L.members.filter fun m => isField field m.1) = [] ∨
    ∃ p m, Tells p m ∧ root.lookup (asciiLower field) = [m] ∧
      (L.members.filter fun m => isField field m.1) = [(p.name, p.slot.tree)] := by
  have hpieces := lookup_pieces h hplain hfield
  have hmembers : (L.members.filter fun m => isField field m.1) =
      (L.pieces.filter fun p => isField field p.name).map fun p => (p.name, p.slot.tree) := by
    rw [Layout.members, List.filter_map]
    rfl
  rw [hmembers]
  generalize (L.pieces.filter fun p => isField field p.name) = found at hpieces ⊢
  generalize root.lookup (asciiLower field) = looked at hpieces hlength ⊢
  cases hpieces with
  | nil => exact .inl ⟨rfl, rfl⟩
  | cons htells hrest =>
    cases hrest with
    | nil => exact .inr ⟨_, _, htells, rfl, rfl⟩
    | cons _ _ => simp at hlength

theorem Tells.bool_false (h : Tells p m) (hkind : m.kind = .litFalse) : p.slot.tree = .bool false := by
  have hof := h.kind.symm.trans hkind
  cases ht : p.slot.tree with
  | bool b => cases b <;> simp_all [kindOf]
  | _ => simp [ht, kindOf] at hof

theorem Tells.string (h : Tells p m) (hkind : m.kind = .string) (hplain : m.strPlain = true) :
    ∃ s, p.slot.tree = .str s ∧ decoded s = m.str := by
  have hof := h.kind.symm.trans hkind
  have hstr := h.strOf
  cases ht : p.slot.tree with
  | str s =>
    rw [ht] at hstr
    have hs : s.all printable = true := hstr.2 ▸ hplain
    exact ⟨s, rfl, (decoded_of_plain hs).trans (hstr.1.eq_of_plain hs).symm⟩
  | bool b => cases b <;> simp [ht, kindOf] at hof
  | _ => simp [ht, kindOf] at hof

theorem Tells.array (h : Tells p m) (hkind : m.kind = .array) : ∃ items, p.slot.tree = .arr items := by
  have hof := h.kind.symm.trans hkind
  cases ht : p.slot.tree with
  | arr items => exact ⟨items, rfl⟩
  | bool b => cases b <;> simp [ht, kindOf] at hof
  | _ => simp [ht, kindOf] at hof

theorem profileVerdict_ok (h : profileVerdict (load (.regular raw) dupAny) overlayIF = .ok) :
    ∃ root, scan raw dupAny = .ok root ∧ root.hasNonPlainKey = false ∧ (root.lookup wgIface).length ≤ 1 ∧
      (root.lookup rosenpassEnabled).length ≤ 1 ∧ (∀ m ∈ root.lookup rosenpassEnabled, m.kind = .litFalse) ∧
      (root.lookup wgIface = [] ∧ wt0 = overlayIF ∨
        ∃ m, m ∈ root.lookup wgIface ∧ m.kind = .string ∧ m.strPlain = true ∧ (if m.str = [] then wt0 else m.str) = overlayIF) := by
  cases hload : load (.regular raw) dupAny with
  | unreadable | malformed => simp [hload, profileVerdict] at h
  | duplicate data root =>
    simp only [hload, profileVerdict] at h
    split_ifs at h
  | ok data root =>
    simp only [hload, profileVerdict] at h
    cases hwg : root.lookup wgIface with
    | nil =>
      simp only [hwg] at h
      split_ifs at h with hkeys hcount hrosen hname
      exact ⟨root, (load_ok hload).2.2, by simpa using hkeys, by simp [hwg], by simpa using hcount, by simpa using hrosen,
        .inl ⟨hwg, hname⟩⟩
    | cons m ms =>
      simp only [hwg] at h
      split_ifs at h with hkeys hcount hrosen hkind hname
      all_goals
        simp only [not_or, not_not, Bool.not_eq_false] at hkind
        refine ⟨root, (load_ok hload).2.2, by simpa using hkeys, by rw [hwg]; omega, by omega, by simpa using hrosen,
          .inr ⟨m, hwg ▸ (.head _), hkind.1, hkind.2, ?_⟩⟩
        split_ifs
        assumption

theorem verdict_agrees {p : Profile}
    (h : profileVerdict (load (.regular raw) dupAny) overlayIF = .ok) (hp : Decodes raw p) :
    p.rosenpassEnabled = false ∧ p.effectiveIface = overlayIF := by
  obtain ⟨_, hscan, hplain, hwg, hrosen, hfalse, hiface⟩ := profileVerdict_ok h
  obtain ⟨L, htells, rfl⟩ := (scanned_decodes hscan).2 p hp
  constructor
  · rw [fold_rosenpassEnabled]
    rcases lookup_cases htells hplain GoJson.rosenpassEnabledField (by decide) hrosen with
      ⟨-, hnone⟩ | ⟨q, m, hqm, hone, hfield⟩
    · rw [hnone]
      rfl
    · rw [hfield]
      have hlit := hqm.bool_false (hfalse m (by rw [show rosenpassEnabled = _ from rfl] at *; exact hone ▸ (.head _)))
      simp [hlit, intoBool]
  · rw [Profile.effectiveIface, fold_wgIface]
    rcases lookup_cases htells hplain GoJson.wgIfaceField (by decide) hwg with
      ⟨hempty, hnone⟩ | ⟨q, m, hqm, hone, hfield⟩
    · rw [hnone]
      rcases hiface with ⟨-, hname⟩ | ⟨m, hm, -⟩
      · exact hname
      · exact absurd (hempty ▸ hm) List.not_mem_nil
    · rw [hfield]
      rcases hiface with ⟨hempty, -⟩ | ⟨_, hm', hkind, hstr, hname⟩
      · exact absurd (hone.symm.trans hempty) (List.cons_ne_nil _ _)
      · obtain rfl := List.mem_singleton.1 (hone ▸ hm')
        obtain ⟨s, hs, hdecoded⟩ := hqm.string hkind hstr
        simp only [List.foldl_cons, hs, intoString, hdecoded]
        exact hname

/-! ### The blacklist -/

theorem Listed.shown {slots : List Slot}
    (h : Listed slots after entries spans) :
    ∀ entry ∈ entries, ∃ s ∈ slots, ∃ name, s.tree = .str name ∧ Shown name entry := by
  induction h with
  | last hplaced =>
    intro entry hentry
    obtain rfl := List.mem_singleton.1 hentry
    exact ⟨_, (.head _), hplaced.shown⟩
  | more hplaced _ ih =>
    intro entry hentry
    rcases List.mem_cons.1 hentry with rfl | hentry
    · exact ⟨_, (.head _), hplaced.shown⟩
    · obtain ⟨s, hs, hname⟩ := ih entry hentry
      exact ⟨s, .tail _ hs, hname⟩

theorem stringArray_shown {items : List Tree} {v rest : List ℕ} (hv : Bytes (.arr items) v)
    (h : stringArray (v ++ rest) = some (entries, spans)) :
    ∀ entry ∈ entries, ∃ name, Tree.str name ∈ items ∧ Shown name entry := by
  intro entry hentry
  rcases stringArray_bytes hv with ⟨-, hread⟩ | ⟨s, _, _, rfl, -, hread⟩ | hnone
  · rw [hread] at h
    simp only [Option.some.injEq, Prod.mk.injEq] at h
    exact absurd (h.1 ▸ hentry) List.not_mem_nil
  · obtain ⟨_, hspans, hlisted⟩ := hread rest
    rw [hspans] at h
    simp only [Option.some.injEq, Prod.mk.injEq] at h
    obtain ⟨_, hslot, name, htree, hshown⟩ := hlisted.shown entry (h.1 ▸ hentry)
    exact ⟨name, htree ▸ List.mem_map_of_mem hslot, hshown⟩
  · rw [hnone] at h
    cases h

theorem valid_no_mark (h : validInterfaceName name = true) : 0x3F ∉ name := by
  intro hmark
  cases name with
  | nil => cases hmark
  | cons c rest =>
    simp only [validInterfaceName, Bool.and_eq_true, List.all_eq_true] at h
    rcases List.mem_cons.1 hmark with rfl | hmark
    · cases h.1.1
    · exact absurd (h.2 _ hmark) (by decide)

theorem checkListFile_ok {file : File} {path : ℕ} (h : checkListFile file path = .ok st) :
    ∃ data root, load file false = .ok data root ∧ root.hasNonPlainKey = false ∧ (root.lookup wgIface).length ≤ 1 ∧
      (root.lookup rosenpassEnabled).length ≤ 1 ∧ (root.lookup ifaceBlackList).length ≤ 1 ∧ blacklistOf root = some st := by
  unfold checkListFile at h
  cases hload : load file false with
  | ok data root =>
    simp only [hload] at h
    split_ifs at h with hkeys hcount hlist
    cases hst : blacklistOf root with
    | none => simp [hst] at h
    | some st' =>
      simp only [hst, Except.ok.injEq] at h
      exact ⟨data, root, rfl, by simpa using hkeys, by omega, by omega, by omega, h ▸ hst⟩
  | _ => simp [hload] at h

theorem checkBlacklist_ok {files : Files} {path : ℕ} (h : checkBlacklist files tunnelIF = .ok (some path)) :
    validInterfaceName tunnelIF = true ∧ ∃ st, checkListFile (files.profile path) path = .ok st ∧ covers st.entries tunnelIF = true := by
  unfold checkBlacklist at h
  split_ifs at h with hname
  cases hactive : checkActive files with
  | error e => simp [hactive] at h
  | ok _ =>
    simp only [hactive] at h
    cases hresolve : resolve files with
    | none => simp [hresolve] at h
    | some path' =>
      simp only [hresolve] at h
      cases hlist : checkListFile (files.profile path') path' with
      | error e => simp [hlist] at h
      | ok st =>
        simp only [hlist] at h
        split_ifs at h with hcovers
        simp only [Except.ok.injEq, Option.some.injEq] at h
        subst h
        exact ⟨by simpa using hname, st, hlist, hcovers⟩

theorem blacklist_agrees {p : Profile}
    (hscan : scan raw dupAny = .ok root) (hplain : root.hasNonPlainKey = false) (hlength : (root.lookup ifaceBlackList).length ≤ 1)
    (hst : blacklistOf root = some st) (hname : validInterfaceName tunnelIF = true) (hcovers : covers st.entries tunnelIF = true)
    (hp : Decodes raw p) : ∃ entry ∈ p.ifaceBlackList, entry ≠ [] ∧ entry <+: tunnelIF := by
  obtain ⟨L, htells, rfl⟩ := (scanned_decodes hscan).2 p hp
  obtain ⟨entry, hentry, hcover⟩ := List.any_eq_true.1 hcovers
  simp only [Bool.and_eq_true, decide_eq_true_eq, List.isPrefixOf_iff_prefix] at hcover
  have hmark : 0x3F ∉ entry := fun h => valid_no_mark hname (hcover.2.subset h)
  rw [fold_ifaceBlackList]
  rcases lookup_cases htells hplain GoJson.ifaceBlackListField (by decide) hlength with
      ⟨hempty, -⟩ | ⟨q, m, hqm, hone, hfield⟩
  · have hnil : root.lookup ifaceBlackList = [] := hempty
    simp only [blacklistOf, hnil, Option.some.injEq] at hst
    exact absurd (hst ▸ hentry) List.not_mem_nil
  · have hfound : root.lookup ifaceBlackList = [m] := hone
    simp only [blacklistOf, hfound] at hst
    cases hkind : m.kind with
    | array =>
      simp only [hkind] at hst
      obtain ⟨⟨_, _⟩, hread, rfl⟩ := Option.map_eq_some_iff.1 hst
      obtain ⟨_, hitems⟩ := hqm.array hkind
      obtain ⟨_, hrest⟩ := hqm.value
      rw [hrest] at hread
      obtain ⟨_, hmem, hshown⟩ := stringArray_shown (hitems ▸ q.slot.isValue) hread entry hentry
      refine ⟨entry, ?_, hcover⟩
      rw [hfield]
      simp only [hitems, intoStrings]
      rw [hshown.eq_decoded hmark]
      exact List.mem_map_of_mem hmem
    | null =>
      simp only [hkind, Option.some.injEq] at hst
      exact absurd (hst ▸ hentry) List.not_mem_nil
    | _ => simp [hkind] at hst

/-- What the profile gate accepts, encoding/json decodes to what was checked: profileVerdict
means that Rosenpass is off and the interface is the guarded one, CheckBlacklist that an
entry of the decoded list excludes the tunnel interface. -/
theorem gate_agrees_with_reader (raw : List ℕ) :
    (∀ (dupAny : Bool) (overlayIF : List ℕ), profileVerdict (load (.regular raw) dupAny) overlayIF = .ok →
      (∃ p, Decodes raw p) ∧ ∀ p, Decodes raw p → p.rosenpassEnabled = false ∧ p.effectiveIface = overlayIF) ∧
    ∀ (files : Files) (tunnelIF : List ℕ) (path : ℕ), checkBlacklist files tunnelIF = .ok (some path) →
      files.profile path = .regular raw →
      (∃ p, Decodes raw p) ∧ ∀ p, Decodes raw p → ∃ entry ∈ p.ifaceBlackList, entry ≠ [] ∧ entry <+: tunnelIF := by
  constructor
  · intro dupAny overlayIF h
    obtain ⟨root, hscan, -⟩ := profileVerdict_ok h
    exact ⟨(scanned_decodes hscan).1, fun p hp => verdict_agrees h hp⟩
  · intro files tunnelIF path h hfile
    obtain ⟨hname, st, hlist, hcovers⟩ := checkBlacklist_ok h
    obtain ⟨data, root, hload, hplain, -, -, hlength, hst⟩ := checkListFile_ok hlist
    rw [hfile] at hload
    have hscan := (load_ok hload).2.2
    exact ⟨(scanned_decodes hscan).1, fun p hp => blacklist_agrees hscan hplain hlength hst hname hcovers hp⟩

/-- A profile that names wt0 and excludes what begins with wg. -/
def plainProfile : List ℕ :=
  text ['{', '"', 'W', 'g', 'I', 'f', 'a', 'c', 'e', '"', ':', '"', 'w', 't', '0', '"', ',', '"', 'i', 'f', 'a', 'c', 'e', 'B', 'l',
    'a', 'c', 'k', 'L', 'i', 's', 't', '"', ':', '[', '"', 'w', 'g', '"', ']', '}']

theorem gate_agrees_with_reader_plain :
    ((∃ p, Decodes plainProfile p) ∧ ∀ p, Decodes plainProfile p → p.rosenpassEnabled = false ∧ p.effectiveIface = wt0) ∧
      ∀ p, Decodes plainProfile p → ∃ entry ∈ p.ifaceBlackList, entry ≠ [] ∧ entry <+: text ['w', 'g', '0'] :=
  ⟨(gate_agrees_with_reader plainProfile).1 false wt0 (by decide +kernel),
    ((gate_agrees_with_reader plainProfile).2 ⟨.absent, [.regular plainProfile]⟩ (text ['w', 'g', '0']) 0 rfl rfl).2⟩

end Molebridge.NbProfile
