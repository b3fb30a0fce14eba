import Molebridge.Proofs.Scanned
import Molebridge.Spec.NbProfile

/-! Every text of the grammar within the limit of nesting is scanned, and the members that
are recorded say where its pieces stand. -/

namespace Molebridge.NbProfile

open Utf8 Validate
open Rfc8259 hiding isDigit hex4

/-! ### White space -/

variable {w v : List ℕ} {fuel depth : ℕ} {s : Slot}

theorem skipWS_read {c : ℕ} (b : List ℕ) (hw : IsWs w) (hc : isWs c = false) : skipWS (w ++ c :: b) = c :: b := by
  refine (List.dropWhile_append_of_pos hw).trans ?_
  exact List.dropWhile_cons_of_neg (by simpa using hc)

theorem skipWS_skipWS (b : List ℕ) : skipWS (skipWS b) = skipWS b := by
  induction b with
  | nil => rfl
  | cons c b ih =>
    cases hc : isWs c with
    | true => rwa [show skipWS (c :: b) = skipWS b from List.dropWhile_cons_of_pos hc]
    | false =>
      have hstay : skipWS (c :: b) = c :: b := skipWS_read b isWs_nil hc
      rw [hstay, hstay]

theorem skipWS_ws (hw : IsWs w) : skipWS w = [] := List.dropWhile_eq_nil_iff.2 hw

theorem arrayLoop_skipWS (fuel depth : ℕ) (b : List ℕ) : arrayLoop fuel depth (skipWS b) = arrayLoop fuel depth b := by
  cases fuel with
  | zero => simp only [arrayLoop]
  | succ fuel => simp only [arrayLoop, skipWS_skipWS]

theorem objectLoop_skipWS (fuel depth : ℕ) (seen : List (List ℕ)) (b : List ℕ) :
    objectLoop fuel depth seen (skipWS b) = objectLoop fuel depth seen b := by
  cases fuel with
  | zero => simp only [objectLoop]
  | succ fuel => simp [objectLoop, skipWS_skipWS]

theorem bytes_head {t : Tree} (h : Bytes t v) : ∃ c more, v = c :: more ∧ isWs c = false ∧ c ≠ 0x5D := by
  obtain ⟨_, hspells, rfl⟩ := h
  obtain ⟨c, more, rfl, hc, hclose⟩ := spells_head hspells
  exact ⟨c, encodeAll more, encodeAll_ascii_cons more hc.1, hc.2, hclose⟩

theorem ends_before {c : ℕ} (rest : List ℕ) (hw : IsWs w) (hc : IsEnd c) : Ends (w ++ c :: rest) := by
  cases w with
  | nil =>
    rintro _ ⟨rfl⟩
    rcases hc with rfl | rfl | rfl <;> decide
  | cons x w =>
    have hx := ends_space hw
    rw [encodeAll_ws hw] at hx
    rintro _ ⟨rfl⟩
    exact hx x rfl

/-! ### Where the members stand -/

def StrOf : Tree → List ℕ → Bool → Prop
  | .str s, out, plain => Shown s out ∧ plain = s.all printable
  | _, out, plain => out = [] ∧ plain = true

/-- The member is recorded where the piece stands, before what comes next. -/
structure Placed (p : Piece) (m : Member) (next : List ℕ) : Prop where
  keyStart : m.keyStart = 0x22 :: (p.body ++ 0x22 :: m.keyEnd)
  keyEnd : m.keyEnd = p.gap ++ 0x3A :: (p.slot.lead ++ m.valStart)
  valStart : m.valStart = p.slot.value ++ m.valEnd
  valEnd : m.valEnd = p.slot.trail ++ next
  key : str (p.body ++ [0x22]) = some (m.key, m.plain, [])
  kind : m.kind = kindOf p.slot.tree
  strOf : StrOf p.slot.tree m.str m.strPlain

def memberAt (p : Piece) (key : List ℕ) (plain : Bool) (s : List ℕ) (strPlain : Bool) (next : List ℕ) : Member :=
  let valEnd := p.slot.trail ++ next
  let valStart := p.slot.value ++ valEnd
  let keyEnd := p.gap ++ 0x3A :: (p.slot.lead ++ valStart)
  ⟨key, plain, 0x22 :: (p.body ++ 0x22 :: keyEnd), keyEnd, valStart, valEnd, kindOf p.slot.tree, s, strPlain⟩

/-- Each member is recorded where its piece stands, before what is after them all. -/
inductive Laid : List Piece → List ℕ → List Member → Prop where
  | none {after : List ℕ} : Laid [] after []
  | last {p : Piece} {m : Member} {after : List ℕ} (placed : Placed p m after) : Laid [p] after [m]
  | more {p q : Piece} {ps : List Piece} {m : Member} {ms : List Member} {after : List ℕ}
      (placed : Placed p m (0x2C :: (piecesText (q :: ps) ++ after))) (rest : Laid (q :: ps) after ms) :
      Laid (p :: q :: ps) after (m :: ms)

/-! ### What is scanned -/

def ValueComplete (fuel : ℕ) : Prop :=
  ∀ (t : Tree) (depth : ℕ) (v : List ℕ), Bytes t v → depth + t.nesting ≤ maxNesting → v.length ≤ fuel →
    ∃ s p d, StrOf t s p ∧ ∀ rest, Ends rest → value fuel depth (v ++ rest) = some ⟨kindOf t, s, p, d, rest⟩

def ItemsComplete (fuel : ℕ) : Prop :=
  ∀ (s : Slot) (slots : List Slot) (depth : ℕ), (∀ x ∈ s :: slots, depth + x.tree.nesting ≤ maxNesting) →
    (slotsText (s :: slots)).length + 1 ≤ fuel →
    ∃ d, ∀ rest, arrayLoop fuel depth (slotsText (s :: slots) ++ 0x5D :: rest) = some (d, rest)

def MembersComplete (fuel : ℕ) : Prop :=
  ∀ (p : Piece) (ps : List Piece) (depth : ℕ) (seen : List (List ℕ)),
    (∀ x ∈ p :: ps, depth + x.slot.tree.nesting ≤ maxNesting) → (piecesText (p :: ps)).length ≤ fuel →
    ∃ d, ∀ rest, ∃ ms, objectLoop fuel depth seen (piecesText (p :: ps) ++ 0x7D :: rest) = some (ms, d, rest) ∧
      Laid (p :: ps) (0x7D :: rest) ms

theorem slot_read (hvalue : ValueComplete fuel) (s : Slot) (hnesting : depth + s.tree.nesting ≤ maxNesting)
    (hfuel : s.value.length ≤ fuel) :
    ∃ str p d, StrOf s.tree str p ∧ ∀ c rest, IsEnd c →
      skipWS (s.lead ++ (s.value ++ (s.trail ++ c :: rest))) = s.value ++ (s.trail ++ c :: rest) ∧
      value fuel depth (s.value ++ (s.trail ++ c :: rest)) = some ⟨kindOf s.tree, str, p, d, s.trail ++ c :: rest⟩ ∧
      skipWS (s.trail ++ c :: rest) = c :: rest := by
  obtain ⟨str, p, d, hstr, hread⟩ := hvalue s.tree depth s.value s.isValue hnesting hfuel
  obtain ⟨_, _, hv, hfirst, -⟩ := bytes_head s.isValue
  refine ⟨str, p, d, hstr, fun c rest hc => ⟨?_, hread _ (ends_before rest s.isTrail hc), skipWS_read rest s.isTrail hc.ascii.2⟩⟩
  rw [hv, List.cons_append]
  exact skipWS_read _ s.isLead hfirst

theorem items_complete_step (hvalue : ValueComplete fuel) (hitems : ItemsComplete fuel) : ItemsComplete (fuel + 1) := by
  intro s slots depth hnesting hfuel
  have hlength : s.value.length ≤ (slotsText (s :: slots)).length := by
    cases slots <;> simp [Slot.text] <;> omega
  obtain ⟨_, p, d, -, hread⟩ := slot_read hvalue s (hnesting s (.head _)) (by omega)
  cases slots with
  | nil =>
    refine ⟨d, fun rest => ?_⟩
    obtain ⟨hlead, hval, htrail⟩ := hread 0x5D rest (.inr (.inl rfl))
    simp [Slot.text, arrayLoop, hlead, hval, htrail]
  | cons s' slots =>
    obtain ⟨d', hloop⟩ := hitems s' slots depth (fun x hx => hnesting x (.tail _ hx))
      (by simp at hfuel ⊢; omega)
    refine ⟨d || d', fun rest => ?_⟩
    obtain ⟨hlead, hval, htrail⟩ := hread 0x2C (slotsText (s' :: slots) ++ 0x5D :: rest) (.inl rfl)
    simp only [slotsText_cons, Slot.text, List.append_assoc, List.cons_append, arrayLoop, hlead, hval, htrail, hloop,
      Option.map_some]

theorem piece_key (p : Piece) : ∃ key plain, str (p.body ++ [0x22]) = some (key, plain, []) ∧
    ∀ rest, str (p.body ++ 0x22 :: rest) = some (key, plain, rest) := by
  obtain ⟨_, hchars, hbody⟩ := p.isBody
  obtain ⟨out, -, hread⟩ := str_complete hchars
  rw [hbody]
  exact ⟨out, p.name.all printable, hread [], hread⟩

theorem members_complete_step (hvalue : ValueComplete fuel) (hmembers : MembersComplete fuel) :
    MembersComplete (fuel + 1) := by
  intro p ps depth seen hnesting hfuel
  have hlength : p.slot.value.length < (piecesText (p :: ps)).length := by
    cases ps <;> simp [Piece.text, Piece.head] <;> omega
  obtain ⟨s, plain, d, hstr, hread⟩ := slot_read hvalue p.slot (hnesting p (.head _)) (by omega)
  obtain ⟨key, keyPlain, hkey, hname⟩ := piece_key p
  cases ps with
  | nil =>
    refine ⟨seen.contains key || d, fun rest => ?_⟩
    obtain ⟨hlead, hval, htrail⟩ := hread 0x7D rest (.inr (.inr rfl))
    refine ⟨[memberAt p key keyPlain s plain (0x7D :: rest)], ?_, .last ⟨rfl, rfl, rfl, rfl, hkey, rfl, hstr⟩⟩
    simp [Piece.text, Piece.head, objectLoop, skipWS_read _ p.isLead (show isWs 0x22 = false from rfl), hname,
      skipWS_read _ p.isGap (show isWs 0x3A = false from rfl), hlead, hval, htrail, memberAt]
  | cons q ps =>
    obtain ⟨d', hloop⟩ := hmembers q ps depth (key :: seen) (fun x hx => hnesting x (.tail _ hx))
      (by simp at hfuel ⊢; omega)
    refine ⟨seen.contains key || d || d', fun rest => ?_⟩
    obtain ⟨hlead, hval, htrail⟩ := hread 0x2C (piecesText (q :: ps) ++ 0x7D :: rest) (.inl rfl)
    obtain ⟨ms, hms, hlaid⟩ := hloop rest
    refine ⟨memberAt p key keyPlain s plain (0x2C :: (piecesText (q :: ps) ++ 0x7D :: rest)) :: ms, ?_, .more ⟨rfl, rfl, rfl, rfl, hkey, rfl, hstr⟩ hlaid⟩
    simp [Piece.text, Piece.head, objectLoop, skipWS_read _ p.isLead (show isWs 0x22 = false from rfl), hname,
      skipWS_read _ p.isGap (show isWs 0x3A = false from rfl), hlead, hval, htrail, hms, memberAt]

theorem array_slots {slots : List Slot} (rest : List ℕ) (hdepth : depth ≤ maxNesting) :
    array depth (slotsText (s :: slots) ++ 0x5D :: rest) (arrayLoop fuel depth) =
      arrayLoop fuel depth (slotsText (s :: slots) ++ 0x5D :: rest) := by
  obtain ⟨c, _, hv, hc, hclose⟩ := bytes_head s.isValue
  have htext : ∃ tail, slotsText (s :: slots) ++ 0x5D :: rest = s.lead ++ c :: tail := by
    cases slots with
    | nil | cons => exact ⟨_, by simp [Slot.text, hv]; rfl⟩
  obtain ⟨tail, htext⟩ := htext
  rw [← arrayLoop_skipWS, array, if_neg (by omega), htext, skipWS_read tail s.isLead hc]
  split
  · next h => exact absurd (List.cons.inj h).1 hclose
  · rfl

theorem object_pieces {p : Piece} {ps : List Piece} {seen : List (List ℕ)} (rest : List ℕ)
    (hdepth : depth ≤ maxNesting) :
    object depth (piecesText (p :: ps) ++ 0x7D :: rest) (objectLoop fuel depth seen) =
      objectLoop fuel depth seen (piecesText (p :: ps) ++ 0x7D :: rest) := by
  have htext : ∃ tail, piecesText (p :: ps) ++ 0x7D :: rest = p.lead ++ 0x22 :: tail := by
    cases ps with
    | nil | cons => exact ⟨_, by simp [Piece.text]; rfl⟩
  obtain ⟨tail, htext⟩ := htext
  rw [← objectLoop_skipWS, object, if_neg (by omega), htext, skipWS_read tail p.isLead rfl]
  rfl

theorem value_complete_step (hitems : ItemsComplete fuel) (hmembers : MembersComplete fuel) :
    ValueComplete (fuel + 1) := by
  intro t depth v hbytes hnesting hfuel
  cases t with
  | null =>
    obtain ⟨_, rfl, rfl⟩ := hbytes
    exact ⟨[], true, false, ⟨rfl, rfl⟩, fun rest _ => by rw [encodeAll_ascii (by decide)]; rfl⟩
  | bool b =>
    cases b <;> obtain ⟨_, rfl, rfl⟩ := hbytes <;>
      exact ⟨[], true, false, ⟨rfl, rfl⟩, fun rest _ => by rw [encodeAll_ascii (by decide)]; rfl⟩
  | num n =>
    obtain ⟨_, rfl, rfl⟩ := hbytes
    refine ⟨[], true, false, ⟨rfl, rfl⟩, fun rest hrest => ?_⟩
    obtain ⟨c, _, htext, hc⟩ := n.head
    have hnumber := number_complete (n := n) hrest
    have hdigit : c = 0x2D ∨ isDigit c = true := by
      simp only [isDigit, Bool.and_eq_true, decide_eq_true_eq]
      exact hc
    rw [encodeAll_ascii n.ascii]
    rw [htext, List.cons_append] at hnumber ⊢
    rw [value, if_neg (by omega), if_neg (by omega), if_neg (by omega), word_none _ (by omega)]
    simp only [if_pos hdigit, hnumber]
    rfl
  | str s =>
    obtain ⟨_, ⟨body, hchars, rfl⟩, rfl⟩ := hbytes
    obtain ⟨out, hshown, hread⟩ := str_complete hchars
    refine ⟨out, s.all printable, false, ⟨hshown, rfl⟩, fun rest _ => ?_⟩
    have htext : encodeAll (0x22 :: body ++ [0x22]) ++ rest = 0x22 :: (encodeAll body ++ 0x22 :: rest) := by
      rw [List.cons_append, encodeAll_ascii_cons _ (by decide), encodeAll_append]
      simp [encodeAll_ascii_cons _ (show 0x22 < 0x80 by decide)]
    rw [htext]
    simp only [value, hread]
    rfl
  | arr items =>
    rw [Tree.nesting] at hnesting
    rcases bytes_arr hbytes with ⟨rfl, w, hw, rfl⟩ | ⟨s, slots, rfl, rfl⟩
    · refine ⟨[], true, false, ⟨rfl, rfl⟩, fun rest _ => ?_⟩
      simp only [List.cons_append, List.append_assoc, value, array, if_neg (show ¬ maxNesting < depth + 1 by omega),
        skipWS_read _ hw (show isWs 0x5D = false from rfl)]
      rfl
    · have hbound := nestingItems_le.1 (show nestingItems ((s :: slots).map Slot.tree) ≤ maxNesting - (depth + 1) by omega)
      obtain ⟨d, hloop⟩ := hitems s slots (depth + 1)
        (fun x hx => by have := hbound _ (List.mem_map_of_mem hx); omega) (by simp at hfuel ⊢; omega)
      refine ⟨[], true, d, ⟨rfl, rfl⟩, fun rest _ => ?_⟩
      simp only [List.cons_append, List.append_assoc, List.nil_append, value,
        array_slots rest (show depth + 1 ≤ maxNesting by omega), hloop]
      rfl
  | obj members =>
    rw [Tree.nesting] at hnesting
    obtain ⟨_, ⟨body, hfields, rfl⟩, rfl⟩ := hbytes
    have htext (rest : List ℕ) : encodeAll (0x7B :: body ++ [0x7D]) ++ rest = 0x7B :: (encodeAll body ++ 0x7D :: rest) := by
      rw [List.cons_append, encodeAll_ascii_cons _ (by decide), encodeAll_append]
      simp [encodeAll_ascii_cons _ (show 0x7D < 0x80 by decide)]
    rcases fields_bytes hfields with ⟨rfl, hw⟩ | ⟨p, ps, rfl, hbody⟩
    · refine ⟨[], true, false, ⟨rfl, rfl⟩, fun rest _ => ?_⟩
      rw [htext, encodeAll_ws hw]
      simp only [value, object, if_neg (show ¬ maxNesting < depth + 1 by omega), skipWS_read _ hw (show isWs 0x7D = false from rfl)]
      rfl
    · have hbound := nestingMembers_le.1
        (show nestingMembers ((p :: ps).map fun p => (p.name, p.slot.tree)) ≤ maxNesting - (depth + 1) by omega)
      have hlength := congrArg List.length (htext [])
      obtain ⟨d, hloop⟩ := hmembers p ps (depth + 1) []
        (fun x hx => by have := hbound _ (List.mem_map_of_mem hx); dsimp only at this; omega)
        (by rw [← hbody]; simp at hfuel hlength ⊢; omega)
      refine ⟨[], true, d, ⟨rfl, rfl⟩, fun rest _ => ?_⟩
      obtain ⟨_, hms, -⟩ := hloop rest
      rw [htext, hbody]
      simp only [value, object_pieces rest (show depth + 1 ≤ maxNesting by omega), hms]
      rfl

/-- Every value of the grammar within the limit of nesting is scanned, given fuel for its bytes. -/
theorem scans_complete (fuel : ℕ) : ValueComplete fuel ∧ ItemsComplete fuel ∧ MembersComplete fuel := by
  induction fuel with
  | zero =>
    refine ⟨fun t depth v hbytes _ hfuel => ?_, fun _ _ _ _ hfuel => ?_, fun p ps _ _ _ hfuel => ?_⟩
    · obtain ⟨c, _, rfl, -⟩ := bytes_head hbytes
      cases hfuel
    · cases hfuel
    · cases ps <;> simp [Piece.text, Piece.head] at hfuel
  | succ fuel ih =>
    obtain ⟨hvalue, hitems, hmembers⟩ := ih
    exact ⟨value_complete_step hitems hmembers, items_complete_step hvalue hitems, members_complete_step hvalue hmembers⟩

/-! ### The root -/

def Shallow (pieces : List Piece) : Prop := ∀ p ∈ pieces, 1 + p.slot.tree.nesting ≤ maxNesting

theorem object_inner (b : List ℕ) (hw : IsWs w) (loop : List ℕ → Option (List Member × Bool × List ℕ)) :
    object depth (w ++ b) loop = object depth b loop := by
  have hskip : skipWS (w ++ b) = skipWS b := List.dropWhile_append_of_pos hw
  unfold object
  rw [hskip]

theorem layout_scanned (L : Layout) (h : Shallow L.pieces) :
    ∃ members dup, scanRoot L.text = some (⟨0x7B :: L.opened, 0x7D :: L.trail, members⟩, dup) ∧
      Laid L.pieces (0x7D :: L.trail) members := by
  have hskip : skipWS L.text = 0x7B :: L.opened := skipWS_read _ L.isLead rfl
  have hobject : ∃ members dup, object 1 L.opened (objectLoop (2 * L.text.length) 1 []) = some (members, dup, L.trail) ∧
      Laid L.pieces (0x7D :: L.trail) members := by
    rw [Layout.opened, object_inner _ L.isInner]
    cases hpieces : L.pieces with
    | nil => exact ⟨[], false, rfl, .none⟩
    | cons p ps =>
      rw [object_pieces _ (by decide)]
      obtain ⟨dup, hloop⟩ := (scans_complete (2 * L.text.length)).2.2 p ps 1 [] (hpieces ▸ h) (by
        simp only [Layout.text, Layout.opened, hpieces, List.length_append, List.length_cons]
        omega)
      obtain ⟨members, hmembers, hlaid⟩ := hloop L.trail
      exact ⟨members, dup, hmembers, hlaid⟩
  obtain ⟨members, dup, hfound, hlaid⟩ := hobject
  refine ⟨members, dup, ?_, hlaid⟩
  simp [scanRoot, hskip, hfound, skipWS_ws L.isTrail]

theorem scanRoot_layout {cs : List ℕ} {root : RootInfo} {dup : Bool} (hcs : ∀ c ∈ cs, IsScalar c)
    (h : scanRoot (encodeAll cs) = some (root, dup)) :
    ∃ L : Layout, encodeAll cs = L.text ∧ Shallow L.pieces ∧ JsonText (.obj L.members) cs := by
  unfold scanRoot at h
  split at h
  case h_2 => cases h
  case h_1 rest hopen =>
  obtain ⟨w, cs', rfl, hw, hcs', rfl⟩ := space_peel (by decide) hcs hopen
  cases hobject : object 1 (encodeAll cs') (objectLoop (2 * (encodeAll (w ++ 0x7B :: cs')).length) 1 []) with
  | none =>
    rw [hobject] at h
    cases h
  | some found =>
    obtain ⟨_, _, _⟩ := found
    simp only [hobject] at h
    split_ifs at h with hend
    obtain ⟨_, body, _, rfl, rfl, hfields, _⟩ := object_sound (scans_sound _).2.2 hcs' hobject
    obtain ⟨w', cs₃, rfl, hw', -, hskip⟩ := skipWS_sound (List.forall_mem_cons.1 (List.forall_mem_append.1 hcs').2).2
    have hnil : cs₃ = [] := by
      rw [hskip] at hend
      cases cs₃ with
      | nil => rfl
      | cons c cs₃ => exact absurd (List.append_eq_nil_iff.1 hend).1 (encode_ne_nil c)
    subst hnil
    rw [List.append_nil] at *
    obtain ⟨L, htext, hmembers⟩ := fields_layout hw hfields hw'
    have hbound := nestingMembers_le.1 (show nestingMembers L.members ≤ maxNesting - 1 by rw [hmembers]; omega)
    refine ⟨L, htext, fun p hp => ?_, ?_⟩
    · have := hbound _ (List.mem_map_of_mem hp)
      dsimp only at *
      omega
    · exact ⟨w, 0x7B :: body ++ [0x7D], w', hw, hmembers ▸ ⟨body, hfields, rfl⟩, hw', by simp⟩

/-! ### Lists of strings -/

/-- The string is read from the slot, and recorded where it stands. -/
structure StringAt (s : Slot) (entry : List ℕ) (span : Span) (next : List ℕ) : Prop where
  start : span.start = s.value ++ span.stop
  stop : span.stop = s.trail ++ next
  shown : ∃ name, s.tree = .str name ∧ Shown name entry

/-- Where the value of a slot stands, before what comes next. -/
def spanAt (s : Slot) (next : List ℕ) : Span := ⟨s.value ++ (s.trail ++ next), s.trail ++ next⟩

/-- Each string is recorded where its slot stands, before what is after them all. -/
inductive Listed : List Slot → List ℕ → List (List ℕ) → List Span → Prop where
  | last {s : Slot} {entry : List ℕ} {span : Span} {after : List ℕ} (placed : StringAt s entry span after) :
      Listed [s] after [entry] [span]
  | more {s s' : Slot} {slots : List Slot} {entry : List ℕ} {span : Span} {entries : List (List ℕ)} {spans : List Span} {after : List ℕ}
      (placed : StringAt s entry span (0x2C :: (slotsText (s' :: slots) ++ after)))
      (rest : Listed (s' :: slots) after entries spans) : Listed (s :: s' :: slots) after (entry :: entries) (span :: spans)

theorem quoted_bytes {name : List ℕ} (h : Bytes (.str name) v) :
    ∃ entry plain body, Shown name entry ∧ v = 0x22 :: (body ++ [0x22]) ∧
      ∀ rest, str (body ++ 0x22 :: rest) = some (entry, plain, rest) := by
  obtain ⟨_, ⟨text, hchars, rfl⟩, rfl⟩ := h
  obtain ⟨entry, hshown, hread⟩ := str_complete hchars
  refine ⟨entry, name.all printable, encodeAll text, hshown, ?_, hread⟩
  rw [List.cons_append, encodeAll_ascii_cons _ (by decide), encodeAll_append]
  rfl

theorem unquoted_head {t : Tree} (h : Bytes t v) (ht : ∀ s, t ≠ .str s) :
    ∃ c more, v = c :: more ∧ isWs c = false ∧ c ≠ 0x22 := by
  obtain ⟨c, more, hv, hc, -⟩ := bytes_head h
  refine ⟨c, more, hv, hc, ?_⟩
  rintro rfl
  obtain ⟨_, hspells, rfl⟩ := h
  cases t with
  | str s => exact ht s rfl
  | null => obtain rfl := hspells; cases hv
  | bool b => cases b <;> obtain rfl := hspells <;> cases hv
  | num n =>
    obtain rfl := hspells
    rw [encodeAll_ascii n.ascii] at hv
    obtain ⟨c, _, htext, _⟩ := n.head
    have := (List.cons.inj (htext.symm.trans hv)).1
    omega
  | arr | obj =>
    obtain ⟨_, -, rfl⟩ := hspells
    cases hv

theorem stringArrayLoop_string {name : List ℕ} (h : s.tree = .str name) :
    ∃ entry, Shown name entry ∧ ∀ fuel c rest, IsEnd c →
      stringArrayLoop (fuel + 1) (s.lead ++ (s.value ++ (s.trail ++ c :: rest))) =
        if c = 0x2C then
          (stringArrayLoop fuel rest).map fun (entries, elems) => (entry :: entries, spanAt s (c :: rest) :: elems)
        else some ([entry], [spanAt s (c :: rest)]) := by
  obtain ⟨entry, _, _, hshown, hv, hread⟩ := quoted_bytes (h ▸ s.isValue)
  refine ⟨entry, hshown, fun fuel c rest hc => ?_⟩
  simp only [spanAt, hv, List.cons_append, List.append_assoc, List.nil_append, stringArrayLoop,
    skipWS_read _ s.isLead (show isWs 0x22 = false from rfl), hread, skipWS_read rest s.isTrail hc.ascii.2]
  rcases hc with rfl | rfl | rfl <;> rfl

theorem stringArrayLoop_other (h : ∀ name, s.tree ≠ .str name) (fuel : ℕ) (rest : List ℕ) :
    stringArrayLoop fuel (s.lead ++ (s.value ++ rest)) = none := by
  cases fuel with
  | zero => rfl
  | succ fuel =>
    obtain ⟨c, _, hv, hc, hquote⟩ := unquoted_head s.isValue h
    rw [hv, List.cons_append, stringArrayLoop, skipWS_read _ s.isLead hc]
    split
    · next heq => exact absurd (List.cons.inj heq).1 hquote
    · rfl

theorem stringArrayLoop_slots (s : Slot) (slots : List Slot) :
    (∃ entries, ∀ fuel rest, (slotsText (s :: slots)).length < fuel →
      ∃ spans, stringArrayLoop fuel (slotsText (s :: slots) ++ 0x5D :: rest) = some (entries, spans) ∧
        Listed (s :: slots) (0x5D :: rest) entries spans) ∨
    ∀ fuel rest, stringArrayLoop fuel (slotsText (s :: slots) ++ 0x5D :: rest) = none := by
  induction slots generalizing s with
  | nil =>
    by_cases hstring : ∃ name, s.tree = .str name
    · obtain ⟨name, hname⟩ := hstring
      obtain ⟨entry, hshown, hread⟩ := stringArrayLoop_string hname
      refine .inl ⟨[entry], fun fuel rest hfuel => ?_⟩
      obtain ⟨fuel, rfl⟩ := Nat.exists_eq_succ_of_ne_zero (by omega : fuel ≠ 0)
      refine ⟨[spanAt s (0x5D :: rest)], ?_, .last ⟨rfl, rfl, name, hname, hshown⟩⟩
      simp only [slotsText_singleton, Slot.text, List.append_assoc, hread fuel 0x5D rest (.inr (.inl rfl))]
      rfl
    · refine .inr fun fuel rest => ?_
      simp only [slotsText_singleton, Slot.text, List.append_assoc]
      exact stringArrayLoop_other (fun name h => hstring ⟨name, h⟩) fuel _
  | cons s' slots ih =>
    by_cases hstring : ∃ name, s.tree = .str name
    · obtain ⟨name, hname⟩ := hstring
      obtain ⟨entry, hshown, hread⟩ := stringArrayLoop_string hname
      rcases ih s' with ⟨entries, hentries⟩ | hnone
      · refine .inl ⟨entry :: entries, fun fuel rest hfuel => ?_⟩
        obtain ⟨fuel, rfl⟩ := Nat.exists_eq_succ_of_ne_zero (by omega : fuel ≠ 0)
        obtain ⟨spans, hspans, hlisted⟩ := hentries fuel rest (by
          simp only [slotsText_cons, List.length_append, List.length_cons] at hfuel
          omega)
        refine ⟨spanAt s (0x2C :: (slotsText (s' :: slots) ++ 0x5D :: rest)) :: spans, ?_,
          .more ⟨rfl, rfl, name, hname, hshown⟩ hlisted⟩
        simp [Slot.text, hread fuel 0x2C _ (.inl rfl), hspans]
      · refine .inr fun fuel rest => ?_
        cases fuel with
        | zero => rfl
        | succ fuel =>
          simp [Slot.text, hread fuel 0x2C _ (.inl rfl), hnone]
    · refine .inr fun fuel rest => ?_
      simp only [slotsText_cons, Slot.text, List.append_assoc]
      exact stringArrayLoop_other (fun name h => hstring ⟨name, h⟩) fuel _

theorem stringArray_bytes {items : List Tree} (h : Bytes (.arr items) v) :
    (items = [] ∧ ∀ rest, stringArray (v ++ rest) = some ([], [])) ∨
    (∃ s slots entries, items = (s :: slots).map Slot.tree ∧ v = 0x5B :: (slotsText (s :: slots) ++ [0x5D]) ∧
      ∀ rest, ∃ spans, stringArray (v ++ rest) = some (entries, spans) ∧ Listed (s :: slots) (0x5D :: rest) entries spans) ∨
    ∀ rest, stringArray (v ++ rest) = none := by
  rcases bytes_arr h with ⟨rfl, w, hw, rfl⟩ | ⟨s, slots, hitems, rfl⟩
  · refine .inl ⟨rfl, fun rest => ?_⟩
    simp [stringArray, skipWS_read _ hw (show isWs 0x5D = false from rfl)]
  · have hloop (rest : List ℕ) : stringArray (0x5B :: (slotsText (s :: slots) ++ [0x5D]) ++ rest) =
        stringArrayLoop ((slotsText (s :: slots)).length + 2 + rest.length) (slotsText (s :: slots) ++ 0x5D :: rest) := by
      obtain ⟨c, _, hv, hc, hclose⟩ := bytes_head s.isValue
      have htext : ∃ tail, slotsText (s :: slots) ++ 0x5D :: rest = s.lead ++ c :: tail := by
        cases slots with
        | nil | cons => exact ⟨_, by simp [Slot.text, hv]; rfl⟩
      obtain ⟨tail, htext⟩ := htext
      have hskip (fuel : ℕ) : stringArrayLoop fuel (skipWS (slotsText (s :: slots) ++ 0x5D :: rest)) =
          stringArrayLoop fuel (slotsText (s :: slots) ++ 0x5D :: rest) := by
        cases fuel with
        | zero => rfl
        | succ fuel => simp [stringArrayLoop, skipWS_skipWS]
      have hlength : (0x5B :: (slotsText (s :: slots) ++ 0x5D :: rest)).length = (slotsText (s :: slots)).length + 2 + rest.length := by
        simp only [List.length_cons, List.length_append]
        omega
      rw [← hskip, stringArray]
      simp only [List.cons_append, List.append_assoc, List.nil_append, List.tail_cons, hlength]
      rw [htext, skipWS_read tail s.isLead hc]
      split
      · next heq => exact absurd (List.cons.inj heq).1 hclose
      · rfl
    rcases stringArrayLoop_slots s slots with ⟨entries, hentries⟩ | hnone
    · refine .inr (.inl ⟨s, slots, entries, hitems, rfl, fun rest => ?_⟩)
      rw [hloop]
      exact hentries _ rest (by omega)
    · exact .inr (.inr fun rest => by rw [hloop, hnone])

end Molebridge.NbProfile
