import Molebridge.Lib.Rfc8259

/-! Where the elements and members of a JSON text stand, in its UTF-8 bytes: a list of
values is slots with commas between them, an object pieces with commas between them, each
with the white space around it. -/

namespace Molebridge.Rfc8259

open Utf8

variable {ms : List (List ℕ × Tree)}

def Bytes (t : Tree) (v : List ℕ) : Prop := ∃ text, Spells t text ∧ v = encodeAll text

def CharBytes (s body : List ℕ) : Prop := ∃ text, Chars text s ∧ body = encodeAll text

structure Slot where
  tree : Tree
  lead : List ℕ
  value : List ℕ
  trail : List ℕ
  isLead : IsWs lead
  isValue : Bytes tree value
  isTrail : IsWs trail

def Slot.text (s : Slot) : List ℕ := s.lead ++ (s.value ++ s.trail)

/-- A member: white space, its name, white space, a colon and its value. -/
structure Piece where
  name : List ℕ
  lead : List ℕ
  body : List ℕ
  gap : List ℕ
  slot : Slot
  isLead : IsWs lead
  isBody : CharBytes name body
  isGap : IsWs gap

/-- A member from its opening quote up to its value. -/
def Piece.head (p : Piece) : List ℕ := 0x22 :: (p.body ++ 0x22 :: (p.gap ++ 0x3A :: p.slot.lead))

def Piece.text (p : Piece) : List ℕ := p.lead ++ (p.head ++ (p.slot.value ++ p.slot.trail))

/-- What stands between brackets or braces, with commas between. -/
def commas : List (List ℕ) → List ℕ
  | [] => []
  | [x] => x
  | x :: y :: rest => x ++ 0x2C :: commas (y :: rest)

def slotsText (slots : List Slot) : List ℕ := commas (slots.map Slot.text)

def piecesText (pieces : List Piece) : List ℕ := commas (pieces.map Piece.text)

@[simp] theorem slotsText_singleton (s : Slot) : slotsText [s] = s.text := rfl

@[simp] theorem slotsText_cons (s s' : Slot) (slots : List Slot) :
    slotsText (s :: s' :: slots) = s.text ++ 0x2C :: slotsText (s' :: slots) := rfl

@[simp] theorem piecesText_singleton (p : Piece) : piecesText [p] = p.text := rfl

@[simp] theorem piecesText_cons (p p' : Piece) (pieces : List Piece) :
    piecesText (p :: p' :: pieces) = p.text ++ 0x2C :: piecesText (p' :: pieces) := rfl

theorem encodeAll_ws {w : List ℕ} (h : IsWs w) : encodeAll w = w := encodeAll_ascii fun c hc => isWs_ascii (h c hc)

theorem encodeAll_ascii_cons {c : ℕ} (cs : List ℕ) (h : c < 0x80) : encodeAll (c :: cs) = c :: encodeAll cs := by
  rw [encodeAll_cons, encode_ascii h]
  rfl

theorem elements_slots {t : Tree} {ts : List Tree} {text : List ℕ} (h : Elements (t :: ts) text) :
    ∃ s slots, (s :: slots).map Slot.tree = t :: ts ∧ encodeAll text = slotsText (s :: slots) := by
  induction ts generalizing t text with
  | nil =>
    obtain ⟨w, v, w', hw, hv, hw', rfl⟩ := h
    refine ⟨⟨t, w, encodeAll v, w', hw, ⟨v, hv, rfl⟩, hw'⟩, [], rfl, ?_⟩
    simp [encodeAll_ws hw, encodeAll_ws hw', Slot.text]
  | cons t' ts ih =>
    obtain ⟨w, v, w', _, hw, hv, hw', hrest, rfl⟩ := h
    obtain ⟨s, slots, htrees, htext⟩ := ih hrest
    refine ⟨⟨t, w, encodeAll v, w', hw, ⟨v, hv, rfl⟩, hw'⟩, s :: slots, by rw [List.map_cons, htrees], ?_⟩
    simp [encodeAll_ws hw, encodeAll_ws hw', encodeAll_ascii_cons _ (show 0x2C < 0x80 by decide), htext, Slot.text]

theorem fields_pieces {m : List ℕ × Tree} {text : List ℕ} (h : Fields (m :: ms) text) :
    ∃ p pieces, ((p :: pieces).map fun p => (p.name, p.slot.tree)) = m :: ms ∧ encodeAll text = piecesText (p :: pieces) := by
  induction ms generalizing m text with
  | nil =>
    obtain ⟨k, t⟩ := m
    obtain ⟨w, -, w₁, w₂, v, w', hw, ⟨body, hk, rfl⟩, hw₁, hw₂, hv, hw', rfl⟩ := h
    refine ⟨⟨k, w, encodeAll body, w₁, ⟨t, w₂, encodeAll v, w', hw₂, ⟨v, hv, rfl⟩, hw'⟩, hw, ⟨body, hk, rfl⟩, hw₁⟩, [], rfl, ?_⟩
    simp [encodeAll_ws hw, encodeAll_ws hw₁, encodeAll_ws hw₂, encodeAll_ws hw',
      encodeAll_ascii_cons _ (show 0x3A < 0x80 by decide), encodeAll_ascii_cons _ (show 0x22 < 0x80 by decide),
      Piece.text, Piece.head]
  | cons m' ms ih =>
    obtain ⟨k, t⟩ := m
    obtain ⟨w, -, w₁, w₂, v, w', _, hw, ⟨body, hk, rfl⟩, hw₁, hw₂, hv, hw', hrest, rfl⟩ := h
    obtain ⟨p, pieces, hnames, htext⟩ := ih hrest
    refine ⟨⟨k, w, encodeAll body, w₁, ⟨t, w₂, encodeAll v, w', hw₂, ⟨v, hv, rfl⟩, hw'⟩, hw, ⟨body, hk, rfl⟩, hw₁⟩, p :: pieces,
      by rw [List.map_cons, hnames], ?_⟩
    simp [encodeAll_ws hw, encodeAll_ws hw₁, encodeAll_ws hw₂, encodeAll_ws hw',
      encodeAll_ascii_cons _ (show 0x3A < 0x80 by decide), encodeAll_ascii_cons _ (show 0x22 < 0x80 by decide),
      encodeAll_ascii_cons _ (show 0x2C < 0x80 by decide), htext, Piece.text, Piece.head]

theorem bytes_arr {items : List Tree} {v : List ℕ} (h : Bytes (.arr items) v) :
    (items = [] ∧ ∃ w, IsWs w ∧ v = 0x5B :: (w ++ [0x5D])) ∨
      ∃ s slots, items = (s :: slots).map Slot.tree ∧ v = 0x5B :: (slotsText (s :: slots) ++ [0x5D]) := by
  obtain ⟨_, ⟨body, helements, rfl⟩, rfl⟩ := h
  have hbytes : encodeAll (0x5B :: body ++ [0x5D]) = 0x5B :: (encodeAll body ++ [0x5D]) := by
    rw [List.cons_append, encodeAll_ascii_cons _ (by decide), encodeAll_append]
    rfl
  rw [hbytes]
  cases items with
  | nil => exact .inl ⟨rfl, body, helements, by rw [encodeAll_ws helements]⟩
  | cons t ts =>
    obtain ⟨s, slots, htrees, htext⟩ := elements_slots helements
    exact .inr ⟨s, slots, htrees.symm, by rw [htext]⟩

theorem fields_bytes {members : List (List ℕ × Tree)} {body : List ℕ} (h : Fields members body) :
    (members = [] ∧ IsWs body) ∨
      ∃ p pieces, members = ((p :: pieces).map fun p => (p.name, p.slot.tree)) ∧ encodeAll body = piecesText (p :: pieces) := by
  cases members with
  | nil => exact .inl ⟨rfl, h⟩
  | cons m ms =>
    obtain ⟨p, pieces, hnames, htext⟩ := fields_pieces h
    exact .inr ⟨p, pieces, hnames.symm, htext⟩

theorem nestingItems_le {ts : List Tree} {n : ℕ} : nestingItems ts ≤ n ↔ ∀ t ∈ ts, t.nesting ≤ n := by
  induction ts with
  | nil => simp [nestingItems]
  | cons t ts ih => simp [nestingItems, ih]

theorem nestingMembers_le {n : ℕ} : nestingMembers ms ≤ n ↔ ∀ m ∈ ms, m.2.nesting ≤ n := by
  induction ms with
  | nil => simp [nestingMembers]
  | cons m ms ih => simp [nestingMembers, ih]

/-! ### A text that is one object -/

/-- White space, an object and white space; `inner` is the white space in front of its pieces. -/
structure Layout where
  lead : List ℕ
  inner : List ℕ
  pieces : List Piece
  trail : List ℕ
  isLead : IsWs lead
  isInner : IsWs inner
  isTrail : IsWs trail

def Layout.opened (L : Layout) : List ℕ := L.inner ++ (piecesText L.pieces ++ 0x7D :: L.trail)

def Layout.text (L : Layout) : List ℕ := L.lead ++ 0x7B :: L.opened

def Layout.members (L : Layout) : List (List ℕ × Tree) := L.pieces.map fun p => (p.name, p.slot.tree)

theorem fields_layout {members : List (List ℕ × Tree)} {w body w' : List ℕ} (hw : IsWs w) (h : Fields members body) (hw' : IsWs w') :
    ∃ L : Layout, encodeAll (w ++ 0x7B :: (body ++ 0x7D :: w')) = L.text ∧ L.members = members := by
  have hbytes : encodeAll (w ++ 0x7B :: (body ++ 0x7D :: w')) = w ++ 0x7B :: (encodeAll body ++ 0x7D :: w') := by
    simp [encodeAll_ascii_cons _ (show 0x7B < 0x80 by decide), encodeAll_ascii_cons _ (show 0x7D < 0x80 by decide),
      encodeAll_ws hw, encodeAll_ws hw']
  rw [hbytes]
  rcases fields_bytes h with ⟨rfl, hbody⟩ | ⟨p, pieces, rfl, htext⟩
  · exact ⟨⟨w, body, [], w', hw, hbody, hw'⟩, by rw [encodeAll_ws hbody]; rfl, rfl⟩
  · exact ⟨⟨w, [], p :: pieces, w', hw, isWs_nil, hw'⟩, by rw [htext]; rfl, rfl⟩

end Molebridge.Rfc8259
