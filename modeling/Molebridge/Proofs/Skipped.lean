import Molebridge.Spec.Skip
import Molebridge.Proofs.Decoded

/-! Skipping is decoding: the skip mode finds the error that decoding finds, at the same
place, and the members that a plan selects are those of the decoded object. -/

namespace Molebridge.Validate

open Utf8 Rfc8259

variable {below : List (List ℕ)} {built : Built}

/-! ### Strings, numbers and words -/

def restOf {α : Type} : Parsed α → Except DecodeError (List ℕ)
  | .ok (_, rest) => .ok rest
  | .error e => .error e

@[simp] theorem restOf_more (front : List ℕ) (p : Parsed (List ℕ)) : restOf (more front p) = restOf p := by
  rcases p with e | ⟨s, -⟩ <;> rfl

theorem skipString_short {e c : ℕ} (rest : List ℕ) (h : shortEscape e = some c) : skipString (0x5C :: e :: rest) = skipString rest := by
  rw [skipString.eq_def]
  rcases shortEscape_cases h with
    ⟨rfl, rfl⟩ | ⟨rfl, rfl⟩ | ⟨rfl, rfl⟩ | ⟨rfl, rfl⟩ | ⟨rfl, rfl⟩ | ⟨rfl, rfl⟩ | ⟨rfl, rfl⟩ | ⟨rfl, rfl⟩ <;> rfl

theorem skipString_unit {a b c d u : ℕ} (rest : List ℕ) (h : Rfc8259.hex4 a b c d = some u) :
    skipString (0x5C :: 0x75 :: a :: b :: c :: d :: rest) = skipString rest := by
  have hskip : skipString (0x5C :: 0x75 :: a :: b :: c :: d :: rest) =
      if (hex4 a b c d).isSome then skipString rest else .error .invalid := by
    rfl
  rw [hskip, hex4_eq, h]
  rfl

variable {rest name b : List ℕ} {keys : List (List ℕ)} {k : ObjectKeys} {result : List (List ℕ × Value)}
  {fuel depth : ℕ} {v : Value}

theorem skipString_refused (h : escape rest = none) : skipString (0x5C :: rest) = .error .invalid := by
  cases rest with
  | nil =>
    rfl
  | cons e rest =>
    simp only [escape] at h
    cases hshort : shortEscape e with
    | some c => simp [hshort] at h
    | none =>
      simp only [hshort] at h
      by_cases hu : e = 0x75
      · subst hu
        simp only [if_true] at h
        rcases rest with _ | ⟨a, _ | ⟨b, _ | ⟨c, _ | ⟨d, rest⟩⟩⟩⟩
        iterate 4
          rfl
        · cases hhex : Rfc8259.hex4 a b c d with
          | none =>
            have hskip : skipString (0x5C :: 0x75 :: a :: b :: c :: d :: rest) =
                if (hex4 a b c d).isSome then skipString rest else .error .invalid := by
              rfl
            rw [hskip, hex4_eq, hhex]
            rfl
          | some u =>
            simp only [unicodeEscape, hhex] at h
            split_ifs at h
            split at h <;> cases h
      · unfold shortEscape at hshort
        split_ifs at hshort with h1 h2 h3 h4 h5 h6
        rw [skipString.eq_def]
        dsimp only
        rw [if_neg (by decide), if_neg (by decide), if_neg (by decide), if_neg (by omega), if_neg hu]

theorem skipString_escape (rest : List ℕ) : skipString (0x5C :: rest) =
    match escape rest with
    | some (_, after) => skipString after
    | none => .error .invalid := by
  cases hescape : escape rest with
  | some found =>
    obtain ⟨u, after⟩ := found
    rcases escape_cases hescape with ⟨e, hshort, rfl⟩ | ⟨a, b, c, d, _, _, _, hhex, -, hlow, -, rfl⟩ | ⟨a, b, c, d, hhex, -, rfl⟩
    · exact skipString_short after hshort
    · obtain ⟨-, _, _, _, _, rfl, hhex'⟩ := lowEscape_some hlow
      exact (skipString_unit _ hhex).trans (skipString_unit after hhex')
    · exact skipString_unit after hhex
  | none => exact skipString_refused hescape

theorem skipString_eq (b : List ℕ) : skipString b = restOf (chars b) := by
  induction hlen : b.length using Nat.strong_induction_on generalizing b with
  | _ n ih =>
    subst hlen
    cases b with
    | nil => rfl
    | cons c rest =>
      by_cases hquote : c = 0x22
      · subst hquote
        rw [chars_quote, skipString.eq_def]
        rfl
      by_cases hback : c = 0x5C
      · subst hback
        rw [skipString_escape, chars_escape]
        cases hescape : escape rest with
        | none => rfl
        | some found =>
          obtain ⟨u, after⟩ := found
          obtain ⟨_, rfl⟩ := escape_suffix hescape
          simp only [restOf_more]
          exact ih after.length (by simp) after rfl
      by_cases hcontrol : c < 0x20
      · rw [chars_control rest hcontrol, skipString.eq_def]
        dsimp only
        rw [if_neg hquote, if_pos hcontrol]
        rfl
      · rw [chars_plain rest (isPlain_iff.2 ⟨hquote, hback, by omega⟩), restOf_more, ← ih rest.length (by simp) rest rfl,
          skipString.eq_def]
        dsimp only
        rw [if_neg hquote, if_neg hcontrol, if_pos hback]

theorem key_eq_str (b : List ℕ) : key b = str b := by
  unfold key str
  split <;> simp_all

variable (pf : ParseFloat)

/-! ### The key stack -/

/-- The object's keys on the stack, or those of its own set, are the names of its members so
far; below them the stack is as it was. -/
structure Tracks (below : List (List ℕ)) (k : ObjectKeys) (keys : List (List ℕ)) (result : List (List ℕ × Value)) : Prop where
  base : k.base = below.length
  stack : keys.take k.base = below
  names : ∀ name, name ∈ k.big.getD (keys.drop k.base) ↔ hasKey name result = true

theorem tracks_new (keys : List (List ℕ)) : Tracks keys (newKeys keys) keys [] where
  base := rfl
  stack := List.take_length
  names name := by simp [newKeys]

theorem addKey_known
    (h : Tracks below k keys result) (hname : hasKey name result = true) : addKey keys k name = none := by
  have hmem := (h.names name).2 hname
  unfold addKey
  cases hbig : k.big with
  | some | none =>
    rw [hbig] at hmem
    exact if_pos (List.elem_iff.2 hmem)

theorem addKey_new (v : Value)
    (h : Tracks below k keys result) (hname : hasKey name result = false) :
    ∃ keys' k', addKey keys k name = some (keys', k') ∧ Tracks below k' keys' (setKey name v result) := by
  have hmem : name ∉ k.big.getD (keys.drop k.base) := by
    rw [h.names, hname]
    exact Bool.false_ne_true
  unfold addKey
  cases hbig : k.big with
  | some big =>
    rw [hbig] at hmem
    refine ⟨keys, _, if_neg fun hin => hmem (List.elem_iff.1 hin), h.base, h.stack, fun other => ?_⟩
    have hother := h.names other
    rw [hbig] at hother
    simp only [Option.getD_some] at hother ⊢
    rw [List.mem_cons, hother, hasKey_setKey]
  | none =>
    rw [hbig] at hmem
    have hlen : k.base ≤ keys.length := by
      have := congrArg List.length h.stack
      rw [List.length_take, ← h.base] at this
      omega
    have hstack : (keys ++ [name]).take k.base = below := by rw [List.take_append_of_le_length hlen, h.stack]
    have hnames : ∀ other, other ∈ (keys ++ [name]).drop k.base ↔ hasKey other (setKey name v result) = true := by
      intro other
      have hother := h.names other
      rw [hbig, Option.getD_none] at hother
      rw [List.drop_append_of_le_length hlen, List.mem_append, hother, List.mem_singleton, hasKey_setKey, or_comm]
    refine ⟨keys ++ [name], _, if_neg fun hin => hmem (List.elem_iff.1 hin), ?_⟩
    split_ifs
    · exact ⟨h.base, hstack, hnames⟩
    · exact ⟨h.base, hstack, by rw [hbig]; exact hnames⟩

/-! ### Values -/

/-- What skipping returns where reading returns this. -/
def forget (keys : List (List ℕ)) : Parsed Value → Skipped
  | .ok (_, rest) => .ok (keys, rest)
  | .error e => .error e

@[simp] theorem forget_error (keys : List (List ℕ)) (e : DecodeError) : forget keys (.error e) = .error e := rfl

@[simp] theorem forget_ok (keys : List (List ℕ)) (v : Value) (rest : List ℕ) : forget keys (.ok (v, rest)) = .ok (keys, rest) := rfl

theorem number_forget (keys : List (List ℕ)) (b : List ℕ) : forget keys (number pf b) =
    match scanNumber b with
    | .ok (_, _, rest) => .ok (keys, rest)
    | .error e => .error e := by
  cases hscan : scanNumber b with
  | error e => simp [number, hscan]
  | ok found =>
    obtain ⟨_, _, _⟩ := found
    obtain ⟨n, rfl, -, rfl, -⟩ := scanNumber_sound hscan
    rw [number_eq pf hscan, forget_ok]

def Skips (fuel : ℕ) : Prop := ∀ (depth : ℕ) (keys : List (List ℕ)) (b : List ℕ), skip fuel depth keys b = forget keys (value pf fuel depth b)

def SkipsItems (fuel : ℕ) : Prop :=
  ∀ (depth : ℕ) (keys : List (List ℕ)) (result : List Value) (b : List ℕ),
    skipArrayLoop fuel depth keys b = forget keys (arrayLoop pf fuel depth result b)

def SkipsMembers (fuel : ℕ) : Prop :=
  ∀ (depth : ℕ) (below : List (List ℕ)) (k : ObjectKeys) (keys : List (List ℕ)) (result : List (List ℕ × Value)) (b : List ℕ),
    Tracks below k keys result → skipObjectLoop fuel depth k keys b = forget below (objectLoop pf fuel depth result b)

variable {pf}

theorem begins_or (c : ℕ) (b : List ℕ) : (∃ rest, b = c :: rest) ∨ ∀ rest, b ≠ c :: rest := by
  by_cases h : ∃ rest, b = c :: rest
  · exact .inl h
  · exact .inr fun rest hb => h ⟨rest, hb⟩

theorem skips_items_step (hskip : Skips pf fuel) (hitems : SkipsItems pf fuel) : SkipsItems pf (fuel + 1) := by
  intro depth keys result b
  simp only [skipArrayLoop, arrayLoop, hskip depth keys]
  rcases value pf fuel depth (space b) with e | ⟨v, rest⟩
  · rfl
  simp only [forget_ok]
  rcases begins_or 0x2C (space rest) with ⟨after, hcomma⟩ | hcomma
  · simp only [hcomma]
    exact hitems depth keys _ after
  rcases begins_or 0x5D (space rest) with ⟨_, hclose⟩ | hclose
  · simp only [hclose, forget_ok]
  · simp only [forget_error]

theorem skips_members_step (hskip : Skips pf fuel) (hmembers : SkipsMembers pf fuel) : SkipsMembers pf (fuel + 1) := by
  intro depth below k keys result b htracks
  simp only [skipObjectLoop, objectLoop, hskip depth keys, key_eq_str]
  rcases begins_or 0x22 (space b) with ⟨rest, hquote⟩ | hquote
  · simp only [hquote]
    rcases str rest with e | ⟨name, rest⟩
    · rfl
    rcases begins_or 0x3A (space rest) with ⟨rest', hcolon⟩ | hcolon
    · simp only [hcolon]
      rcases value pf fuel depth (space rest') with e | ⟨v, rest⟩
      · rfl
      simp only [forget_ok]
      -- The key is looked up after the value in both.
      cases hname : hasKey name result with
      | true =>
        rw [addKey_known htracks hname]
        rfl
      | false =>
        obtain ⟨keys', k', hadd, htracks'⟩ := addKey_new v htracks hname
        simp only [hadd, Bool.false_eq_true, if_false]
        rcases begins_or 0x2C (space rest) with ⟨after, hcomma⟩ | hcomma
        · simp only [hcomma]
          exact hmembers depth below k' keys' _ after htracks'
        rcases begins_or 0x7D (space rest) with ⟨_, hclose⟩ | hclose
        · simp [hclose, dropKeys, htracks'.stack]
        · simp only [forget_error]
    · simp only [forget_error]
  · simp only [forget_error]

theorem skipWord_eq (keys : List (List ℕ)) (b : List ℕ) : skipWord keys b = forget keys (word b) := by
  unfold skipWord word
  cases literal wordTrue b <;> cases literal wordFalse b <;> cases literal wordNull b <;> cases literal wordNaN b <;>
    cases literal wordInfinity b <;> rfl

theorem skips_step (hitems : SkipsItems pf fuel) (hmembers : SkipsMembers pf fuel) : Skips pf (fuel + 1) := by
  intro depth keys b
  cases b with
  | nil => rfl
  | cons c rest =>
    simp only [skip, value]
    split_ifs with hobject harray hstring hnumber
    · unfold skipObject object
      split_ifs
      · rfl
      rcases begins_or 0x7D (space rest) with ⟨_, hclose⟩ | hclose
      · simp only [hclose, forget_ok]
      · simp only
        exact hmembers (depth + 1) keys _ keys [] _ (tracks_new keys)
    · unfold skipArray array
      split_ifs
      · rfl
      rcases begins_or 0x5D (space rest) with ⟨_, hclose⟩ | hclose
      · simp only [hclose, forget_ok]
      · simp only
        exact hitems (depth + 1) keys [] _
    · rw [skipString_eq, str_eq_chars]
      rcases chars rest with e | ⟨s, rest⟩ <;> rfl
    · exact (number_forget pf keys (c :: rest)).symm
    · exact skipWord_eq keys (c :: rest)

/-- Skipping is reading with the value forgotten. -/
theorem skips (pf : ParseFloat) (fuel : ℕ) : Skips pf fuel ∧ SkipsItems pf fuel ∧ SkipsMembers pf fuel := by
  induction fuel with
  | zero =>
    refine ⟨fun _ _ _ => rfl, fun _ _ _ _ => ?_, fun _ _ _ _ _ _ _ => ?_⟩
    · simp [skipArrayLoop, arrayLoop]
    · simp [skipObjectLoop, objectLoop]
  | succ fuel ih =>
    obtain ⟨hskip, hitems, hmembers⟩ := ih
    exact ⟨skips_step hitems hmembers, skips_items_step hskip hitems, skips_members_step hskip hmembers⟩

def errorOf {α : Type} : Except DecodeError α → Option DecodeError
  | .ok _ => none
  | .error e => some e

theorem checkJSON_eq (pf : ParseFloat) (raw : List ℕ) : checkJSON raw = errorOf (decodeJSON pf raw) := by
  unfold checkJSON decodeJSON
  split_ifs
  · rfl
  rw [(skips pf _).1]
  rcases value pf (2 * raw.length + 1) 0 (space raw) with e | ⟨v, -⟩
  · rfl
  · simp only [forget_ok]
    split_ifs <;> rfl

/-! ### The members of a plan -/

/-- What the result of a plan holds of a member with this value. -/
def Plan.picks (plan : Plan) (name : List ℕ) (v : Value) : Option Member :=
  match v with
  | .arr items => if plan.streams name then some (.streamed items.length) else if plan.keeps name then some (.built v) else none
  | _ => if plan.keeps name then some (.built v) else none

/-- The elements that go to the plan's function for the member. -/
def Plan.hands (plan : Plan) (name : List ℕ) (v : Value) : List Value :=
  match v with
  | .arr items => if plan.streams name then items else []
  | _ => []

def Plan.select (plan : Plan) (members : List (List ℕ × Value)) : List (List ℕ × Member) :=
  members.filterMap fun m => (plan.picks m.1 m.2).map (m.1, ·)

def Built.add (built : Built) (plan : Plan) (name : List ℕ) (v : Value) : Built where
  members := (plan.picks name v).elim built.members fun m => setMember name m built.members
  handed := built.handed ++ (plan.hands name v).map (name, ·)

theorem streamLoop_eq (fuel depth : ℕ) (seen : List Value) (b : List ℕ) :
    arrayLoop pf fuel depth seen b = (match streamLoop pf fuel depth seen b with
      | .ok (vs, rest) => .ok (.arr vs, rest)
      | .error e => .error e) := by
  induction fuel generalizing seen b with
  | zero => simp only [arrayLoop, streamLoop]
  | succ fuel ih =>
    simp only [arrayLoop, streamLoop]
    rcases value pf fuel depth (space b) with e | ⟨v, -⟩
    · rfl
    · dsimp only
      split <;> simp_all

theorem stream_eq (fuel depth : ℕ) (rest : List ℕ) :
    value pf fuel depth (0x5B :: rest) = (match stream pf fuel (depth + 1) rest with
      | .ok (vs, rest) => .ok (.arr vs, rest)
      | .error e => .error e) := by
  cases fuel with
  | zero => rfl
  | succ fuel =>
    simp only [value, array, stream, streamLoop_eq]
    rw [if_neg (by decide), if_pos trivial]
    by_cases hdepth : maxDepth < depth + 1
    · rw [if_pos hdepth, if_pos hdepth]
    rw [if_neg hdepth, if_neg hdepth]
    split
    · simp_all
    · split <;> simp_all

theorem objectLoop_obj
    (h : objectLoop pf fuel depth result b = .ok (v, rest)) : ∃ members, v = .obj members := by
  induction fuel generalizing result b with
  | zero => simp [objectLoop] at h
  | succ fuel ih =>
    obtain ⟨-, _, -, -, _, -, -, -, -, -, -, ⟨_, -, hloop⟩ | ⟨-, rfl⟩⟩ := objectLoop_ok pf h
    · exact ih hloop
    · exact ⟨_, rfl⟩

theorem object_obj
    (h : object depth b (objectLoop pf fuel depth []) = .ok (v, rest)) : ∃ members, v = .obj members := by
  unfold object at h
  split_ifs at h
  split at h
  · exact ⟨[], (Prod.mk.inj (Except.ok.inj h)).1.symm⟩
  · exact objectLoop_obj h

theorem value_kind {after : List ℕ} (h : value pf fuel depth b = .ok (v, after)) :
    (b.head? = some 0x7B ∧ ∃ members, v = .obj members) ∨ (b.head? = some 0x5B ∧ ∃ items, v = .arr items) ∨
      (b.head? ≠ some 0x7B ∧ (∀ members, v ≠ .obj members) ∧ ∀ items, v ≠ .arr items) := by
  cases fuel with
  | zero => cases h
  | succ fuel =>
    cases b with
    | nil => cases h
    | cons c rest =>
      by_cases harray : c = 0x5B
      · subst harray
        rw [stream_eq] at h
        split at h
        · cases h
          exact .inr (.inl ⟨rfl, _, rfl⟩)
        · cases h
      simp only [value] at h
      split_ifs at h with hobject hstring hnumber
      · exact .inl ⟨by rw [hobject]; rfl, object_obj h⟩
      all_goals
        have hhead : (c :: rest).head? ≠ some 0x7B := fun hc => hobject (Option.some.inj hc)
        refine .inr (.inr ⟨hhead, ?_⟩)
      · split at h
        · cases h
          exact ⟨by simp, by simp⟩
        · cases h
      · obtain ⟨n, -, rfl, -⟩ := number_sound pf h
        unfold numberValue
        split_ifs <;> exact ⟨by simp, by simp⟩
      · rcases word_sound h with ⟨rfl, -⟩ | ⟨rfl, -⟩ | ⟨rfl, -⟩ <;> exact ⟨by simp, by simp⟩

variable {plan : Plan}

theorem Built.add_kept (built : Built) (h : ∀ items, v = .arr items → plan.streams name = false) :
    built.add plan name v = if plan.keeps name then { built with members := setMember name (.built v) built.members } else built := by
  have hhands : plan.hands name v = [] := by
    cases v with
    | arr items => exact if_neg (by simp [h items rfl])
    | _ => rfl
  have hpicks : plan.picks name v = if plan.keeps name then some (.built v) else none := by
    cases v with
    | arr items => exact if_neg (by simp [h items rfl])
    | _ => rfl
  unfold Built.add
  rw [hhands, hpicks]
  split_ifs <;> simp

theorem memberValue_eq (plan : Plan) (fuel depth : ℕ) (keys : List (List ℕ)) (name b : List ℕ) (built : Built) :
    memberValue pf plan fuel depth keys name b built = (match value pf fuel depth b with
      | .ok (v, rest) => .ok (built.add plan name v, keys, rest)
      | .error e => .error e) := by
  unfold memberValue
  by_cases hstream : b.head? = some 0x5B ∧ plan.streams name = true
  · obtain ⟨hhead, hstreams⟩ := hstream
    obtain ⟨rest, rfl⟩ : ∃ rest, b = 0x5B :: rest := by
      cases b with
      | nil => cases hhead
      | cons c rest => exact ⟨rest, by rw [Option.some.inj hhead]⟩
    simp only [hhead, hstreams, beq_self_eq_true, Bool.and_self, List.tail_cons, stream_eq]
    rcases stream pf fuel (depth + 1) rest with e | ⟨-, -⟩
    · rfl
    · simp [Built.add, Plan.picks, Plan.hands, hstreams]
  · have hfalse : (b.head? == some 0x5B && plan.streams name) = false := by
      rw [Bool.and_eq_false_iff, beq_eq_false_iff_ne]
      by_cases hhead : b.head? = some 0x5B
      · exact .inr (by simpa using fun h => hstream ⟨hhead, h⟩)
      · exact .inl hhead
    simp only [hfalse, (skips pf fuel).1 depth keys b]
    cases hvalue : value pf fuel depth b with
    | error e => split_ifs <;> rfl
    | ok found =>
      obtain ⟨v, _⟩ := found
      have hkept : ∀ items, v = .arr items → plan.streams name = false := by
        rintro items rfl
        rcases value_kind hvalue with ⟨-, _, hv⟩ | ⟨hhead, -⟩ | ⟨-, -, hnot⟩
        · cases hv
        · simpa [hhead] using hfalse
        · exact absurd rfl (hnot items)
      simp only [Built.add_kept built hkept]
      split_ifs <;> rfl

theorem setMember_front {m : Member} {members : List (List ℕ × Member)} (h : ∀ x ∈ members, name < x.1) :
    setMember name m members = (name, m) :: members := by
  cases members with
  | nil => rfl
  | cons first members =>
    exact if_pos (h _ (.head _))

theorem select_setKey (hname : hasKey name result = false)
    (h : Sorted result) : plan.select (setKey name v result) =
      (plan.picks name v).elim (plan.select result) fun m => setMember name m (plan.select result) := by
  induction result with
  | nil =>
    simp only [setKey, Plan.select, List.filterMap_cons]
    cases plan.picks name v <;> rfl
  | cons first result ih =>
    obtain ⟨k, w⟩ := first
    obtain ⟨hfirst, hrest⟩ := List.pairwise_cons.1 h
    rw [← Bool.not_eq_true, hasKey_cons, not_or, Bool.not_eq_true] at hname
    simp only [setKey, if_neg hname.1]
    split_ifs with hlt
    · have hfront : ∀ x ∈ plan.select ((k, w) :: result), name < x.1 := by
        intro x hx
        obtain ⟨m, hm, hpicked⟩ := List.mem_filterMap.1 hx
        obtain ⟨_, -, rfl⟩ := Option.map_eq_some_iff.1 hpicked
        rcases List.mem_cons.1 hm with rfl | hm
        · exact hlt
        · exact lt_trans hlt (hfirst m hm)
      cases hpicks : plan.picks name v with
      | none => simp [Plan.select, hpicks]
      | some m =>
        rw [Option.elim, setMember_front hfront]
        simp [Plan.select, hpicks]
    · have ih := ih hname.2 hrest
      unfold Plan.select at ih ⊢
      rw [List.filterMap_cons, List.filterMap_cons, ih]
      cases plan.picks k w with
      | none => rfl
      | some m =>
        cases plan.picks name v with
        | none => rfl
        | some m' => simp [setMember, if_neg hlt, if_neg hname.1]

def handedTo (handed : List (List ℕ × Value)) (name : List ℕ) : List Value := (handed.filter (·.1 == name)).map Prod.snd

theorem handedTo_add (built : Built) (plan : Plan) (name : List ℕ) (v : Value) (other : List ℕ) :
    handedTo (built.add plan name v).handed other =
      handedTo built.handed other ++ if other = name then plan.hands name v else [] := by
  unfold handedTo Built.add
  rw [List.filter_append, List.map_append, List.filter_map]
  split_ifs with h
  · subst h
    simp
  · simp [Function.comp_def, Ne.symm h]

/-- What was built is what the plan selects of these members, and the elements of each
streamed list were handed on in their order. -/
structure Selected (plan : Plan) (read : List (List ℕ × Value)) (built : Built) : Prop where
  members : built.members = plan.select read
  handed : ∀ m ∈ read, handedTo built.handed m.1 = plan.hands m.1 m.2
  others : ∀ name, hasKey name read = false → handedTo built.handed name = []

theorem selected_nil (plan : Plan) : Selected plan [] {} := ⟨rfl, fun _ h => (nomatch h), fun _ _ => rfl⟩

theorem Selected.add (v : Value)
    (h : Selected plan result built) (hsorted : Sorted result) (hname : hasKey name result = false) :
    Selected plan (setKey name v result) (built.add plan name v) := by
  refine ⟨?_, fun m hm => ?_, fun other hother => ?_⟩
  · rw [select_setKey hname hsorted, ← h.members]
    rfl
  · rw [handedTo_add]
    rcases (mem_setKey hname m).1 hm with rfl | hmem
    · rw [if_pos rfl, h.others name hname, List.nil_append]
    · have hne : m.1 ≠ name := by
        rintro rfl
        exact nomatch (hasKey_of_mem hmem).symm.trans hname
      rw [if_neg hne, List.append_nil, h.handed m hmem]
  · rw [← Bool.not_eq_true, hasKey_setKey, not_or, Bool.not_eq_true] at hother
    rw [handedTo_add, if_neg hother.1, List.append_nil, h.others other hother.2]

/-- What building a selection returns where reading the object returns this. -/
def Builds (plan : Plan) (read : Parsed Value) (got : Parsed Built) : Prop :=
  match read with
  | .error e => got = .error e
  | .ok (v, rest) => ∃ members built, v = .obj members ∧ got = .ok (built, rest) ∧ Selected plan members built

theorem membersLoop_builds (pf : ParseFloat) (plan : Plan) (fuel : ℕ)
    (b : List ℕ) (htracks : Tracks [] k keys result) (hselected : Selected plan result built) (hsorted : Sorted result) :
    Builds plan (objectLoop pf fuel 1 result b) (membersLoop pf plan fuel k keys built b) := by
  induction fuel generalizing k keys result built b with
  | zero => simp [objectLoop, membersLoop, Builds]
  | succ fuel ih =>
    simp only [objectLoop, membersLoop, memberValue_eq, key_eq_str]
    rcases begins_or 0x22 (space b) with ⟨rest, hquote⟩ | hquote
    · simp only [hquote]
      rcases str rest with e | ⟨name, rest⟩
      · rfl
      rcases begins_or 0x3A (space rest) with ⟨after, hcolon⟩ | hcolon
      · simp only [hcolon]
        rcases value pf fuel 1 (space after) with e | ⟨v, rest⟩
        · rfl
        dsimp only
        cases hname : hasKey name result with
        | true =>
          rw [addKey_known htracks hname]
          rfl
        | false =>
          obtain ⟨_, _, hadd, htracks'⟩ := addKey_new v htracks hname
          have hselected' := hselected.add v hsorted hname
          simp only [hadd, Bool.false_eq_true, if_false]
          rcases begins_or 0x2C (space rest) with ⟨after, hcomma⟩ | hcomma
          · simp only [hcomma]
            exact ih after htracks' hselected' (sorted_setKey hname hsorted)
          rcases begins_or 0x7D (space rest) with ⟨_, hclose⟩ | hclose
          · simp only [hclose]
            exact ⟨_, _, rfl, rfl, hselected'⟩
          · simp only [Builds]
      · simp only [Builds]
    · simp only [Builds]

theorem members_builds (pf : ParseFloat) (plan : Plan) (fuel : ℕ) (rest : List ℕ) :
    Builds plan (value pf (fuel + 1) 0 (0x7B :: rest)) (members pf plan fuel rest) := by
  rw [value, if_pos rfl]
  unfold object members
  rcases begins_or 0x7D (space rest) with ⟨_, hclose⟩ | hclose
  · simp only [hclose]
    exact ⟨[], {}, rfl, rfl, selected_nil plan⟩
  · simp only
    exact membersLoop_builds pf plan fuel (space rest) (tracks_new []) (selected_nil plan) .nil

/-- What a selection of the top level is, by what the value of the text is. -/
def Tops (plan : Plan) (read : Parsed Value) (got : Parsed (Option Built)) : Prop :=
  match read with
  | .error e => got = .error e
  | .ok (.obj members, rest) => ∃ built, got = .ok (some built, rest) ∧ Selected plan members built
  | .ok (_, rest) => got = .ok (none, rest)

theorem topLevel_tops (pf : ParseFloat) (raw : List ℕ) (plan : Plan) :
    Tops plan (value pf (2 * raw.length + 1) 0 (space raw)) (topLevel pf raw plan) := by
  unfold topLevel
  split
  · next rest hobject =>
    rw [hobject]
    have hbuilds := members_builds pf plan (2 * raw.length) rest
    cases hvalue : value pf (2 * raw.length + 1) 0 (0x7B :: rest) with
    | error e =>
      rw [hvalue] at hbuilds
      have hgot : members pf plan (2 * raw.length) rest = .error e := hbuilds
      simp only [hgot]
      rfl
    | ok found =>
      rw [hvalue] at hbuilds
      obtain ⟨read, built, hv, hgot, hselected⟩ := hbuilds
      obtain ⟨v, after⟩ := found
      subst hv
      simp only [hgot]
      exact ⟨built, rfl, hselected⟩
  · next hobject =>
    rw [(skips pf _).1]
    cases hvalue : value pf (2 * raw.length + 1) 0 (space raw) with
    | error e => rfl
    | ok found =>
      obtain ⟨v, _⟩ := found
      cases v with
      | obj read =>
        rcases value_kind hvalue with ⟨hhead, -⟩ | ⟨-, _, hv⟩ | ⟨-, hnot, -⟩
        · cases hspace : space raw with
          | nil => simp [hspace] at hhead
          | cons c after =>
            rw [hspace] at hhead
            exact absurd (hspace.trans (by rw [Option.some.inj hhead])) (hobject after)
        · cases hv
        · exact absurd rfl (hnot read)
      | _ => rfl

theorem decodeJSONMembers_eq (pf : ParseFloat) (raw : List ℕ) (plan : Plan) :
    match decodeJSON pf raw with
    | .error e => decodeJSONMembers pf raw plan = .error e
    | .ok (.obj members) => ∃ built, decodeJSONMembers pf raw plan = .ok (some built) ∧ Selected plan members built
    | .ok _ => decodeJSONMembers pf raw plan = .ok none := by
  unfold decodeJSON decodeJSONMembers
  split_ifs
  · rfl
  have htop := topLevel_tops pf raw plan
  cases hvalue : value pf (2 * raw.length + 1) 0 (space raw) with
  | error e =>
    rw [hvalue] at htop
    have hgot : topLevel pf raw plan = .error e := htop
    simp only [hgot]
  | ok found =>
    obtain ⟨v, rest⟩ := found
    rw [hvalue] at htop
    cases v with
    | obj read =>
      obtain ⟨built, hgot, hselected⟩ := htop
      simp only [hgot]
      split_ifs
      · exact ⟨built, rfl, hselected⟩
      · rfl
    | _ =>
      have hgot : topLevel pf raw plan = .ok (none, rest) := htop
      simp only [hgot]
      split_ifs <;> rfl

/-- CheckJSON returns the error of DecodeJSON, and so does DecodeJSONMembers, which otherwise
returns what its plan selects of the decoded object. -/
theorem skipping_is_decoding (pf : ParseFloat) (raw : List ℕ) (plan : Plan) :
    checkJSON raw = errorOf (decodeJSON pf raw) ∧
    match decodeJSON pf raw with
    | .error e => decodeJSONMembers pf raw plan = .error e
    | .ok (.obj members) => ∃ built, decodeJSONMembers pf raw plan = .ok (some built) ∧ Selected plan members built
    | .ok _ => decodeJSONMembers pf raw plan = .ok none :=
  ⟨checkJSON_eq pf raw, decodeJSONMembers_eq pf raw plan⟩

end Molebridge.Validate
