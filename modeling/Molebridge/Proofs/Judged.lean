import Molebridge.Proofs.Judgment

/-! Which packets `violations` speaks for. The candidates of four dimensions are
read off the selectors one by one (`Named`): the mark, the protocol, the TOS
byte and the destination. A state has violations exactly when a protected
packet with such values escapes (`judgesEvery_iff`); a leak that needs another
combination of mark bits, another protocol, TOS or destination is not seen. -/

namespace Molebridge

/-- What arrives on an overlay's interface and what the namespace sends, from an address
of its family to one that is specified. -/
structure InDomain (s : State) (q : Packet) : Prop where
  iif : q.iif = "lo" ∨ (s.spec.config.isNativeSidecar = false ∧ q.iif = s.spec.config.overlayIf)
  src : ∃ a : Addr, q.src = some a ∧ a.fam = q.f
  dst : q.dst.fam = q.f
  bound : q.dst.isUnspecified = false

/-- A leak of any protected packet is a violation. -/
def JudgesEvery (s : State) : Prop := ∀ q, InDomain s q → Escapes s q → s.violations ≠ []

/-- None, all bits, the contract's marks, and of each mark selector its value,
the value complemented within the mask and the one differing in the lowest bit. -/
def NamedMark (s : State) (f : Family) (m : BitVec 32) : Prop :=
  m = 0 ∨ m = 0xffffffff ∨ m = s.spec.config.controlMark ∨ m = s.spec.config.controlMark ||| 0x21 ∨
  m = gluetunMark ∨ (s.spec.config.isNativeSidecar = true ∧ m = s.spec.config.tunnelMark) ∨
  ∃ r ∈ s.rules f, r.effectiveMark.2 ≠ 0 ∧ (m = r.effectiveMark.1 ∨
    m = r.effectiveMark.1 ^^^ r.effectiveMark.2 ∨
    m = r.effectiveMark.1 ^^^ lowestBit r.effectiveMark.2)

/-- ICMP, TCP, UDP, 253 and the protocols of the rules. -/
def NamedProto (s : State) (f : Family) (v : BitVec 8) : Prop :=
  v = icmp f ∨ v = 6 ∨ v = 17 ∨ v = 253 ∨ ∃ r ∈ s.rules f, r.ipProto = some v ∧ v ≠ 0

/-- The TOS values of rules (a DSCP with no ECN bits) and of IPv4 routes. -/
def NamedTos (s : State) (f : Family) (t : BitVec 8) : Prop :=
  t = 0 ∨ (∃ r ∈ s.rules f, t = r.tos ∨ ∃ d : BitVec 8, r.ext.dscp = some d ∧ t = d <<< 2) ∨
  (f = .v4 ∧ ∃ e ∈ s.routes f, ∃ rt ∈ e.2, t = rt.tos)

/-- The first of four values that no selector names, when one names any. -/
def SpareTos (s : State) (f : Family) (t : BitVec 8) : Prop :=
  (∃ x, x ≠ 0 ∧ NamedTos s f x) ∧ ¬ NamedTos s f t ∧
  (t = 0xe0 ∨ NamedTos s f 0xe0 ∧ (t = 0xb8 ∨ NamedTos s f 0xb8 ∧ (t = 0x28 ∨
    NamedTos s f 0x28 ∧ t = 0x04)))

/-- The prefixes that rules, routes, the contract and the addresses name. -/
def NamedPrefix (s : State) (f : Family) (p : Prefix) : Prop :=
  (∃ r ∈ s.rules f, r.src = some p ∨ r.dst = some p) ∨
  (∃ e ∈ s.routes f, ∃ rt ∈ e.2, rt.dst = some p ∨ rt.src = some p) ∨
  s.spec.config.overlayFor f = some p ∨ p ∈ s.hostSubnets f ∨ p ∈ s.spec.config.lanFor f ∨
  (s.spec.config.isNativeSidecar = true ∧ p = loopbackPrefix f) ∨
  ∃ a, (a ∈ s.protectedAddrs f ∨ a ∈ s.locals f) ∧ Prefix.host a = p

/-- An outside address, or one at an end of a named prefix or just beyond it. -/
def NamedDst (s : State) (f : Family) (a : Addr) : Prop :=
  a = otherAddr f ∨ ∃ p, NamedPrefix s f p ∧ (a.val = p.first.val ∨ a.val = p.last.val ∨
    a.val + 1 = p.first.val ∨ a.val = p.last.val + 1) ∧ p.addr.fam = f

structure Named (s : State) (q : Packet) : Prop where
  mark : NamedMark s q.f q.mark
  proto : NamedProto s q.f q.proto
  tos : NamedTos s q.f q.tos ∨ SpareTos s q.f q.tos
  dst : NamedDst s q.f q.dst

theorem mem_markSet_iff (s : State) (f : Family) (m : BitVec 32) :
    m ∈ (gather f s []).markSet ↔ NamedMark s f m := by
  unfold NamedMark Facts.markSet
  simp [gather]

theorem mem_protos_iff (s : State) (f : Family) (v : BitVec 8) :
    v ∈ (gather f s []).protos f ↔ NamedProto s f v := by
  simp [Facts.protos, gather, NamedProto]

theorem mem_tosSet_iff (s : State) (f : Family) (t : BitVec 8) :
    t ∈ (gather f s []).tosSet f ↔ NamedTos s f t := by
  have hroutes : t ∈ ((s.routes f).flatMap (·.2)).map (·.tos) ↔
      ∃ e ∈ s.routes f, ∃ rt ∈ e.2, t = rt.tos := by
    simp only [List.mem_map, List.mem_flatMap]
    constructor
    · rintro ⟨rt, ⟨e, he, hrt⟩, rfl⟩
      exact ⟨e, he, rt, hrt, rfl⟩
    · rintro ⟨e, he, rt, hrt, rfl⟩
      exact ⟨rt, ⟨e, he, hrt⟩, rfl⟩
  unfold NamedTos Facts.tosSet
  simp only [gather, List.flatMap_cons, List.flatMap_nil, List.append_nil, List.mem_dedup,
    List.mem_append, List.mem_cons, List.mem_flatMap, Option.mem_toList, Option.map_eq_some_iff,
    or_assoc, List.mem_ite_nil_right, beq_iff_eq, hroutes]
  refine or_congr_right (or_congr_left ?_)
  exact exists_congr fun r => and_congr_right fun _ => or_congr_right
    (exists_congr fun d => and_congr_right fun _ => eq_comm)

theorem one_lt_length_tosSet (s : State) (f : Family) :
    1 < ((gather f s []).tosSet f).length ↔ ∃ x, x ≠ 0 ∧ NamedTos s f x := by
  have hnd : ((gather f s []).tosSet f).Nodup := List.nodup_dedup _
  have h0 : 0 ∈ (gather f s []).tosSet f := (mem_tosSet_iff s f 0).2 (.inl rfl)
  constructor
  · intro hlen
    by_contra hnone
    push Not at hnone
    have hsub : (gather f s []).tosSet f ⊆ [0] := by
      intro x hx
      by_contra hx0
      exact hnone x (by simpa using hx0) ((mem_tosSet_iff s f x).1 hx)
    have := (List.subperm_of_subset hnd hsub).length_le
    simp at this
    omega
  · rintro ⟨x, hx0, hx⟩
    have hx := (mem_tosSet_iff s f x).2 hx
    have hsub : [0, x] ⊆ (gather f s []).tosSet f :=
      List.cons_subset.2 ⟨h0, List.cons_subset.2 ⟨hx, List.nil_subset _⟩⟩
    have hnd' : [0, x].Nodup := by simpa using Ne.symm hx0
    exact (List.subperm_of_subset hnd' hsub).length_le

theorem find_first_free (c : BitVec 8 → Bool) (w x y z t : BitVec 8) :
    [w, x, y, z].find? (fun o => !c o) = some t ↔
      ¬ c t = true ∧ (t = w ∨ c w = true ∧ (t = x ∨ c x = true ∧ (t = y ∨ c y = true ∧ t = z))) := by
  grind

theorem otherTos_iff (s : State) (f : Family) (t : BitVec 8) :
    (gather f s []).otherTos f = some t ↔ SpareTos s f t := by
  unfold Facts.otherTos SpareTos
  rw [← one_lt_length_tosSet]
  simp only [← mem_tosSet_iff, ← List.contains_iff_mem]
  by_cases hlen : 1 < ((gather f s []).tosSet f).length
  · rw [if_pos hlen, find_first_free]
    simp only [hlen, true_and]
  · simp [hlen]

theorem mem_prefixes_iff (s : State) (f : Family) (p : Prefix) :
    p ∈ (gather f s []).prefixes f ↔ NamedPrefix s f p := by
  have hroutes : (∃ rt ∈ (s.routes f).flatMap (·.2), rt.dst = some p ∨ rt.src = some p) ↔
      ∃ e ∈ s.routes f, ∃ rt ∈ e.2, rt.dst = some p ∨ rt.src = some p := by
    simp only [List.mem_flatMap]
    constructor
    · rintro ⟨rt, ⟨e, he, hrt⟩, h⟩
      exact ⟨e, he, rt, hrt, h⟩
    · rintro ⟨e, he, rt, hrt, h⟩
      exact ⟨rt, ⟨e, he, hrt⟩, h⟩
  have haddrs : ((∃ a ∈ s.protectedAddrs f, Prefix.host a = p) ∨ ∃ a ∈ s.locals f, Prefix.host a = p) ↔
      ∃ a, (a ∈ s.protectedAddrs f ∨ a ∈ s.locals f) ∧ Prefix.host a = p := by
    simp only [or_and_right, exists_or]
  unfold NamedPrefix
  rw [Facts.mem_prefixes, ← haddrs, ← hroutes]
  simp [gather]

theorem mem_addrs_iff (s : State) (f : Family) {a : Addr} (h0 : a.isUnspecified = false) :
    a ∈ (gather f s []).addrs f ↔ NamedDst s f a ∧ a.fam = f := by
  have hz : a ≠ Addr.zero f := by
    rintro rfl
    simp [Addr.isUnspecified, Addr.zero] at h0
  rw [Facts.mem_addrs, NamedDst]
  simp only [hz, false_or, mem_prefixes_iff, mem_boundaryPoints]
  constructor
  · rintro (rfl | ⟨hf, p, hp, hfam, hends⟩)
    · exact ⟨.inl rfl, otherAddr_fam f⟩
    · exact ⟨.inr ⟨p, hp, hends, hfam ▸ hf⟩, hf⟩
  · rintro ⟨rfl | ⟨p, hp, hends, hfam⟩, hf⟩
    · exact .inl rfl
    · exact .inr ⟨hf, p, hp, hf.trans hfam.symm, hends⟩

theorem listed_iff (s : State) (q : Packet) :
    Listed (gather q.f s []) q.f q ↔ InDomain s q ∧ Named s q := by
  have hiif : q.iif ∈ (gather q.f s []).iifs ↔ q.iif = "lo" ∨
      (s.spec.config.isNativeSidecar = false ∧ q.iif = s.spec.config.overlayIf) := by
    simp only [Facts.iifs, gather]
    split_ifs with hn <;> simp [hn, or_comm]
  have htos : q.tos ∈ (gather q.f s []).toses q.f ↔
      NamedTos s q.f q.tos ∨ SpareTos s q.f q.tos := by
    simp [Facts.toses, mem_tosSet_iff, otherTos_iff]
  constructor
  · intro h
    obtain ⟨hnamed, hfam⟩ := (mem_addrs_iff s q.f h.bound).1 h.dst
    exact ⟨⟨hiif.1 h.iif, h.src, hfam, h.bound⟩, (mem_markSet_iff s _ _).1 h.mark,
      (mem_protos_iff s _ _).1 h.proto, htos.1 h.tos, hnamed⟩
  · rintro ⟨hd, hn⟩
    exact ⟨rfl, hiif.2 hd.iif, (mem_markSet_iff s _ _).2 hn.mark, (mem_protos_iff s _ _).2 hn.proto,
      htos.2 hn.tos, hd.src, (mem_addrs_iff s q.f hd.bound).2 ⟨hn.dst, hd.dst⟩, hd.bound⟩

theorem violations_ne_nil_iff {s : State} (hs : s.spec.config.isGluetunSidecar = false)
    (hw : Within s []) :
    s.violations ≠ [] ↔ ∃ q, InDomain s q ∧ Escapes s q ∧ Named s q := by
  constructor
  · intro hne
    by_contra hnone
    push Not at hnone
    refine hne ((violations_eq_nil_iff hs).2 ⟨hw, fun f p hp hesc => ?_⟩)
    have hl := listed_of_mem hp
    obtain rfl := hl.fam
    obtain ⟨hd, hn⟩ := (listed_iff s p).1 hl
    exact hnone p hd hesc hn
  · rintro ⟨q, hd, hesc, hn⟩ hnil
    exact not_escapes_of_listed hs hnil ((listed_iff s q).2 ⟨hd, hn⟩) hesc

/-- Every leak is judged exactly when, of the packets that escape, one has named
values. -/
theorem judgesEvery_iff (s : State) (hs : s.spec.config.isGluetunSidecar = false)
    (hw : Within s []) :
    JudgesEvery s ↔ ((∃ q, InDomain s q ∧ Escapes s q) →
      ∃ q, InDomain s q ∧ Escapes s q ∧ Named s q) := by
  rw [← violations_ne_nil_iff hs hw]
  constructor
  · rintro h ⟨q, hd, hesc⟩
    exact h q hd hesc
  · intro h q hd hesc
    exact h ⟨q, hd, hesc⟩

/-! ### A leak that is not seen -/

def bitRule (priority : ℕ) (bit : BitVec 32) (flags : BitVec 32) : Rule :=
  { priority := priority, action := frActUnreachable, flags := flags,
    fwMark := some bit, fwMask := some bit }

def loopbackAddr : Family → Addr
  | .v4 => ⟨.v4, 127 * 2 ^ 24 + 1, by decide⟩
  | .v6 => (loopbackPrefix .v6).addr

/-- Only marks with the two lowest bits and without the third get past the
rejects, to the main table; no single selector's value is one. -/
def maskedMarks : State :=
  { spec := { config := { kind := .overlay, backend := .native, overlayIf := "wt0",
                          exitIf := "mole0", table := 1000 } },
    rules := fun f => match f with
      | .v4 => [bitRule 100 1 fibRuleInvert, bitRule 101 2 fibRuleInvert, bitRule 102 4 0,
          lookupRule 32766 .v4 tableMain]
      | .v6 => [],
    routes := fun _ => [(1000, [])], known := [1000],
    locals := fun f => [loopbackAddr f], exitIdx := 5, overlayIdx := 3 }

def markedThree : Packet :=
  { f := .v4, iif := "wt0", mark := 3, proto := 17, src := some (otherAddr .v4),
    dst := otherAddr .v4, tos := 0, sport := 0, dport := 0, uid := 0, l3 := false }

/-- It escapes into the main table and the state has no violation. -/
theorem maskedMarks_not_judged :
    maskedMarks.spec.config.isGluetunSidecar = false ∧ (∀ f, (gather f maskedMarks []).total f ≤ maxPoints) ∧
      (∀ f, loopbackAddr f ∈ maskedMarks.locals f) ∧ ¬ JudgesEvery maskedMarks := by
  refine ⟨by decide, fun f => ?_, fun f => by cases f <;> decide, fun h => ?_⟩
  · cases f <;> decide +kernel
  · refine h markedThree ⟨by decide, ⟨otherAddr .v4, rfl, rfl⟩, rfl, by decide⟩ ?_ ?_
    · decide +kernel
    · decide +kernel

/-- The equivalence at a state whose leak is seen: every mark reaches main. -/
theorem judgesEvery_iff_open : JudgesEvery { maskedMarks with rules := fun f => [lookupRule 32766 f tableMain] } := by
  refine (judgesEvery_iff _ (by decide) fun f => ?_).2 fun _ => ?_
  · cases f <;> decide +kernel
  · refine ⟨{ markedThree with mark := 0 }, ⟨by decide, ⟨otherAddr .v4, rfl, rfl⟩, rfl, by decide⟩, ?_, ?_⟩
    · decide +kernel
    · exact ⟨.inl rfl, .inr (.inr (.inl rfl)), .inl (.inl rfl), .inl rfl⟩

end Molebridge
