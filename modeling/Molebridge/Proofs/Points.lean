import Molebridge.Lib.Cells
import Molebridge.Proofs.Alike

/-! The points of a family stand for every packet whose mark, protocol, TOS and
destination are among the candidates (`Listed`), whatever its source, ports,
owner and l3mdev flag: some point is alike (`exists_point`). -/

namespace Molebridge

/-! ### Prefixes as intervals -/

theorem Prefix.contains_iff (p : Prefix) (a : Addr) :
    p.contains a = true ↔ p.addr.fam = a.fam ∧ p.first.val ≤ a.val ∧ a.val ≤ p.last.val := by
  have hsize : 0 < p.size := Nat.two_pow_pos _
  have hdiv : a.val / p.size = p.addr.val / p.size ↔ p.first.val ≤ a.val ∧ a.val ≤ p.last.val := by
    rw [Nat.div_eq_iff hsize]
    exact and_congr Iff.rfl (by simp only [Prefix.last]; omega)
  simp [Prefix.contains, hdiv]

theorem Prefix.host_contains (a b : Addr) : (Prefix.host a).contains b = decide (a = b) := by
  have hsize : (Prefix.host a).size = 1 := by simp [Prefix.size, Prefix.host, Addr.bitLen]
  rw [Bool.eq_iff_iff]
  simp only [Prefix.contains, hsize, Nat.div_one, Bool.and_eq_true, beq_iff_eq, decide_eq_true_eq]
  constructor
  · rintro ⟨hf, hv⟩
    exact Addr.ext hf hv.symm
  · rintro rfl
    exact ⟨rfl, rfl⟩

variable {a x b : Addr} {F : Facts} {f : Family}

theorem Addr.mem_prev : x ∈ a.prev.toList ↔ x.fam = a.fam ∧ x.val + 1 = a.val := by
  unfold Addr.prev
  split_ifs with h
  · simp; omega
  · simp only [Option.toList_some, List.mem_singleton, Addr.ext_iff]
    exact and_congr_right fun _ => by omega

theorem Addr.mem_next : x ∈ a.next.toList ↔ x.fam = a.fam ∧ x.val = a.val + 1 := by
  unfold Addr.next
  split_ifs with h
  · simp [Addr.ext_iff]
  · simp only [Option.toList_none, List.not_mem_nil, false_iff, not_and]
    intro hf hv
    exact h (by rw [← hv, ← hf]; exact x.lt)

theorem mem_boundaryPoints {p : Prefix} :
    x ∈ boundaryPoints p ↔ x.fam = p.addr.fam ∧ (x.val = p.first.val ∨ x.val = p.last.val ∨
      x.val + 1 = p.first.val ∨ x.val = p.last.val + 1) := by
  have hfirst : p.first.fam = p.addr.fam := rfl
  have hlast : p.last.fam = p.addr.fam := rfl
  simp only [boundaryPoints, List.mem_append, List.mem_cons,
    Addr.mem_prev, Addr.mem_next, Addr.ext_iff]
  tauto

theorem is4_beq_iff (x : Addr) (f : Family) : (x.is4 == (f == .v4)) = true ↔ x.fam = f := by
  cases hx : x.fam <;> cases f <;> simp [Addr.is4, hx]

theorem Facts.mem_addrs :
    x ∈ F.addrs f ↔ x = Addr.zero f ∨ x = otherAddr f ∨
      (x.fam = f ∧ ∃ p ∈ F.prefixes f, x ∈ boundaryPoints p) := by
  simp only [Facts.addrs, List.mem_insertionSort, List.mem_dedup, List.mem_cons, List.mem_filter,
    List.mem_flatMap, is4_beq_iff]
  tauto

theorem Facts.mem_prefixes {p : Prefix} :
    p ∈ F.prefixes f ↔ (∃ r ∈ F.rules, r.src = some p ∨ r.dst = some p) ∨
      (∃ r ∈ F.routes, r.dst = some p ∨ r.src = some p) ∨ F.config.overlayFor f = some p ∨
      p ∈ F.hostSubnets ∨ p ∈ F.lan ∨ (F.config.isNativeSidecar = true ∧ p = loopbackPrefix f) ∨
      (∃ a ∈ F.prot, Prefix.host a = p) ∨ ∃ a ∈ F.locals, Prefix.host a = p := by
  have hite : p ∈ (if F.config.isNativeSidecar then [loopbackPrefix f] else []) ↔
      F.config.isNativeSidecar = true ∧ p = loopbackPrefix f := by
    split_ifs with h <;> simp [h]
  simp [Facts.prefixes]

theorem otherAddr_fam (f : Family) : (otherAddr f).fam = f := by cases f <;> rfl

theorem otherAddr_val_ne (f : Family) : (otherAddr f).val ≠ 0 := by cases f <;> decide

def intervals (f : Family) (ps : List Prefix) : List (ℕ × ℕ) :=
  (ps.filter fun p => p.addr.fam = f).map fun p => (p.first.val, p.last.val)

variable {ps : List Prefix} {c : Addr}

theorem mem_intervals {i : ℕ × ℕ} :
    i ∈ intervals f ps ↔ ∃ p ∈ ps, p.addr.fam = f ∧ (p.first.val, p.last.val) = i := by
  simp [intervals, and_assoc]

theorem contains_of_sameCell (hfam : c.fam = a.fam) (h : SameCell (intervals a.fam ps) c.val a.val) :
    ∀ p ∈ ps, p.contains c = p.contains a := by
  intro p hp
  rw [Bool.eq_iff_iff, Prefix.contains_iff, Prefix.contains_iff, hfam]
  refine and_congr_right fun hf => ?_
  have hcell := h _ (mem_intervals.2 ⟨p, hp, hf, rfl⟩)
  exact and_congr hcell.1 hcell.2

theorem exists_boundaryPoints (h : ∃ i ∈ intervals c.fam ps, c.val = i.1 ∨ c.val = i.2 ∨ c.val + 1 = i.1 ∨
    c.val = i.2 + 1) : ∃ p ∈ ps, c ∈ boundaryPoints p := by
  obtain ⟨i, hi, hends⟩ := h
  obtain ⟨p, hp, hf, rfl⟩ := mem_intervals.1 hi
  exact ⟨p, hp, mem_boundaryPoints.2 ⟨hf.symm, hends⟩⟩

theorem exists_low_candidate (ps : List Prefix) (a : Addr) :
    ∃ c : Addr, c.fam = a.fam ∧ (c.val = 0 ∨ ∃ p ∈ ps, c ∈ boundaryPoints p) ∧
      SameCell (intervals a.fam ps) c.val a.val := by
  obtain ⟨c, hle, hends, hsame⟩ := exists_low_end (intervals a.fam ps) a.val
  refine ⟨⟨a.fam, c, lt_of_le_of_lt hle a.lt⟩, rfl, hends.imp_right ?_, hsame⟩
  rintro ⟨i, hi, h⟩
  exact exists_boundaryPoints ⟨i, hi, by simp only; tauto⟩

/-- Every address but the unspecified one has a candidate, not the unspecified
one, that the prefixes cannot tell from it. -/
theorem exists_candidate (F : Facts) (f : Family) (a : Addr) (ha : a.fam = f) (h0 : a.val ≠ 0) :
    ∃ c ∈ F.addrs f, c.val ≠ 0 ∧ ∀ p ∈ F.prefixes f, p.contains c = p.contains a := by
  subst ha
  have hnear : ∀ c : Addr, c.fam = a.fam → (∃ p ∈ F.prefixes a.fam, c ∈ boundaryPoints p) → c ∈ F.addrs a.fam :=
    fun c hc h => Facts.mem_addrs.2 (.inr (.inr ⟨hc, h⟩))
  obtain ⟨c, hfam, hends, hsame⟩ := exists_low_candidate (F.prefixes a.fam) a
  by_cases hc0 : c.val = 0
  · by_cases hup : ∃ i ∈ intervals a.fam (F.prefixes a.fam), a.val ≤ i.2
    · obtain ⟨d, hd, ⟨i, hi, _⟩, hsame⟩ := exists_high_end _ a.val hup
      have hdlt : d < 2 ^ a.fam.bits := by
        obtain ⟨p, -, hf, rfl⟩ := mem_intervals.1 hi
        have h1 := p.first.lt
        have h2 := p.last.lt
        rw [show p.first.fam = a.fam from hf] at h1
        rw [show p.last.fam = a.fam from hf] at h2
        omega
      refine ⟨⟨a.fam, d, hdlt⟩, hnear _ rfl (exists_boundaryPoints ⟨i, hi, by simp only; tauto⟩), ?_,
        contains_of_sameCell rfl hsame⟩
      exact Nat.ne_of_gt (lt_of_lt_of_le (Nat.pos_of_ne_zero h0) hd)
    · push Not at hup
      refine ⟨otherAddr a.fam, Facts.mem_addrs.2 (.inr (.inl rfl)), otherAddr_val_ne _,
        contains_of_sameCell (otherAddr_fam _) fun i hi => ?_⟩
      have h1 := hup i hi
      have h2 := (hsame i hi).2
      omega
  · exact ⟨c, hnear c hfam (hends.resolve_left hc0), hc0, contains_of_sameCell hfam hsame⟩

/-! ### What a signature says -/

theorem outside_congr {p : Option Prefix} (h : inside p a = inside p b) :
    outside p (some a) = outside p (some b) := by
  cases p with
  | none => rfl
  | some p =>
    simp only [inside, outside] at h ⊢
    cases hb : decide (0 < p.bits) <;> simp_all

theorem append_eq_iff {α : Type} {a b c d : List α} (h : a.length = c.length) :
    a ++ b = c ++ d ↔ a = c ∧ b = d :=
  ⟨fun he => List.append_inj he h, fun he => by rw [he.1, he.2]⟩

theorem Facts.srcSig_eq_iff : F.srcSig a = F.srcSig b ↔
    (∀ r ∈ F.rules, inside r.src a = inside r.src b) ∧
    (∀ r ∈ F.routes, inside r.src a = inside r.src b) ∧ a.isUnspecified = b.isUnspecified ∧
    F.prot.contains a = F.prot.contains b ∧ F.isLocal a = F.isLocal b := by
  unfold Facts.srcSig
  rw [append_eq_iff (by simp), append_eq_iff (by simp), List.map_inj_left, List.map_inj_left]
  simp [and_assoc]

theorem Facts.dstSig_eq_iff : F.dstSig f a = F.dstSig f b ↔
    (∀ r ∈ F.rules, inside r.dst a = inside r.dst b) ∧
    (∀ r ∈ F.routes, r.dst.elim false (·.contains a) = r.dst.elim false (·.contains b)) ∧
    F.isLocal a = F.isLocal b ∧ (F.config.overlayFor f).elim false (·.contains a) =
      (F.config.overlayFor f).elim false (·.contains b) ∧
    (∀ h ∈ F.hostSubnets, h.contains a = h.contains b) ∧ ∀ h ∈ F.lan, h.contains a = h.contains b := by
  unfold Facts.dstSig
  rw [append_eq_iff (by simp), append_eq_iff (by simp), append_eq_iff (by simp),
    append_eq_iff (by simp), List.map_inj_left, List.map_inj_left, List.map_inj_left,
    List.map_inj_left]
  simp [and_assoc]

theorem srcAlike_of_sig (h : F.srcSig a = F.srcSig b) :
    SrcAlike F (some a) (some b) := by
  obtain ⟨h1, h2, h3, h4, -⟩ := Facts.srcSig_eq_iff.1 h
  exact ⟨fun r hr => outside_congr (h1 r hr), fun r hr => outside_congr (h2 r hr), h3, h4⟩

theorem dstAlike_of_sig (h : F.dstSig f a = F.dstSig f b) :
    DstAlike F f a b := by
  obtain ⟨h1, h2, h3, h4, h5, h6⟩ := Facts.dstSig_eq_iff.1 h
  exact ⟨fun r hr => outside_congr (h1 r hr), h2, h3, h4, h5, h6⟩

theorem markAlike_of_sig {m n : BitVec 32} (h : F.markSig m = F.markSig n) :
    MarkAlike F m n := by
  obtain ⟨h, h3⟩ := List.append_inj h (by simp)
  obtain ⟨h1, h2⟩ := List.append_inj h (by simp)
  simp only [List.cons.injEq, Bool.beq_eq_decide_eq, decide_eq_decide] at h2
  refine ⟨fun r hr => ?_, h2.1, h2.2.1, fun hn => ?_⟩
  · have h1 := List.map_inj_left.1 h1 r hr
    by_cases hmask : r.effectiveMark.2 = 0
    · simp [hmask]
    · have hb : (r.effectiveMark.2 != 0) = true := by simpa using hmask
      simpa only [hb, Bool.true_and] using h1
  · simpa [hn] using h3

theorem SrcAlike.trans {a b c : Option Addr} (h : SrcAlike F a b) (h' : SrcAlike F b c) :
    SrcAlike F a c :=
  ⟨fun r hr => (h.rule r hr).trans (h'.rule r hr), fun r hr => (h.route r hr).trans (h'.route r hr),
    h.unbound.trans h'.unbound, h.prot.trans h'.prot⟩

/-! ### Sources, ports and owners are complete -/

theorem srcAlike_of_contains {c : Addr} (h0 : c.val = 0 ↔ a.val = 0)
    (h : ∀ p ∈ F.prefixes f, p.contains c = p.contains a) : SrcAlike F (some c) (some a) := by
  have hsel : ∀ x : Option Prefix, (∀ p ∈ x, p ∈ F.prefixes f) →
      outside x (some c) = outside x (some a) := by
    intro x hx
    cases x with
    | none => rfl
    | some p => simp [outside, h p (hx p rfl)]
  refine ⟨fun r hr => hsel _ fun p hp => ?_, fun r hr => hsel _ fun p hp => ?_, ?_, ?_⟩
  · exact Facts.mem_prefixes.2 (.inl ⟨r, hr, .inl hp⟩)
  · exact Facts.mem_prefixes.2 (.inr (.inl ⟨r, hr, .inr hp⟩))
  · simp [Addr.isUnspecified, h0]
  · have hprot : ∀ x ∈ F.prot, (x = c ↔ x = a) := by
      intro x hx
      have hmem : Prefix.host x ∈ F.prefixes f :=
        Facts.mem_prefixes.2 (.inr (.inr (.inr (.inr (.inr (.inr (.inl ⟨x, hx, rfl⟩)))))))
      simpa [Prefix.host_contains] using h _ hmem
    rw [Bool.eq_iff_iff]
    simp only [Option.elim_some, List.contains_iff_mem]
    constructor
    · intro hc
      exact (hprot c hc).1 rfl ▸ hc
    · intro ha
      exact (hprot a ha).2 rfl ▸ ha

theorem exists_src (F : Facts) (ha : a.fam = f) :
    ∃ c ∈ F.srcs f, SrcAlike F (some c) (some a) := by
  have hcand : ∃ c ∈ F.addrs f, SrcAlike F (some c) (some a) := by
    by_cases h0 : a.val = 0
    · have hz : a = Addr.zero f := Addr.ext ha h0
      exact ⟨a, Facts.mem_addrs.2 (.inl hz), srcAlike_of_sig rfl⟩
    · obtain ⟨c, hc, hc0, hcell⟩ := exists_candidate F f a ha h0
      exact ⟨c, hc, srcAlike_of_contains (by simp [hc0, h0]) hcell⟩
  obtain ⟨c, hc, halike⟩ := hcand
  obtain ⟨d, hd, hsig⟩ := exists_mem_pick F.srcSig hc
  exact ⟨d, hd, (srcAlike_of_sig hsig).trans halike⟩

theorem mem_rangeBounds {max : ℕ} {r : ℕ × ℕ} {c : ℕ} (hc : c ≤ max) (h : c = r.1 ∨ c = r.2 + 1) :
    c ∈ rangeBounds max r := by
  rcases h with rfl | rfl
  · simp [rangeBounds]
  · have hlt : r.2 < max := hc
    simp [rangeBounds, hlt]

theorem exists_range (ranges : List (ℕ × ℕ)) (max v : ℕ) (hv : v ≤ max) :
    ∃ w ∈ refineRange ranges max, w ≤ max ∧ ∀ r ∈ ranges, inRangeOf w r = inRangeOf v r := by
  obtain ⟨c, hle, hends, hsame⟩ := exists_low_end ranges v
  have hcm : c ≤ max := hle.trans hv
  have hcand : c ∈ ((0 :: ranges.flatMap (rangeBounds max)).dedup.filter (· ≤ max)).insertionSort (· ≤ ·) := by
    simp only [List.mem_insertionSort, List.mem_filter, List.mem_dedup, List.mem_cons,
      List.mem_flatMap, decide_eq_true_eq]
    refine ⟨hends.imp_right ?_, hcm⟩
    rintro ⟨r, hr, h⟩
    exact ⟨r, hr, mem_rangeBounds hcm h⟩
  obtain ⟨w, hw, hsig⟩ := exists_mem_pick (fun v => ranges.map (inRangeOf v)) hcand
  refine ⟨w, hw, ?_, fun r hr => ?_⟩
  · have hmem := mem_of_mem_pick hw
    simp only [List.mem_insertionSort, List.mem_filter, decide_eq_true_eq] at hmem
    exact hmem.2
  · rw [List.map_inj_left.1 hsig r hr, Bool.eq_iff_iff]
    have h := hsame r hr
    simp only [inRangeOf, Bool.and_eq_true, decide_eq_true_eq]
    exact and_congr h.1 h.2

/-- No address and no value is told apart from every representative: neither by prefixes
of its family nor by ranges. -/
theorem representatives_cover :
    (∀ (f : Family) (ps : List Prefix), (∀ p ∈ ps, p.addr.fam = f) → ∀ a : Addr, a.fam = f →
      ∃ c ∈ Addr.zero f :: ps.flatMap boundaryPoints, ∀ p ∈ ps, p.contains c = p.contains a) ∧
    ∀ (ranges : List (ℕ × ℕ)) (max : ℕ), (∀ r ∈ ranges, r.1 ≤ max ∧ r.2 ≤ max) → ∀ v ≤ max,
      ∃ w ∈ refineRange ranges max, ∀ r ∈ ranges, inRangeOf w r = inRangeOf v r := by
  constructor
  · rintro f ps - a rfl
    obtain ⟨c, hfam, hends, hsame⟩ := exists_low_candidate ps a
    refine ⟨c, List.mem_cons.2 (hends.imp (fun h => Addr.ext hfam h) List.mem_flatMap.2), ?_⟩
    exact contains_of_sameCell hfam hsame
  · intro ranges max _ v hv
    obtain ⟨w, hw, -, hsame⟩ := exists_range ranges max v hv
    exact ⟨w, hw, hsame⟩

/-- Of 127.0.0.0/8, and of the ports 53 to 60. -/
theorem representatives_cover_ends :
    (∃ c ∈ Addr.zero .v4 :: [loopbackPrefix .v4].flatMap boundaryPoints, ∀ p ∈ [loopbackPrefix .v4],
      p.contains c = p.contains (otherAddr .v4)) ∧
    ∃ w ∈ refineRange [(53, 60)] 65535, ∀ r ∈ [(53, 60)], inRangeOf w r = inRangeOf 65535 r :=
  ⟨representatives_cover.1 .v4 [loopbackPrefix .v4] (by simp [loopbackPrefix]) (otherAddr .v4) rfl,
    representatives_cover.2 [(53, 60)] 65535 (by simp) 65535 (le_refl _)⟩

theorem exists_rangeAlike {w : ℕ} (rules : List Rule) (sel : Rule → Option (ℕ × ℕ)) (x : BitVec w) :
    ∃ v ∈ refineRange (rules.filterMap sel) (2 ^ w - 1),
      ∀ r ∈ rules, outsideRange (sel r) (BitVec.ofNat w v).toNat = outsideRange (sel r) x.toNat := by
  have hx : x.toNat ≤ 2 ^ w - 1 := by have := x.isLt; omega
  obtain ⟨v, hv, _, hsame⟩ := exists_range (rules.filterMap sel) _ _ hx
  refine ⟨v, hv, fun r hr => ?_⟩
  have hlt : v < 2 ^ w := by have := Nat.two_pow_pos w; omega
  rw [BitVec.toNat_ofNat, Nat.mod_eq_of_lt hlt]
  cases hsel : sel r with
  | none => rfl
  | some rg =>
    have h := hsame rg (List.mem_filterMap.2 ⟨r, hr, hsel⟩)
    have hout : ∀ y, outsideRange (some rg) y = !inRangeOf y rg := by
      intro y
      rw [Bool.eq_iff_iff]
      simp [outsideRange, inRangeOf]
    rw [hout, hout, h]

theorem exists_l3 (F : Facts) (b : Bool) :
    ∃ c ∈ F.l3s, ∀ r ∈ F.rules, (r.l3Mdev.elim false fun v => v != 0 && !c) =
      (r.l3Mdev.elim false fun v => v != 0 && !b) := by
  unfold Facts.l3s
  split_ifs with h
  · exact ⟨b, by cases b <;> simp, fun _ _ => rfl⟩
  · refine ⟨false, by simp, fun r hr => ?_⟩
    simp only [List.any_eq_true, not_exists, not_and, Bool.not_eq_true] at h
    have hr := h r hr
    cases hl : r.l3Mdev with
    | none => rfl
    | some v =>
      rw [hl] at hr
      simp only [Option.elim_some] at hr ⊢
      rw [hr]; rfl

/-! ### Points -/

theorem Facts.mem_combinations {p : Packet} :
    p ∈ F.combinations f ↔ ∃ s sp dp uid, p.f = f ∧ p.iif ∈ F.iifs ∧ p.mark ∈ F.marks ∧
      p.proto ∈ F.protos f ∧ p.tos ∈ F.toses f ∧ (sp ∈ F.sports ∧ p.sport = BitVec.ofNat 16 sp) ∧
      (dp ∈ F.dports ∧ p.dport = BitVec.ofNat 16 dp) ∧ (uid ∈ F.uids ∧ p.uid = BitVec.ofNat 32 uid) ∧
      p.l3 ∈ F.l3s ∧ (s ∈ F.srcs f ∧ p.src = some s) ∧
      (p.dst ∈ F.dsts f ∧ p.dst.isUnspecified = false) := by
  simp only [Facts.combinations, List.mem_flatMap, List.mem_map, List.mem_filter]
  constructor
  · rintro ⟨_, h1, m, h2, _, h3, _, h4, sp, h5, dp, h6, uid, h7, _, h8, s, h9, d, h10, rfl⟩
    exact ⟨s, sp, dp, uid, rfl, h1, h2, h3, h4, ⟨h5, rfl⟩, ⟨h6, rfl⟩, ⟨h7, rfl⟩, h8, ⟨h9, rfl⟩,
      h10.1, by simpa using h10.2⟩
  · rintro ⟨s, sp, dp, uid, hf, h1, h2, h3, h4, ⟨h5, e5⟩, ⟨h6, e6⟩, ⟨h7, e7⟩, h8, ⟨h9, e9⟩, h10, h11⟩
    refine ⟨p.iif, h1, p.mark, h2, p.proto, h3, p.tos, h4, sp, h5, dp, h6, uid, h7, p.l3, h8, s, h9,
      p.dst, ⟨h10, by simpa using h11⟩, ?_⟩
    rw [← e5, ← e6, ← e7, ← e9, ← hf]

/-- The packets the candidates reach: their mark, protocol, TOS and destination
are among them; the source is any address of the family. -/
structure Listed (F : Facts) (f : Family) (q : Packet) : Prop where
  fam : q.f = f
  iif : q.iif ∈ F.iifs
  mark : q.mark ∈ F.markSet
  proto : q.proto ∈ F.protos f
  tos : q.tos ∈ F.toses f
  src : ∃ a : Addr, q.src = some a ∧ a.fam = f
  dst : q.dst ∈ F.addrs f
  bound : q.dst.isUnspecified = false

theorem exists_dst (ha : a ∈ F.addrs f) (h0 : a.isUnspecified = false) :
    ∃ d ∈ F.dsts f, d.isUnspecified = false ∧ DstAlike F f d a := by
  obtain ⟨d, hd, hsig⟩ := exists_mem_pick
    (fun a : Addr => if a.isUnspecified then none else some (F.dstSig f a)) ha
  cases hd0 : d.isUnspecified with
  | true => simp [hd0, h0] at hsig
  | false =>
    simp only [hd0, h0, Bool.false_eq_true, if_false, Option.some.injEq] at hsig
    exact ⟨d, hd, hd0, dstAlike_of_sig hsig⟩

theorem exists_mark {m : BitVec 32} (hm : m ∈ F.markSet) :
    ∃ n ∈ F.marks, MarkAlike F n m := by
  obtain ⟨n, hn, hsig⟩ := exists_mem_pick F.markSig
    (l := F.markSet.dedup.insertionSort (· ≤ ·)) (by simpa using hm)
  exact ⟨n, hn, markAlike_of_sig hsig⟩

theorem exists_point {q : Packet} (h : Listed F f q) :
    ∃ p ∈ F.combinations f, Alike F p q := by
  obtain ⟨a, hsrc, ha⟩ := h.src
  obtain ⟨m, hm, hmark⟩ := exists_mark h.mark
  obtain ⟨s, hs, hsrcA⟩ := exists_src F ha
  obtain ⟨d, hd, hd0, hdst⟩ := exists_dst h.dst h.bound
  obtain ⟨sp, hsp, hsport⟩ := exists_rangeAlike F.rules (·.ext.sport) q.sport
  obtain ⟨dp, hdp, hdport⟩ := exists_rangeAlike F.rules (·.ext.dport) q.dport
  obtain ⟨u, hu, huid⟩ := exists_rangeAlike F.rules (·.ext.uid) q.uid
  obtain ⟨l, hl, hl3⟩ := exists_l3 F q.l3
  let p : Packet :=
    { f := f, iif := q.iif, mark := m, proto := q.proto, src := some s, dst := d, tos := q.tos,
      sport := BitVec.ofNat 16 sp, dport := BitVec.ofNat 16 dp, uid := BitVec.ofNat 32 u, l3 := l }
  refine ⟨p, Facts.mem_combinations.2 ⟨s, sp, dp, u, rfl, h.iif, hm, h.proto, h.tos, ⟨hsp, rfl⟩,
    ⟨hdp, rfl⟩, ⟨hu, rfl⟩, hl, ⟨hs, rfl⟩, hd, hd0⟩, ?_⟩
  exact ⟨h.fam.symm, rfl, rfl, rfl, hmark, hsrc ▸ hsrcA, hdst, ⟨huid, hsport, hdport, hl3⟩⟩

theorem listed_of_mem {p : Packet} (h : p ∈ F.combinations f) :
    Listed F f p := by
  obtain ⟨s, -, -, u, hf, hiif, hm, hproto, htos, -, -, -, -, ⟨hs, hsrc⟩, hd, hd0⟩ :=
    Facts.mem_combinations.1 h
  refine ⟨hf, hiif, by simpa using mem_of_mem_pick hm, hproto, htos, ⟨s, hsrc, ?_⟩,
    mem_of_mem_pick hd, hd0⟩
  rcases Facts.mem_addrs.1 (mem_of_mem_pick hs) with rfl | rfl | ⟨hfam, -⟩
  · rfl
  · exact otherAddr_fam f
  · exact hfam

end Molebridge
