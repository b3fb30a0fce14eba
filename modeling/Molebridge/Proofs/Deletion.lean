import Molebridge.Proofs.Judgment

/-! A deletion that `worsens` approves opens nothing, natively: a packet that
escapes after it is alike to a point of the joint refinement, which could
already go there before; so it escaped before, and some point of the state
before it did. Fewer selectors list fewer candidates and tell fewer of them
apart, so the limit on the points holds after the deletion too. -/

namespace Molebridge

/-! ### Fewer selectors -/

structure FactsLe (F G : Facts) : Prop where
  config : F.config = G.config
  rules : F.rules ⊆ G.rules
  routes : F.routes ⊆ G.routes
  prot : F.prot ⊆ G.prot
  locals : F.locals ⊆ G.locals
  hostSubnets : F.hostSubnets ⊆ G.hostSubnets
  lan : F.lan ⊆ G.lan

theorem flatMap_subset {α β : Type} {l l' : List α} (g : α → List β) (h : l ⊆ l') :
    l.flatMap g ⊆ l'.flatMap g := by
  intro x hx
  obtain ⟨a, ha, hx⟩ := List.mem_flatMap.1 hx
  exact List.mem_flatMap.2 ⟨a, h ha, hx⟩

namespace FactsLe

variable {F G : Facts} (h : FactsLe F G)
include h

theorem iifs : F.iifs = G.iifs := by unfold Facts.iifs; rw [h.config]

theorem markSet : F.markSet ⊆ G.markSet := by
  intro x
  simp only [Facts.markSet, h.config, List.flatten_cons, List.mem_append]
  exact Or.imp_right (Or.imp_right (Or.imp_left fun hx => flatMap_subset _ h.rules hx))

theorem protos (f : Family) : F.protos f ⊆ G.protos f := by
  intro x
  simp only [Facts.protos, List.mem_insertionSort, List.mem_dedup, List.mem_cons, List.mem_filterMap]
  rintro (hx | hx | hx | hx | ⟨r, hr, hx⟩)
  · tauto
  · tauto
  · tauto
  · tauto
  · exact .inr (.inr (.inr (.inr ⟨r, h.rules hr, hx⟩)))

theorem prefixes (f : Family) : F.prefixes f ⊆ G.prefixes f := by
  intro p
  simp only [Facts.mem_prefixes, ← h.config]
  rintro (⟨r, hr, hp⟩ | ⟨r, hr, hp⟩ | hp | hp | hp | hp | ⟨a, ha, hp⟩ | ⟨a, ha, hp⟩)
  · exact .inl ⟨r, h.rules hr, hp⟩
  · exact .inr (.inl ⟨r, h.routes hr, hp⟩)
  · tauto
  · exact .inr (.inr (.inr (.inl (h.hostSubnets hp))))
  · exact .inr (.inr (.inr (.inr (.inl (h.lan hp)))))
  · tauto
  · exact .inr (.inr (.inr (.inr (.inr (.inr (.inl ⟨a, h.prot ha, hp⟩))))))
  · exact .inr (.inr (.inr (.inr (.inr (.inr (.inr ⟨a, h.locals ha, hp⟩))))))

theorem addrs (f : Family) : F.addrs f ⊆ G.addrs f := by
  intro x
  simp only [Facts.mem_addrs]
  rintro (hx | hx | ⟨hf, p, hp, hx⟩)
  · exact .inl hx
  · exact .inr (.inl hx)
  · exact .inr (.inr ⟨hf, p, h.prefixes f hp, hx⟩)

theorem tosSet (f : Family) : F.tosSet f ⊆ G.tosSet f := by
  intro x
  simp only [Facts.tosSet, List.mem_dedup, List.mem_append, List.mem_cons]
  refine Or.imp (Or.imp_right fun hx => flatMap_subset _ h.rules hx) fun hx => ?_
  split_ifs at hx ⊢ with hf
  · exact List.map_subset _ h.routes hx
  · exact hx

theorem length_tosSet_le (f : Family) : (F.tosSet f).length ≤ (G.tosSet f).length :=
  (List.subperm_of_subset (List.nodup_dedup _) (h.tosSet f)).length_le

theorem otherTos (f : Family) {x : BitVec 8} (hx : F.otherTos f = some x) :
    x ∈ G.tosSet f ∨ G.otherTos f = some x := by
  unfold Facts.otherTos at hx ⊢
  split_ifs at hx with hlen
  by_cases hmem : x ∈ G.tosSet f
  · exact .inl hmem
  · right
    rw [if_pos (lt_of_lt_of_le hlen (h.length_tosSet_le f))]
    obtain ⟨-, pre, post, hsplit, hpre⟩ := List.find?_eq_some_iff_append.1 hx
    refine List.find?_eq_some_iff_append.2 ⟨by simpa using hmem, pre, post, hsplit, fun y hy => ?_⟩
    have hyF : y ∈ F.tosSet f := by simpa using hpre y hy
    simpa using h.tosSet f hyF

theorem toses (f : Family) : F.toses f ⊆ G.toses f := by
  intro x
  simp only [Facts.toses, List.mem_insertionSort, List.mem_append, Option.mem_toList]
  rintro (hx | hx)
  · exact .inl (h.tosSet f hx)
  · exact h.otherTos f hx

theorem listed {f : Family} {q : Packet} (hq : Listed F f q) : Listed G f q :=
  ⟨hq.fam, h.iifs ▸ hq.iif, h.markSet hq.mark, h.protos f hq.proto, h.toses f hq.tos, hq.src,
    h.addrs f hq.dst, hq.bound⟩

/-! ### Fewer points -/

theorem length_protos_le (f : Family) : (F.protos f).length ≤ (G.protos f).length :=
  (List.subperm_of_subset ((List.perm_insertionSort _ _).nodup_iff.2 (List.nodup_dedup _))
    (h.protos f)).length_le

omit h in
theorem nodup_toses (F : Facts) (f : Family) : (F.toses f).Nodup := by
  unfold Facts.toses
  rw [(List.perm_insertionSort _ _).nodup_iff, List.nodup_append]
  refine ⟨List.nodup_dedup _, ?_, ?_⟩
  · cases F.otherTos f <;> simp
  · intro a ha b hb hab
    subst hab
    unfold Facts.otherTos at hb
    split_ifs at hb
    · have := List.find?_some (Option.mem_toList.1 hb)
      simp [ha] at this
    · simp at hb

theorem length_toses_le (f : Family) : (F.toses f).length ≤ (G.toses f).length :=
  (List.subperm_of_subset (nodup_toses F f) (h.toses f)).length_le

theorem length_marks_le : F.marks.length ≤ G.marks.length := by
  refine length_pick_le (fun x hx => ?_) fun a _ b _ hsig => ?_
  · simpa using h.markSet (by simpa using hx)
  · have ha := markAlike_of_sig hsig
    unfold Facts.markSig
    refine congrArg₂ _ (congrArg₂ _ (List.map_inj_left.2 fun r hr => ?_) ?_) ?_
    · rw [ha.rule r (h.rules hr)]
    · simp [h.config, ha.control, ha.gluetun]
    · rw [h.config]
      split_ifs with hn
      · simp [ha.tunnel hn]
      · rfl

omit h in
theorem length_refineRange_le {l l' : List (ℕ × ℕ)} (hl : l ⊆ l') (max : ℕ) :
    (refineRange l max).length ≤ (refineRange l' max).length := by
  refine length_pick_le (fun x hx => ?_) fun a _ b _ hsig => ?_
  · simp only [List.mem_insertionSort, List.mem_filter, List.mem_dedup, List.mem_cons] at hx ⊢
    exact ⟨hx.1.imp_right fun hm => flatMap_subset _ hl hm, hx.2⟩
  · exact List.map_inj_left.2 fun r hr => List.map_inj_left.1 hsig r (hl hr)

theorem length_ranges_le (sel : Rule → Option (ℕ × ℕ)) (max : ℕ) :
    (refineRange (F.rules.filterMap sel) max).length ≤
      (refineRange (G.rules.filterMap sel) max).length :=
  length_refineRange_le (List.filterMap_subset _ h.rules) max

theorem length_l3s_le : F.l3s.length ≤ G.l3s.length := by
  unfold Facts.l3s
  by_cases hF : F.rules.any fun r => r.l3Mdev.elim false (· != 0)
  · obtain ⟨r, hr, hv⟩ := List.any_eq_true.1 hF
    have hG : (G.rules.any fun r => r.l3Mdev.elim false (· != 0)) = true :=
      List.any_eq_true.2 ⟨r, h.rules hr, hv⟩
    rw [if_pos hF, if_pos hG]
  · split_ifs <;> simp

variable (hprot : ∀ a, a ∈ F.prot ↔ a ∈ G.prot) (hlocals : ∀ a, a ∈ F.locals ↔ a ∈ G.locals)
include hprot hlocals

omit h hprot in
theorem isLocal_eq (a : Addr) : F.isLocal a = G.isLocal a := by
  unfold Facts.isLocal
  congr 1
  rw [Bool.eq_iff_iff]
  simpa using hlocals a

theorem length_srcs_le (f : Family) : (F.srcs f).length ≤ (G.srcs f).length := by
  refine length_pick_le (h.addrs f) fun a _ b _ hsig => ?_
  obtain ⟨h1, h2, h3, h4, _⟩ := Facts.srcSig_eq_iff.1 hsig
  refine Facts.srcSig_eq_iff.2 ⟨fun r hr => h1 r (h.rules hr), fun r hr => h2 r (h.routes hr), h3,
    ?_, by rwa [isLocal_eq hlocals, isLocal_eq hlocals]⟩
  simpa [hprot] using h4

omit hprot in
theorem length_dsts_le (f : Family) : (F.dsts f).length ≤ (G.dsts f).length := by
  refine length_pick_le (h.addrs f) fun a _ b _ hsig => ?_
  cases ha : a.isUnspecified <;> cases hb : b.isUnspecified <;>
    simp only [ha, hb, Bool.false_eq_true, if_false, if_true, Option.some.injEq, reduceCtorEq] at hsig ⊢
  obtain ⟨h1, h2, h3, h4, h5, h6⟩ := Facts.dstSig_eq_iff.1 hsig
  refine Facts.dstSig_eq_iff.2 ⟨fun r hr => h1 r (h.rules hr), fun r hr => h2 r (h.routes hr), ?_,
    ?_, fun x hx => h5 x (h.hostSubnets hx), fun x hx => h6 x (h.lan hx)⟩
  · rwa [isLocal_eq hlocals, isLocal_eq hlocals]
  · rw [h.config]; exact h4

theorem total_le (f : Family) : F.total f ≤ G.total f := by
  have h1 := h.length_marks_le
  have h2 := h.length_protos_le f
  have h3 := h.length_toses_le f
  have h4 : F.sports.length ≤ G.sports.length := h.length_ranges_le _ _
  have h5 : F.dports.length ≤ G.dports.length := h.length_ranges_le _ _
  have h6 : F.uids.length ≤ G.uids.length := h.length_ranges_le _ _
  have h7 := h.length_l3s_le
  have h8 := h.length_srcs_le hprot hlocals f
  have h9 := h.length_dsts_le hlocals f
  unfold Facts.total
  simp only [List.prod_cons, h.iifs]
  gcongr

end FactsLe

/-! ### Fewer expected addresses -/

namespace State

/-- The state as it is judged when the contract expects other tunnel addresses. -/
def narrow (s : State) (rp : Family → List Addr) : State :=
  { s with spec := { s.spec with returnPath := rp } }

theorem narrow_self (s : State) : s.narrow s.spec.returnPath = s := rfl

theorem lookup_narrow (s : State) (rp : Family → List Addr) (r : Rule) (p : Packet) :
    (s.narrow rp).lookup r p = s.lookup r p := by
  unfold lookup
  rw [@scanRoutes_eq_of_applies (s.narrow rp) s _ _ _ fun _ _ => rfl]
  rfl

theorem walk_narrow (s : State) (rp : Family → List Addr) (p : Packet) :
    (s.narrow rp).walk p = s.walk p :=
  walkFrom_eq_of_lookup fun r _ => s.lookup_narrow rp r p

theorem classifier_of_narrow {s : State} {rp : Family → List Addr} {p : Packet}
    (hn : s.spec.config.isGluetun = false) (hrp : rp p.f ⊆ s.spec.returnPath p.f)
    (hany : ((s.narrow rp).classifier p).any = false) :
    s.classifier p = (s.narrow rp).classifier p := by
  have hprot : p.src.elim false ((s.narrow rp).protectedAddrs p.f).contains = true →
      p.src.elim false (s.protectedAddrs p.f).contains = true := by
    cases p.src with
    | none => simp
    | some a =>
      simp only [Option.elim_some, List.contains_iff_mem, protectedAddrs, List.mem_append]
      exact Or.imp_right fun h => hrp h
  unfold classifier classify at hany ⊢
  have hc : (s.narrow rp).spec.config = s.spec.config := rfl
  have hl : (s.narrow rp).isLocal p.f p.dst = s.isLocal p.f p.dst := rfl
  have hs : (s.narrow rp).classifySidecar p = s.classifySidecar p := rfl
  have he : (s.narrow rp).exitIdx = s.exitIdx := rfl
  simp only [hl, hs, he, hn, Bool.false_eq_true, if_false] at hany ⊢
  split_ifs at hany ⊢ with h1 h2 h3 h4 h5 h6 <;> simp_all

end State

/-- A change that leaves the contract, the links and the addresses as they are,
and adds no rule and no route. -/
structure Shrinks (before after : State) : Prop where
  spec : after.spec = before.spec
  live : after.live = before.live
  locals : after.locals = before.locals
  exitIdx : after.exitIdx = before.exitIdx
  hostIdx : after.hostIdx = before.hostIdx
  overlayIdx : after.overlayIdx = before.overlayIdx
  rules : ∀ f, after.rules f ⊆ before.rules f
  routes : ∀ f, (after.routes f).flatMap (·.2) ⊆ (before.routes f).flatMap (·.2)

namespace Shrinks

variable {b a : State} (h : Shrinks b a)
include h

theorem narrow (rp : Family → List Addr) : Shrinks (b.narrow rp) (a.narrow rp) :=
  ⟨by simp [State.narrow, h.spec], h.live, h.locals, h.exitIdx, h.hostIdx, h.overlayIdx, h.rules, h.routes⟩

theorem classifier_eq (hn : b.spec.config.isGluetun = false) (p : Packet) :
    a.classifier p = b.classifier p := by
  unfold State.classifier State.classify State.protectedAddrs State.hostSubnets State.classifySidecar State.isLocal
  simp only [h.spec, h.live, h.locals, h.exitIdx, h.hostIdx, hn]
  rfl

theorem factsLe (hn : b.spec.config.isGluetun = false) (f : Family) :
    FactsLe (gather f a []) (gather f b []) where
  config := by simp [gather, h.spec]
  rules := by simpa [gather] using h.rules f
  routes := by simpa [gather] using h.routes f
  prot := by simp [gather, State.protectedAddrs, h.spec, h.live]
  locals := by simp [gather, h.locals]
  hostSubnets := by simp [gather, State.hostSubnets, h.spec, hn]
  lan := by simp [gather, h.spec]

theorem covers_joint (f : Family) :
    Covers (gather f b [a]) b f ∧ Covers (gather f b [a]) a f := by
  have hra := tableRoutes_subset a f
  have hrb := tableRoutes_subset b f
  constructor
  · refine ⟨rfl, ?_, fun t rt hrt => ?_, ?_, ?_, ?_, ?_⟩
    · simp [gather]
    · simp [gather, List.mem_flatMap.1 (hrb t hrt)]
    · simp [gather, State.protectedAddrs, h.spec, h.live]; tauto
    · simp [gather, h.locals]
    · simp [gather]
    · simp [gather]
  · refine ⟨by simp [gather, h.spec], ?_, fun t rt hrt => ?_, ?_, ?_, ?_, ?_⟩
    · simp [gather]
    · simp [gather, List.mem_flatMap.1 (hra t hrt)]
    · simp [gather, State.protectedAddrs, h.spec, h.live]; tauto
    · simp [gather, h.locals]
    · simp [gather]
    · simp [gather]

theorem narrow_le_joint {rp : Family → List Addr} (hn : b.spec.config.isGluetun = false) (f : Family)
    (hrp : rp f ⊆ b.spec.returnPath f) : FactsLe (gather f (a.narrow rp) []) (gather f b [a]) where
  config := by simp [gather, State.narrow, h.spec]
  rules := by simp [gather, State.narrow]
  routes := by simp [gather, State.narrow]
  prot := by
    intro x hx
    simp only [gather, State.narrow, State.protectedAddrs, h.live, List.flatMap_cons,
      List.flatMap_nil, List.append_nil, List.mem_append] at hx ⊢
    exact .inl (hx.imp_right fun hx => hrp hx)
  locals := by simp [gather, State.narrow]
  hostSubnets := by simp [gather, State.narrow, State.hostSubnets, h.spec, hn]
  lan := by simp [gather, State.narrow]

theorem violations_narrow (hn : b.spec.config.isGluetun = false) (rp : Family → List Addr)
    (hrp : ∀ f, rp f ⊆ b.spec.returnPath f) (hb : (b.narrow rp).violations = [])
    (hw : worsens b a = []) : (a.narrow rp).violations = [] := by
  have hs : b.spec.config.isGluetunSidecar = false := by
    simp only [Config.isGluetun, Config.isGluetunSidecar] at hn ⊢
    simp [hn]
  have hsa : a.spec.config.isGluetunSidecar = false := by rw [h.spec]; exact hs
  have hsh := h.narrow rp
  have hle := hsh.factsLe hn
  rw [violations_eq_nil_iff (s := a.narrow rp) hsa]
  constructor
  · intro f
    have hwithin : Within (b.narrow rp) [] := ((violations_eq_nil_iff (s := b.narrow rp) hs).1 hb).1
    refine le_trans ?_ (hwithin f)
    refine (hle f).total_le (fun x => ?_) (fun x => ?_) f
    · simp [gather, State.protectedAddrs, hsh.spec, hsh.live]
    · simp [gather, hsh.locals]
  · intro f q hq hesc
    have hqA := listed_of_mem hq
    obtain ⟨hcb, hca⟩ := h.covers_joint f
    have hqJ : Listed (gather f b [a]) f q := (h.narrow_le_joint hn f (hrp f)).listed hqA
    obtain ⟨p, hp, halike⟩ := exists_point hqJ
    have hpf : p.f = f := halike.f.trans hqJ.fam
    obtain ⟨hany, o, ho, hforbid⟩ := hesc
    have hcls : a.classifier q = (a.narrow rp).classifier q := by
      refine State.classifier_of_narrow (by rw [h.spec]; exact hn) ?_ hany
      rw [h.spec]; exact hrp _
    have hclsp : a.classifier p = (a.narrow rp).classifier q := by
      rw [classifier_congr (hpf ▸ hca) halike, hcls]
    -- the point could go there before, so the packet could
    have hnew := ((worsens_eq_nil_iff hs).1 hw).2 f p hp
    have hbefore : o ∈ b.walk q := by
      rw [← walk_congr (hpf ▸ hcb) halike]
      refine hnew (hclsp ▸ hany) o ?_ (hclsp ▸ hforbid)
      rw [walk_congr (hpf ▸ hca) halike, ← State.walk_narrow a rp]
      exact ho
    refine not_escapes_of_listed (s := b.narrow rp) hs hb ((hle f).listed hqA) ?_
    have heq := hsh.classifier_eq hn q
    exact ⟨heq ▸ hany, o, by rwa [State.walk_narrow], heq ▸ hforbid⟩

end Shrinks

/-! ### The three deletions -/

theorem Shrinks.refl (s : State) : Shrinks s s :=
  ⟨rfl, rfl, rfl, rfl, rfl, rfl, fun _ => List.Subset.refl _, fun _ => List.Subset.refl _⟩

theorem shrinks_setRules (s : State) (f : Family) {rules : List Rule} (h : rules ⊆ s.rules f) :
    Shrinks s (s.setRules f rules) := by
  refine ⟨rfl, rfl, rfl, rfl, rfl, rfl, fun g => ?_, fun _ => List.Subset.refl _⟩
  simp only [State.setRules, Function.update_apply]
  split_ifs with hg
  · exact hg ▸ h
  · exact List.Subset.refl _

theorem shrinks_setTable (s : State) (f : Family) (t : ℕ) {routes : List Route}
    (h : routes ⊆ s.tableRoutes f t) : Shrinks s (s.setTable f t routes) := by
  refine ⟨rfl, rfl, rfl, rfl, rfl, rfl, fun _ => List.Subset.refl _, fun g => ?_⟩
  simp only [State.setTable, Function.update_apply]
  split_ifs with hg
  · subst hg
    intro rt hrt
    simp only [List.mem_flatMap, List.mem_map] at hrt
    obtain ⟨-, ⟨e, he, rfl⟩, hrt⟩ := hrt
    split_ifs at hrt
    · exact tableRoutes_subset s g t (h hrt)
    · exact List.mem_flatMap.2 ⟨e, he, hrt⟩
  · exact List.Subset.refl _

inductive Deletes : State → State → Prop where
  | rule (s : State) (req : Rule) : Deletes s (s.withoutRule req).1
  | priority (s : State) (f : Family) (p : ℕ) : Deletes s (s.withoutPriority f p).1
  | route (s : State) (rt : Route) : Deletes s (s.withoutRoute rt).1

theorem Deletes.shrinks {b a : State} (h : Deletes b a) : Shrinks b a := by
  cases h with
  | rule req =>
    unfold State.withoutRule
    split_ifs
    · exact shrinks_setRules b _ List.eraseP_subset
    · exact Shrinks.refl b
  | priority f p =>
    unfold State.withoutPriority
    split_ifs
    · exact shrinks_setRules b _ List.eraseP_subset
    · exact Shrinks.refl b
  | route rt =>
    unfold State.withoutRoute
    cases hl : (b.routes rt.family).lookup rt.table with
    | none => exact Shrinks.refl b
    | some routes =>
      dsimp only
      split_ifs
      · refine shrinks_setTable b _ _ (List.Subset.trans List.eraseP_subset ?_)
        simp [State.tableRoutes, hl]
      · exact Shrinks.refl b

/-- An approved deletion never opens a leak (native backend). -/
theorem approved_deletion_opens_nothing (before after : State)
    (hn : before.spec.config.backend = .native) (hd : Deletes before after)
    (hb : before.violations = []) (hw : worsens before after = []) : after.violations = [] := by
  have hg : before.spec.config.isGluetun = false := by simp [Config.isGluetun, hn]
  have h := hd.shrinks.violations_narrow hg before.spec.returnPath
    (fun _ => List.Subset.refl _) hb hw
  rwa [← hd.shrinks.spec, State.narrow_self] at h

/-- Two copies of the reject of what arrives on the overlay interface. -/
def doubledReject : State :=
  { spec := { config := { kind := .overlay, backend := .native, overlayIf := "wt0",
                          exitIf := "mole0", table := 1000 } },
    rules := fun f =>
      [Spec.tempGuardRule { kind := .overlay, backend := .native, overlayIf := "wt0" } f,
       { rejectRule prioIngressReject f with iifName := "wt0" }, lookupRule 32766 f tableMain],
    routes := fun _ => [(1000, [])], known := [1000], exitIdx := 5, overlayIdx := 3 }

/-- Either copy can go. -/
theorem doubledReject_deletion :
    (doubledReject.withoutPriority .v4 prioTempGuard).1.violations = [] :=
  approved_deletion_opens_nothing doubledReject _ rfl (.priority _ .v4 prioTempGuard)
    (by decide +kernel) (by decide +kernel)

end Molebridge
