import Molebridge.Proofs.Looks

/-! What a call of a Conn does to the kernel's record of changes and to the
subscription: changes are only added, they are the others', and until something
is read the reader of the subscription will hear of each that matters. -/

namespace Molebridge

variable {tables : List ℕ} {w w₁ w₂ w' : World} {P : Event → Prop}

variable {n : ℕ} {s : Sub}

/-! ### Changes -/

theorem Change.view_apply (c : Change) (h : relevantToSnapshot tables c.event = false) (k : Kern) :
    (c.apply k).view tables = k.view tables := by
  simp only [relevantToSnapshot, Bool.or_eq_false_iff, bne_eq_false_iff_eq, List.contains_eq_mem,
    decide_eq_false_iff_not] at h
  obtain ⟨hrules, haddrs, hlinks, hroutes⟩ := c.elsewhere k h.1.2 h.1.1
  have hwanted : (fun f => (c.apply k).wanted tables f) = fun f => k.wanted tables f := by
    funext f
    refine List.flatMap_congr fun t ht => hroutes f t ?_
    rintro rfl
    exact h.2 (List.mem_dedup.1 ht)
  simp [Kern.view, hrules, haddrs, hlinks, hwanted]

/-- Changes are added, all of them the others', and the irrelevant ones leave alone
what a snapshot shows. -/
structure Grows (tables : List ℕ) (w w' : World) : Prop where
  env : w'.env = w.env
  boot : w'.boot = w.boot
  past : ∃ l, w'.past = w.past ++ l ∧ (∀ c ∈ l, ∃ x, w.Others x ∧ x.event = c.1) ∧
    ((∀ c ∈ l, relevantToSnapshot tables c.1 = false) → ∀ c ∈ l, c.2.view tables = w.kern.view tables)

def Still (tables : List ℕ) (w w' : World) : Prop :=
  ∀ c ∈ w'.past.drop w.past.length, relevantToSnapshot tables c.1 = false

theorem Grows.isPrefix (h : Grows tables w w') : w.past <+: w'.past := by
  obtain ⟨l, hl, -⟩ := h.past
  exact ⟨l, hl.symm⟩

theorem Grows.others (h : Grows tables w w') : ∀ c ∈ w'.past.drop w.past.length,
    ∃ x, w.Others x ∧ x.event = c.1 := by
  obtain ⟨l, hl, _, -⟩ := h.past
  rwa [hl, List.drop_left]

theorem World.kern_eq_of_past {l : List (Event × Kern)} (hb : w'.boot = w.boot)
    (hp : w'.past = w.past ++ l) : w'.kern = (l.getLast?.map (·.2)).getD w.kern := by
  unfold World.kern
  rw [hb, hp, List.getLast?_append]
  cases l.getLast? with
  | none => simp
  | some c => simp

theorem World.kern_change (w : World) (c : Change) : (w.change c).kern = c.apply w.kern := by
  show ((w.past ++ [(c.event, c.apply w.kern)]).getLast?.map (·.2)).getD w.boot = _
  simp

theorem Grows.view_eq (h : Grows tables w w') (hs : Still tables w w') :
    w'.kern.view tables = w.kern.view tables := by
  obtain ⟨l, hl, -, hview⟩ := h.past
  rw [Still, hl, List.drop_left] at hs
  rw [World.kern_eq_of_past h.boot hl]
  cases hlast : l.getLast? with
  | none => rfl
  | some c => exact hview hs c (List.mem_of_getLast? hlast)

theorem Still.split (h : Still tables w w₂) (h₁ : w.past <+: w₁.past) (h₂ : w₁.past <+: w₂.past) :
    Still tables w w₁ ∧ Still tables w₁ w₂ := by
  obtain ⟨_, hl₁⟩ := h₁
  obtain ⟨_, hl₂⟩ := h₂
  rw [Still, ← hl₂, ← hl₁, List.append_assoc, List.drop_left] at h
  rw [Still, Still, ← hl₂, ← hl₁, List.drop_left, List.drop_left]
  exact ⟨fun c hc => h c (List.mem_append_left _ hc), fun c hc => h c (List.mem_append_right _ hc)⟩

theorem Grows.of_eq (he : w'.env = w.env) (hb : w'.boot = w.boot) (hp : w'.past = w.past) :
    Grows tables w w' := ⟨he, hb, [], by simp [hp]⟩

theorem grows_chains : Chains (Grows tables) where
  refl w := Grows.of_eq rfl rfl rfl
  trans := by
    intro a b c hab hbc
    obtain ⟨l₁, hl₁, ho₁, hv₁⟩ := hab.past
    obtain ⟨l₂, hl₂, ho₂, hv₂⟩ := hbc.past
    refine ⟨hbc.env.trans hab.env, hbc.boot.trans hab.boot, l₁ ++ l₂,
      by rw [hl₂, hl₁, List.append_assoc], ?_, ?_⟩
    · intro d hd
      rcases List.mem_append.1 hd with hd | hd
      · exact ho₁ d hd
      · obtain ⟨x, hx, hxd⟩ := ho₂ d hd
        rw [World.Others, hab.env] at hx
        exact ⟨x, hx, hxd⟩
    · intro hall d hd
      have hall₁ : ∀ c ∈ l₁, relevantToSnapshot tables c.1 = false := fun c hc =>
        hall c (List.mem_append_left _ hc)
      rcases List.mem_append.1 hd with hd | hd
      · exact hv₁ hall₁ d hd
      · rw [hv₂ (fun c hc => hall c (List.mem_append_right _ hc)) d hd]
        refine hab.view_eq ?_
        rwa [Still, hl₁, List.drop_left]

theorem grows_acts : Acts (Grows tables) where
  toChains := grows_chains
  change w c hc _ := by
    refine ⟨rfl, rfl, [(c.event, c.apply w.kern)], rfl, ?_, ?_⟩
    · intro d hd
      obtain rfl := List.mem_singleton.1 hd
      exact ⟨c, hc, rfl⟩
    · intro hall d hd
      obtain rfl := List.mem_singleton.1 hd
      exact c.view_apply (hall _ hd) w.kern
  release _ _ _ := Grows.of_eq rfl rfl rfl
  clock _ _ := Grows.of_eq rfl rfl rfl

theorem grows_reads : Reads (Grows tables) where
  toPasses := grows_acts.passes
  dumped _ := Grows.of_eq rfl rfl rfl
  redial _ := Grows.of_eq rfl rfl rfl
  poll _ _ _ := Grows.of_eq rfl rfl rfl
  marked _ := Grows.of_eq rfl rfl rfl
  reopen _ _ := Grows.of_eq rfl rfl rfl
  notify := grows_acts.notify
  quiet _ := Grows.of_eq rfl rfl rfl

/-! ### What the reader will hear of -/

/-- The reader of the subscription will hear of such a notification. -/
def World.Alarmed (P : Event → Prop) (w : World) (s : Sub) : Prop :=
  s.overrun = true ∨ (∃ e ∈ s.queue, P e) ∨ ∃ e ∈ w.lock, P e

/-- The subscription drops nothing without an error, and its reader will hear of
the changes behind the first `n` that matter. -/
def World.Told (P : Event → Prop) (n : ℕ) (w : World) : Prop :=
  ∀ s, w.sub = some s → (s.congested = true → s.overrun = true) ∧
    ((∃ c ∈ w.past.drop n, P c.1) → w.Alarmed P s)

/-- What the others and the dumps do: the marks of the look are kept and the
subscription keeps telling. -/
structure Advances (tables : List ℕ) (w w' : World) : Prop extends Grows tables w w' where
  first : w'.dumps.first = w.dumps.first
  silent : w'.dumps.silent = w.dumps.silent
  last : w.dumps.last ≤ w.past.length → w.dumps.last ≤ w'.dumps.last ∧ w'.dumps.last ≤ w'.past.length
  told : ∀ P, ∀ n ≤ w.past.length, w.Told P n → w'.Told P n

theorem advances_chains : Chains (Advances tables) where
  refl w :=
    { grows_chains.refl w with
      first := rfl, silent := rfl, last := fun h => ⟨le_refl _, h⟩, told := fun _ _ _ h => h }
  trans := by
    intro a b c hab hbc
    refine { grows_chains.trans hab.toGrows hbc.toGrows with
             first := hbc.first.trans hab.first, silent := hbc.silent.trans hab.silent
             last := fun h => ?_, told := fun P n hn h => ?_ }
    · have h₁ := hab.last h
      have h₂ := hbc.last h₁.2
      exact ⟨h₁.1.trans h₂.1, h₂.2⟩
    · exact hbc.told P n (hn.trans hab.isPrefix.length_le) (hab.told P n hn h)

theorem release_told {e : Event} (hlock : w.lock = some e) (h : w.Told P n) :
    (w.release e).Told P n := by
  intro s hs
  obtain ⟨s₀, hs₀, rfl⟩ := Option.map_eq_some_iff.1 hs
  obtain ⟨hcong, halarm⟩ := h s₀ hs₀
  unfold Sub.notify
  split_ifs with hfull
  · have hover : (s₀.overrun || !s₀.congested) = true := by
      cases hc : s₀.congested with
      | true => simp [hcong hc]
      | false => simp
    exact ⟨fun _ => hover, fun _ => .inl hover⟩
  · refine ⟨hcong, fun hex => ?_⟩
    rcases halarm hex with ho | ⟨x, hx, hP⟩ | ⟨x, hx, hP⟩
    · exact .inl ho
    · exact .inr (.inl ⟨x, List.mem_append_left _ hx, hP⟩)
    · rw [hlock, Option.mem_some_iff] at hx
      exact .inr (.inl ⟨x, by simp [hx], hP⟩)

theorem change_told (hn : n ≤ w.past.length) (c : Change) (hlock : w.lock = none)
    (h : w.Told P n) : (w.change c).Told P n := by
  intro s hs
  obtain ⟨hcong, halarm⟩ := h s hs
  refine ⟨hcong, ?_⟩
  rintro ⟨x, hx, hP⟩
  rw [World.change, List.drop_append_of_le_length hn] at hx
  rcases List.mem_append.1 hx with hx | hx
  · rcases halarm ⟨x, hx, hP⟩ with ho | hq | ⟨y, hy, -⟩
    · exact .inl ho
    · exact .inr (.inl hq)
    · rw [hlock] at hy
      cases hy
  · obtain rfl := List.mem_singleton.1 hx
    exact .inr (.inr ⟨c.event, rfl, hP⟩)

theorem advances_acts : Acts (Advances tables) where
  toChains := advances_chains
  change w c hc hlock :=
    { grows_acts.change w c hc hlock with
      first := rfl, silent := rfl
      last := fun h => ⟨le_refl _, h.trans (by simp [World.change])⟩
      told := fun _ _ hn => change_told hn c hlock }
  release w e hlock :=
    { grows_acts.release w e hlock with
      first := rfl, silent := rfl
      last := fun h => ⟨le_refl _, h⟩, told := fun _ _ _ => release_told hlock }
  clock w b :=
    { grows_acts.clock w b with
      first := rfl, silent := rfl, last := fun h => ⟨le_refl _, h⟩, told := fun _ _ _ h => h }

theorem advances_looks : Looks (Advances tables) where
  toPasses := advances_acts.passes
  dumped w :=
    { grows_reads.dumped w with
      first := rfl, silent := rfl, last := fun h => ⟨h, le_refl _⟩, told := fun _ _ _ h => h }
  redial w :=
    { grows_reads.redial w with
      first := rfl, silent := rfl, last := fun h => ⟨le_refl _, h⟩, told := fun _ _ _ h => h }

/-! ### The barrier and the drain behind it -/

theorem requested_cases {mv : Move} {r : Option RtErr} (h : requested mv w = (r, w')) :
    r = mv.fault.err ∧ (w' = w ∨ mv.fault = .stream ∧ w' = w.redialed) := by
  unfold requested at h
  split_ifs at h with hstream
  · cases h
    exact ⟨rfl, .inr ⟨hstream, rfl⟩⟩
  · cases h
    exact ⟨rfl, .inl rfl⟩

theorem World.notify_lock (w : World) : w.notify.lock = none := by
  unfold World.notify
  split
  · assumption
  · rfl

theorem barrier_ok (tables : List ℕ) (h : barrier w = (none, w')) :
    Advances tables w w' ∧ w'.lock = none ∧ w'.quiet = w'.kern := by
  replace h := of_modify_bind (of_get_bind h)
  replace h := of_modify_bind (of_modify_bind h)
  have hadv : Advances tables w w.pass.notify :=
    advances_looks.trans (advances_looks.pass w) (advances_acts.notify _)
  obtain ⟨hr, rfl | ⟨hf, -⟩⟩ := requested_cases h
  · exact ⟨{ hadv with past := hadv.past }, w.pass.notify_lock, rfl⟩
  · exact absurd hr (by simp [hf, Fault.err])

theorem readEvents_ok {r : ReadResult} (h : readEvents w = (r, w')) (hr : r ≠ .failed) :
    ∃ s, w.pass.sub = some s ∧ r = s.poll.1 ∧ w' = w.pass.polled s := by
  replace h := of_get_bind (of_modify_bind (of_get_bind h))
  rcases hs : w.pass.sub with - | s
  · rw [hs] at h
    exact absurd (of_pure h).1.symm hr
  · rw [hs] at h
    split_ifs at h
    · cases h
      exact ⟨s, rfl, rfl, rfl⟩
    · exact absurd (of_pure h).1.symm hr

/-- A drain lets time pass and reads: the marks stay. -/
structure Keeps (w w' : World) : Prop where
  past : w.past <+: w'.past
  boot : w'.boot = w.boot
  dumps : w'.dumps = w.dumps
  quiet : w'.quiet = w.quiet
  sub : w'.sub.isSome = w.sub.isSome

theorem keeps_acts : Acts Keeps where
  refl _ := ⟨List.prefix_refl _, rfl, rfl, rfl, rfl⟩
  trans h h' := ⟨h.past.trans h'.past, h'.boot.trans h.boot, h'.dumps.trans h.dumps,
    h'.quiet.trans h.quiet, h'.sub.trans h.sub⟩
  change _ _ _ _ := ⟨List.prefix_append _ _, rfl, rfl, rfl, rfl⟩
  release _ _ _ := ⟨List.prefix_refl _, rfl, rfl, rfl, Option.isSome_map⟩
  clock _ _ := ⟨List.prefix_refl _, rfl, rfl, rfl, rfl⟩

theorem keeps_drains : Drains Keeps where
  toPasses := keeps_acts.passes
  poll _ _ hs := ⟨List.prefix_refl _, rfl, rfl, rfl, by rw [hs]; rfl⟩

/-- Nothing relevant is waiting and nothing was dropped. -/
structure Sub.Clean (tables : List ℕ) (s : Sub) : Prop where
  overrun : s.overrun = false
  queue : ∀ e ∈ s.queue, relevantToSnapshot tables e = false

structure Sub.Fills (s s' : Sub) : Prop where
  overrun : s.overrun = true → s'.overrun = true
  queue : s.queue ⊆ s'.queue

theorem Sub.Fills.clean {s' : Sub} (h : s.Fills s') (hc : s'.Clean tables) : s.Clean tables := by
  refine ⟨?_, fun e he => hc.queue e (h.queue he)⟩
  by_contra ho
  have := h.overrun (by simpa using ho)
  cases this.symm.trans hc.overrun

theorem Sub.fills_notify (s : Sub) (e : Event) : s.Fills (s.notify e) := by
  unfold Sub.notify
  split_ifs
  · exact ⟨fun h => by simp [h], List.Subset.refl _⟩
  · exact ⟨id, List.subset_append_left _ _⟩

def Fills (w w' : World) : Prop := ∀ s', w'.sub = some s' → ∃ s, w.sub = some s ∧ s.Fills s'

theorem fills_acts : Acts Fills where
  refl w s' h := ⟨s', h, id, List.Subset.refl _⟩
  trans := by
    intro a b c hab hbc s' hs'
    obtain ⟨s, hs, h₂⟩ := hbc s' hs'
    obtain ⟨s₀, hs₀, h₁⟩ := hab s hs
    exact ⟨s₀, hs₀, h₂.overrun ∘ h₁.overrun, List.Subset.trans h₁.queue h₂.queue⟩
  change w c _ _ s' h := ⟨s', h, id, List.Subset.refl _⟩
  release w e _ s' hs' := by
    obtain ⟨s, hs, rfl⟩ := Option.map_eq_some_iff.1 hs'
    exact ⟨s, hs, s.fills_notify e⟩
  clock w _ s' h := ⟨s', h, id, List.Subset.refl _⟩

theorem Sub.poll_cases (s : Sub) :
    (s.overrun = true ∧ s.poll.1 = .overrun) ∨
    (s.overrun = false ∧ s.queue = [] ∧ s.poll = (.timeout, { s with congested := false })) ∨
    ∃ e rest, s.overrun = false ∧ s.queue = e :: rest ∧
      s.poll = (.events [e], { s with queue := rest, congested := s.congested && !rest.isEmpty }) := by
  unfold Sub.poll
  split_ifs with ho
  · exact .inl ⟨ho, rfl⟩
  · rw [Bool.not_eq_true] at ho
    split
    · exact .inr (.inl ⟨ho, ‹_›, rfl⟩)
    · exact .inr (.inr ⟨_, _, ho, ‹_›, rfl⟩)

theorem polled_told (h : w.Told P n) (hs : w.sub = some s)
    (hover : s.poll.1 ≠ .overrun) (hread : ∀ l, s.poll.1 = .events l → ∀ e ∈ l, ¬P e) :
    (w.polled s).Told P n := by
  obtain ⟨hcong, halarm⟩ := h s hs
  intro s' hs'
  cases hs'
  rcases s.poll_cases with ⟨-, ho⟩ | ⟨ho, hq, hp⟩ | ⟨e, _, ho, hq, hp⟩
  · exact absurd ho hover
  · rw [hp]
    refine ⟨by simp, fun hex => ?_⟩
    rcases halarm hex with h' | h' | h'
    · exact .inl h'
    · exact .inr (.inl h')
    · exact .inr (.inr h')
  · have hnc : s.congested = false := by
      by_contra hc
      rw [hcong (by simpa using hc)] at ho
      cases ho
    rw [hp]
    refine ⟨by simp [hnc], fun hex => ?_⟩
    rcases halarm hex with h' | ⟨x, hx, hP⟩ | h'
    · exact .inl h'
    · rw [hq] at hx
      rcases List.mem_cons.1 hx with rfl | hx
      · exact absurd hP (hread [x] (by rw [hp]) x (.head _))
      · exact .inr (.inl ⟨x, hx, hP⟩)
    · exact .inr (.inr h')

theorem Sub.Clean.of_polled (h : s.poll.2.Clean tables) (hover : s.poll.1 ≠ .overrun)
    (hread : ∀ l, s.poll.1 = .events l → ∀ e ∈ l, relevantToSnapshot tables e = false) :
    s.Clean tables := by
  rcases s.poll_cases with ⟨-, ho⟩ | ⟨ho, hq, hp⟩ | ⟨e, _, ho, hq, hp⟩
  · exact absurd ho hover
  · exact ⟨ho, by simp [hq]⟩
  · have he := hread [e] (by rw [hp]) e (.head _)
    rw [hp] at h
    refine ⟨ho, fun x hx => ?_⟩
    rw [hq] at hx
    rcases List.mem_cons.1 hx with rfl | hx
    · exact he
    · exact h.queue x hx

theorem expired_ok {late : Bool} (h : expired w = (late, w')) : w' = w.pass ∧ late = w.pass.late := by
  replace h := of_modify_bind h
  cases h
  exact ⟨rfl, rfl⟩

/-- A final drain that finds nothing: nothing relevant was waiting when it began,
and the reader is still told of what comes later. -/
theorem settle_clean
    (h : settleChurnFor true (relevantToSnapshot tables) n false w = (.ok false, w')) :
    (∃ s, w.sub = some s ∧ s.Clean tables) ∧ ∀ P : Event → Prop,
      (∀ e, P e → relevantToSnapshot tables e = true) → ∀ m ≤ w.past.length, w.Told P m → w'.Told P m := by
  induction n generalizing w with
  | zero => cases h
  | succ n ih =>
    obtain ⟨_, _, h₁, h⟩ := exists_of_bind h
    obtain ⟨rfl, -⟩ := expired_ok h₁
    split_ifs at h
    · cases h
    obtain ⟨r, w₂, h₂, h⟩ := exists_of_bind h
    have hpasses : Passes (Advances tables) := advances_acts.passes
    have hadv : Advances tables w w.pass.pass := hpasses.trans (hpasses.pass w) (hpasses.pass _)
    have hfills : Fills w w.pass.pass := fills_acts.trans (fills_acts.passes.pass w) (fills_acts.passes.pass _)
    -- a read that does not end the drain leaves what was there before it to be told
    have hread : r ≠ .failed → r ≠ .overrun →
        (∀ l, r = .events l → ∀ e ∈ l, relevantToSnapshot tables e = false) →
        ∃ s, r = s.poll.1 ∧ w₂ = w.pass.pass.polled s ∧
          (s.poll.2.Clean tables → ∃ s₀, w.sub = some s₀ ∧ s₀.Clean tables) ∧
          ∀ P : Event → Prop, (∀ e, P e → relevantToSnapshot tables e = true) →
            ∀ m ≤ w.past.length, w.Told P m → w₂.Told P m := by
      intro hf ho hrel
      obtain ⟨s, hs, rfl, rfl⟩ := readEvents_ok h₂ hf
      obtain ⟨s₀, hs₀, hfill⟩ := hfills s hs
      refine ⟨s, rfl, rfl, fun hc => ⟨s₀, hs₀, hfill.clean (hc.of_polled ho hrel)⟩, fun P hP m hm ht => ?_⟩
      refine polled_told (hadv.told P m hm ht) hs ho fun l hl e he hPe => ?_
      exact absurd ((hP e hPe).symm.trans (hrel l hl e he)) (by simp)
    cases r with
    | overrun | failed => cases h
    | timeout =>
      obtain ⟨s, hr, hw₂, hclean, htold⟩ := hread (by simp) (by simp) (by simp)
      obtain ⟨_, _, h₃, h⟩ := exists_of_bind h
      obtain ⟨rfl, -⟩ := expired_ok h₃
      obtain ⟨-, rfl⟩ := of_pure h
      have hlen : w.past.length ≤ w₂.past.length := by rw [hw₂]; exact hadv.isPrefix.length_le
      rcases s.poll_cases with ⟨-, ho⟩ | ⟨ho, hq, hp⟩ | ⟨e, _, -, -, hp⟩
      · exact absurd (hr.trans ho) (by simp)
      · refine ⟨hclean ?_, fun P hP m hm ht =>
          (hpasses.pass w₂).told P m (hm.trans hlen) (htold P hP m hm ht)⟩
        rw [hp]
        exact ⟨ho, by simp [hq]⟩
      · rw [hp] at hr
        cases hr
    | events l =>
      simp only [Bool.true_and] at h
      split_ifs at h with hany
      · cases h
      · rw [Bool.not_eq_true] at hany
        obtain ⟨s, -, rfl, hclean, htold⟩ := hread (by simp) (by simp) fun l' hl' e he => by
          rw [← ReadResult.events.inj hl'] at he
          simpa using List.any_eq_false.1 hany e he
        rw [hany] at h
        obtain ⟨⟨_, hs', hc⟩, hrest⟩ := ih h
        cases hs'
        exact ⟨hclean hc, fun P hP m hm ht =>
          hrest P hP m (hm.trans hadv.isPrefix.length_le) (htold P hP m hm ht)⟩

end Molebridge
