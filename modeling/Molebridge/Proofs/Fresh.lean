import Molebridge.Proofs.Agreement
import Molebridge.Proofs.OneMoment

/-! A model of the kernel stays fresh along the calls of a Conn: it agrees with the
kernel, or the notification of somebody else's change is still to be read. A
snapshot makes one, the Conn's own requests carry it on, and a foreign-change
test that finds nothing says that it agrees. -/

namespace Molebridge

variable {tables : List ℕ} {w w₁ w₂ w' : World} {m m' : State}
variable (hm : ∀ t ∈ m.known, t ∈ tables)

/-! ### What is kept along every call -/

/-- A relevant notification of a change somebody else makes. -/
def World.Foreign (tables : List ℕ) (w : World) (e : Event) : Prop :=
  relevantToSnapshot tables e = true ∧ ∃ c, w.Others c ∧ c.event = e

/-- The port ids of the others are not those of the Conn's request sockets. -/
def World.Apart (w : World) : Prop :=
  ∀ c, w.Others c → c.event.pid ≠ w.pid ∧ ∀ i, c.event.pid ≠ (w.env i).pid

/-- While no notification is lost the subscription does not overflow, and no look
began with one that did. -/
def World.Lossless (w : World) : Prop :=
  w.lost = false → w.dumps.silent = false ∧ ∀ s, w.sub = some s → s.congested = false ∧ s.overrun = false

/-- The clock, the environment and the losses along a call. -/
structure Sound (w w' : World) : Prop where
  env : w'.env = w.env
  late : w.late = true → w'.late = true
  lost : w.lost = true → w'.lost = true
  apart : w.Apart → w'.Apart
  lossless : w.Lossless → w'.Lossless

theorem Sound.of_eq (he : w'.env = w.env) (ht : w'.late = w.late) (hl : w'.lost = w.lost)
    (hp : w'.pid = w.pid) (hs : w'.sub = w.sub) (hd : w'.dumps.silent = w.dumps.silent) : Sound w w' := by
  refine ⟨he, fun h => ht ▸ h, fun h => hl ▸ h, fun h c hc => ?_, fun h => ?_⟩
  · rw [World.Others, he] at hc
    rw [hp, he]
    exact h c hc
  · rwa [World.Lossless, hl, hs, hd]

theorem sound_chains : Chains Sound where
  refl _ := Sound.of_eq rfl rfl rfl rfl rfl rfl
  trans h h' := ⟨h'.env.trans h.env, h'.late ∘ h.late, h'.lost ∘ h.lost, h'.apart ∘ h.apart,
    h'.lossless ∘ h.lossless⟩

theorem sound_release (w : World) (e : Event) : Sound w (w.release e) := by
  refine ⟨rfl, id, fun h => by simp [World.release, h], id, fun h hlost => ?_⟩
  rw [World.release, Bool.or_eq_false_iff] at hlost
  refine ⟨(h hlost.1).1, fun s hs => ?_⟩
  obtain ⟨s₀, hs₀, rfl⟩ := Option.map_eq_some_iff.1 hs
  rw [hs₀, Option.elim_some] at hlost
  unfold Sub.notify
  rw [if_neg (by simp [hlost.2])]
  exact (h hlost.1).2 s₀ hs₀

theorem sound_acts : Acts Sound where
  toChains := sound_chains
  change _ _ _ _ := Sound.of_eq rfl rfl rfl rfl rfl rfl
  release w e _ := sound_release w e
  clock w b := ⟨rfl, fun h => by simp [World.clocked, h], id, id, id⟩

theorem sound_redialed (w : World) : Sound w w.redialed :=
  ⟨rfl, id, id, fun h c hc => ⟨(h c hc).2 w.tick, (h c hc).2⟩, id⟩

theorem sound_polled (w : World) (s : Sub) (hs : w.sub = some s) : Sound w (w.polled s) := by
  refine ⟨rfl, id, id, id, fun h hlost => ⟨(h hlost).1, fun s' hs' => ?_⟩⟩
  obtain ⟨hc, ho⟩ := (h hlost).2 s hs
  cases hs'
  rcases s.poll_cases with ⟨ho', -⟩ | ⟨-, -, hp⟩ | ⟨e, _, -, -, hp⟩
  · cases ho'.symm.trans ho
  · rw [hp]
    exact ⟨rfl, ho⟩
  · rw [hp]
    exact ⟨by simp [hc], ho⟩

theorem sound_reads : Reads Sound where
  toPasses := sound_acts.passes
  dumped _ := Sound.of_eq rfl rfl rfl rfl rfl rfl
  redial := sound_redialed
  poll := sound_polled
  marked w := by
    refine ⟨rfl, id, id, id, fun h hlost => ⟨?_, (h hlost).2⟩⟩
    show w.sub.elim false Sub.silent = false
    cases hs : w.sub with
    | none => rfl
    | some s => simp [Sub.silent, ((h hlost).2 s hs).1]
  reopen w cap := by
    refine ⟨rfl, id, id, id, fun h hlost => ⟨(h hlost).1, fun s hs => ?_⟩⟩
    obtain ⟨c, -, rfl⟩ := Option.map_eq_some_iff.1 hs
    exact ⟨rfl, rfl⟩
  notify := sound_acts.notify
  quiet _ := Sound.of_eq rfl rfl rfl rfl rfl rfl

/-! ### Fresh models -/

def World.Pending (tables : List ℕ) (w : World) : Prop :=
  ∃ e, w.Foreign tables e ∧ (w.lock = some e ∨ ∃ s, w.sub = some s ∧ e ∈ s.queue)

/-- The model agrees with the kernel, or there is something to read before it is
used, or no subscription, so that it is not used; nothing is asked once the kernel
dropped a notification or the time is up. -/
def Fresh (tables : List ℕ) (m : State) (w : World) : Prop :=
  w.lost = true ∨ w.late = true ∨ ¬w.Subscribed ∨ w.Pending tables ∨ m.Agrees w.kern

/-- A call that reads no notification of somebody else's change, and throws none
away, keeps the model fresh. -/
structure Carries (tables : List ℕ) (m : State) (w w' : World) : Prop where
  env : w'.env = w.env
  read : w.read <+: w'.read
  gone : w'.Subscribed → w.Subscribed
  fresh : (w'.Subscribed → ∀ e ∈ w'.read.drop w.read.length, ¬w.Foreign tables e) →
    Fresh tables m w → Fresh tables m w'

theorem World.foreign_congr (h : w'.env = w.env) (e : Event) : w'.Foreign tables e ↔ w.Foreign tables e := by
  unfold World.Foreign World.Others
  rw [h]

theorem carries_chains : Chains (Carries tables m) where
  refl _ := ⟨rfl, List.prefix_refl _, id, fun _ h => h⟩
  trans := by
    intro a b c hab hbc
    refine ⟨hbc.env.trans hab.env, hab.read.trans hbc.read, hab.gone ∘ hbc.gone, fun hr h => ?_⟩
    by_cases hsub : c.Subscribed
    swap
    · exact .inr (.inr (.inl hsub))
    replace hr := hr hsub
    obtain ⟨_, hl₁⟩ := hab.read
    obtain ⟨_, hl₂⟩ := hbc.read
    rw [← hl₂, ← hl₁, List.append_assoc, List.drop_left] at hr
    refine hbc.fresh (fun _ e he => ?_) (hab.fresh (fun _ e he => ?_) h)
    · rw [← hl₂, List.drop_left] at he
      rw [World.foreign_congr hab.env]
      exact hr e (List.mem_append_right _ he)
    · rw [← hl₁, List.drop_left] at he
      exact hr e (List.mem_append_left _ he)

theorem Carries.of_fresh (he : w'.env = w.env) (hr : w'.read = w.read) (hs : w'.Subscribed → w.Subscribed)
    (h : Fresh tables m w → Fresh tables m w') : Carries tables m w w' :=
  ⟨he, by rw [hr], hs, fun _ => h⟩

theorem Fresh.congr (he : w'.env = w.env) (hl : w'.lost = w.lost) (ht : w'.late = w.late)
    (hk : w'.lock = w.lock) (hs : w'.sub = w.sub) (hp : w'.past = w.past) (hb : w'.boot = w.boot)
    (h : Fresh tables m w) : Fresh tables m w' := by
  have hkern : w'.kern = w.kern := by rw [World.kern, World.kern, hp, hb]
  unfold Fresh World.Pending World.Subscribed at *
  rw [hl, ht, hk, hs, hkern]
  simpa only [World.foreign_congr he] using h

include hm in
theorem fresh_change {c : Change} (hc : w.Others c) (hlock : w.lock = none)
    (h : Fresh tables m w) : Fresh tables m (w.change c) := by
  rcases h with h | h | h | ⟨e, he, hlk | hq⟩ | h
  · exact .inl h
  · exact .inr (.inl h)
  · exact .inr (.inr (.inl h))
  · cases hlk.symm.trans hlock
  · exact .inr (.inr (.inr (.inl ⟨e, he, .inr hq⟩)))
  · cases hrel : relevantToSnapshot tables c.event with
    | true => exact .inr (.inr (.inr (.inl ⟨c.event, ⟨hrel, c, hc, rfl⟩, .inl rfl⟩)))
    | false =>
      refine .inr (.inr (.inr (.inr (h.of_view hm ?_))))
      rw [World.kern_change]
      exact c.view_apply hrel w.kern

variable {e : Event} {c : ℕ → Change}

theorem fresh_release (hlock : w.lock = some e) (h : Fresh tables m w) :
    Fresh tables m (w.release e) := by
  have hlost : ∀ s, w.sub = some s → s.full = true → (w.release e).lost = true := by
    intro s hs hf
    simp [World.release, hs, hf]
  rcases h with h | h | h | ⟨x, hx, hlk | ⟨s, hs, hq⟩⟩ | h
  · exact .inl (by simp [World.release, h])
  · exact .inr (.inl h)
  · exact .inr (.inr (.inl fun hs => h (by simpa [World.Subscribed, World.release] using hs)))
  · cases hlock.symm.trans hlk
    cases hs : w.sub with
    | none => exact .inr (.inr (.inl (by simp [World.Subscribed, World.release, hs])))
    | some s =>
      cases hf : s.full with
      | true => exact .inl (hlost s hs hf)
      | false =>
        refine .inr (.inr (.inr (.inl ⟨e, hx, .inr ⟨s.notify e, by simp [World.release, hs], ?_⟩⟩)))
        simp [Sub.notify, hf]
  · refine .inr (.inr (.inr (.inl ⟨x, hx, .inr ⟨s.notify e, by simp [World.release, hs], ?_⟩⟩)))
    exact (s.fills_notify e).queue hq
  · exact .inr (.inr (.inr (.inr h)))

include hm in
theorem carries_acts : Acts (Carries tables m) where
  toChains := carries_chains
  change _ _ hc hlock := Carries.of_fresh rfl rfl id (fresh_change hm hc hlock)
  release _ _ hlock := Carries.of_fresh rfl rfl
    (fun hs => by simpa [World.Subscribed, World.release] using hs) (fresh_release hlock)
  clock w b := Carries.of_fresh rfl rfl id fun h => by
    rcases h with h | h | h
    · exact .inl h
    · exact .inr (.inl (by simp [World.clocked, h]))
    · exact .inr (.inr h)

theorem carries_polled (w : World) (s : Sub) (hs : w.sub = some s) : Carries tables m w (w.polled s) := by
  refine ⟨rfl, ?_, fun _ => by simp [World.Subscribed, hs], fun hr h => ?_⟩
  · unfold World.polled
    split
    · exact List.prefix_append _ _
    · exact List.prefix_refl _
  rcases h with h | h | h | ⟨e, he, hlk | ⟨_, hs', hq⟩⟩ | h
  · exact .inl h
  · exact .inr (.inl h)
  · exact absurd (by simp [World.Subscribed, hs]) h
  · exact .inr (.inr (.inr (.inl ⟨e, he, .inl hlk⟩)))
  · cases hs.symm.trans hs'
    refine .inr (.inr (.inr (.inl ⟨e, he, .inr ⟨s.poll.2, rfl, ?_⟩⟩)))
    rcases s.poll_cases with ⟨ho, -⟩ | ⟨-, hnil, -⟩ | ⟨x, _, -, hcons, hp⟩
    · simpa [Sub.poll, ho] using hq
    · rw [hnil] at hq
      cases hq
    · rw [hcons] at hq
      rw [hp]
      rcases List.mem_cons.1 hq with rfl | hq
      · refine absurd he (hr rfl e ?_)
        simp [World.polled, hp]
      · exact hq
  · exact .inr (.inr (.inr (.inr h)))

theorem carries_reopened (w : World) (cap : Option ℕ) (hsub : w.Subscribed) :
    Carries tables m w (w.reopened cap) := by
  refine ⟨rfl, List.prefix_append _ _, fun _ => hsub, fun hr h => ?_⟩
  cases cap with
  | none => exact .inr (.inr (.inl (by simp [World.Subscribed, World.reopened])))
  | some c =>
    rcases h with h | h | h | ⟨e, he, hlk | ⟨s, hs, hq⟩⟩ | h
    · exact .inl h
    · exact .inr (.inl h)
    · exact absurd hsub h
    · exact .inr (.inr (.inr (.inl ⟨e, he, .inl hlk⟩)))
    · refine absurd he (hr rfl e ?_)
      simpa [World.reopened, hs] using hq
    · exact .inr (.inr (.inr (.inr h)))

include hm in
theorem carries_renews : Renews (Carries tables m) where
  toPasses := (carries_acts hm).passes
  dumped _ := Carries.of_fresh rfl rfl id (Fresh.congr rfl rfl rfl rfl rfl rfl rfl)
  redial _ := Carries.of_fresh rfl rfl id (Fresh.congr rfl rfl rfl rfl rfl rfl rfl)
  poll := carries_polled
  renew := carries_reopened
  notify := (carries_acts hm).notify
  quiet _ := Carries.of_fresh rfl rfl id (Fresh.congr rfl rfl rfl rfl rfl rfl rfl)

/-! ### Foreign changes -/

theorem unread_acts : Acts fun w w' : World => w'.read = w.read where
  refl _ := rfl
  trans h h' := h'.trans h
  change _ _ _ _ := rfl
  release _ _ _ := rfl
  clock _ _ := rfl

theorem unread_waits : Waits fun w w' : World => w'.read = w.read where
  toPasses := unread_acts.passes
  dumped _ := rfl
  redial _ := rfl
  notify := unread_acts.notify
  quiet _ := rfl

theorem read_ok {r : ReadResult} (h : readEvents w = (r, w')) (hf : r ≠ .failed) (ho : r ≠ .overrun) :
    ∃ l s s', w.sub = some s ∧ w'.sub = some s' ∧ s.queue ⊆ l ++ s'.queue ∧ w'.read = w.read ++ l ∧
      Keeps w w' ∧ ((r = .timeout ∧ l = [] ∧ s'.queue = []) ∨ r = .events l) := by
  obtain ⟨s', hs', rfl, rfl⟩ := readEvents_ok h hf
  obtain ⟨s, hs, hfill⟩ := fills_acts.passes.pass w s' hs'
  have hread : w.pass.read = w.read := unread_waits.pass w
  have hkeeps : Keeps w (w.pass.polled s') :=
    keeps_drains.trans (keeps_drains.pass w) (keeps_drains.poll _ s' hs')
  rcases s'.poll_cases with ⟨-, hover⟩ | ⟨-, hq, hp⟩ | ⟨e, _, -, hq, hp⟩
  · exact absurd hover ho
  · refine ⟨[], s, s'.poll.2, hs, rfl, ?_, ?_, hkeeps, .inl ⟨by rw [hp], rfl, by rw [hp]; exact hq⟩⟩
    · rw [hp]
      exact hfill.queue
    · simp [World.polled, hp, hread]
  · refine ⟨[e], s, s'.poll.2, hs, rfl, ?_, ?_, hkeeps, .inr (by rw [hp])⟩
    · rw [hp]
      exact List.Subset.trans hfill.queue (by simp [hq])
    · simp [World.polled, hp, hread]

/-- A drain that found nothing of the others: the time was not up, and nothing of
theirs was waiting when it began. -/
theorem foreignLoop_ok {own n : ℕ} {changed : Bool}
    (h : foreignLoop tables own n changed w = (.ok false, w')) :
    changed = false ∧ w.late = false ∧ (∃ s, w.sub = some s ∧ ∀ e ∈ s.queue, foreignTo tables own e = false) ∧
      Keeps w w' ∧ ∃ l, w'.read = w.read ++ l ∧ ∀ e ∈ l, foreignTo tables own e = false := by
  induction n generalizing w changed with
  | zero => cases h
  | succ n ih =>
    obtain ⟨_, _, h₁, h⟩ := exists_of_bind h
    obtain ⟨rfl, hlate⟩ := expired_ok h₁
    split_ifs at h with hl
    · cases h
    have hnot : w.late = false := by
      by_contra hw
      exact hl (hlate.trans ((sound_reads.pass w).late (by simpa using hw)))
    obtain ⟨r, w₂, h₂, h⟩ := exists_of_bind h
    have hread : w.pass.read = w.read := unread_waits.pass w
    cases r with
    | overrun => cases h
    | failed =>
      cases h
    | timeout =>
      obtain ⟨l, s₁, _, hs₁, -, hsub, hr₂, hk₂, ⟨-, rfl, hnil⟩ | habs⟩ := read_ok h₂ (by simp) (by simp)
      · obtain ⟨s, hs, hfill⟩ := fills_acts.passes.pass w s₁ hs₁
        obtain ⟨_, _, h₃, h⟩ := exists_of_bind h
        obtain ⟨rfl, -⟩ := expired_ok h₃
        obtain ⟨hres, rfl⟩ := of_pure h
        split_ifs at hres
        refine ⟨Except.ok.inj hres, hnot, ⟨s, hs, fun e he => ?_⟩, ?_, [], ?_, by simp⟩
        · have := hsub (hfill.queue he)
          rw [hnil] at this
          cases this
        · exact keeps_drains.trans (keeps_drains.trans (keeps_drains.pass w) hk₂) (keeps_drains.pass w₂)
        · rw [unread_waits.pass w₂, hr₂, hread]
      · cases habs
    | events l =>
      obtain ⟨_, s₁, _, hs₁, hs₂, hsub, hr₂, hk₂, ⟨habs, -⟩ | hl'⟩ := read_ok h₂ (by simp) (by simp)
      · cases habs
      cases hl'
      obtain ⟨s, hs, hfill⟩ := fills_acts.passes.pass w s₁ hs₁
      obtain ⟨hchanged, -, ⟨_, hs₃, hq⟩, hk₃, l₃, hr₃, hl₃⟩ := ih h
      cases hs₂.symm.trans hs₃
      rw [Bool.or_eq_false_iff, List.any_eq_false] at hchanged
      have hl : ∀ e ∈ l, foreignTo tables own e = false := fun e he => by simpa using hchanged.2 e he
      refine ⟨hchanged.1, hnot, ⟨s, hs, fun e he => ?_⟩, ?_, l ++ l₃, ?_, ?_⟩
      · rcases List.mem_append.1 (hsub (hfill.queue he)) with he | he
        · exact hl e he
        · exact hq e he
      · exact keeps_drains.trans (keeps_drains.trans (keeps_drains.pass w) hk₂) hk₃
      · rw [hr₃, hr₂, hread, List.append_assoc]
      · intro e he
        rcases List.mem_append.1 he with he | he
        · exact hl e he
        · exact hl₃ e he

theorem foreignLoop_error {own n : ℕ} {changed : Bool} {e : RtErr}
    (h : foreignLoop tables own n changed w = (.error e, w')) : w'.late = true := by
  induction n generalizing w changed with
  | zero => cases h
  | succ n ih =>
    obtain ⟨_, _, h₁, h⟩ := exists_of_bind h
    obtain ⟨rfl, hlate⟩ := expired_ok h₁
    split_ifs at h with hl
    · rw [← (of_pure h).2, ← hlate, hl]
    obtain ⟨r, _, -, h⟩ := exists_of_bind h
    cases r with
    | overrun => cases h
    | failed =>
      cases h
    | timeout =>
      obtain ⟨_, _, h₃, h⟩ := exists_of_bind h
      obtain ⟨rfl, hlate⟩ := expired_ok h₃
      obtain ⟨hres, rfl⟩ := of_pure h
      split_ifs at hres with hl
      exact hlate.symm.trans hl
    | events l => exact ih h

theorem foreignTo_of_foreign (hw : w.Apart) (h : w.Foreign tables e) :
    foreignTo tables w.pid e = true := by
  obtain ⟨hrel, c, hc, rfl⟩ := h
  simp [foreignTo, hrel, (hw c hc).1]

theorem World.Foreign.not_of_foreignTo (hw : w.Apart) (h : foreignTo tables w.pid e = false) :
    ¬w.Foreign tables e := fun hf => absurd ((foreignTo_of_foreign hw hf).symm.trans h) (by simp)

include hm

/-- What the code learns from a foreign-change test that found nothing: the model
is the kernel at the test's barrier. -/
theorem foreignChange_ok (h : foreignChange tables w = (.ok false, w'))
    (hapart : w.Apart) (hfresh : Fresh tables m w) (hlost : w'.lost = false) :
    Fresh tables m w' ∧ m.Agrees w'.quiet ∧
      ∃ i, w.past.length ≤ i ∧ i ≤ w'.past.length ∧ w'.quiet = w'.kernAt i := by
  replace h := of_get_bind h
  split_ifs at h
  · cases h
  obtain ⟨_, w₁, h₁, h⟩ := exists_of_bind h
  split_ifs at h
  · cases h
  obtain ⟨r, w₂, h₂, h⟩ := exists_of_bind h
  cases r with
  | some e => cases h
  | none =>
    replace h := of_get_bind h
    obtain ⟨-, hlate, ⟨s, hs, hqueue⟩, hkeeps, l, hread, hforeign⟩ := foreignLoop_ok h
    obtain ⟨hadv, hlock, hquiet⟩ := barrier_ok tables h₂
    have hsound₂ : Sound w w₂ := sound_chains.trans (sound_reads.expired.run h₁) (sound_reads.barrier.run h₂)
    have hsub : w₂.Subscribed := by simp [World.Subscribed, hs]
    have hsound' : Sound w₂ w' := (sound_reads.renews.foreignLoop _ _ _ _).run hsub h
    have hunread : w₂.read = w.read :=
      (unread_waits.barrier.run h₂).trans (unread_waits.expired.run h₁)
    have hcarries := carries_chains.trans ((carries_renews hm).expired.run h₁) ((carries_renews hm).barrier.run h₂)
    have hfresh₂ : Fresh tables m w₂ := hcarries.fresh (by simp [hunread]) hfresh
    have hgrows : Grows tables w w₁ := grows_reads.expired.run h₁
    have hlen : w.past.length ≤ w₂.past.length :=
      (hgrows.isPrefix.trans hadv.isPrefix).length_le
    refine ⟨?_, ?_, w₂.past.length, hlen, hkeeps.past.length_le, ?_⟩
    · refine ((carries_renews hm).foreignLoop _ _ _ _).run hsub h |>.fresh (fun _ e he => ?_) hfresh₂
      rw [hread, List.drop_left] at he
      exact World.Foreign.not_of_foreignTo (hsound₂.apart hapart) (hforeign e he)
    · rw [hkeeps.quiet, hquiet]
      -- of the reasons not to trust the model, the drain has ruled out all but agreement
      rcases hfresh₂ with hl | ht | hno | ⟨e, he, hlk | ⟨_, hs', hq⟩⟩ | hagrees
      · exact absurd ((hsound'.lost hl).symm.trans hlost) (by simp)
      · cases ht.symm.trans hlate
      · exact absurd hsub hno
      · cases hlk.symm.trans hlock
      · cases hs.symm.trans hs'
        exact absurd he (World.Foreign.not_of_foreignTo (hsound₂.apart hapart) (hqueue e hq))
      · exact hagrees
    · rw [hkeeps.quiet, hquiet, kernAt_of_prefix hkeeps.boot hkeeps.past]

theorem foreignChange_error {e : RtErr}
    (h : foreignChange tables w = (.error e, w')) (hfresh : Fresh tables m w) : Fresh tables m w' := by
  replace h := of_get_bind h
  split_ifs at h
  · cases h
  obtain ⟨_, w₁, h₁, h⟩ := exists_of_bind h
  have hcarries₁ := (carries_renews hm).expired.run h₁
  have hunread₁ : w₁.read = w.read := unread_waits.expired.run h₁
  split_ifs at h
  · cases h
    exact hcarries₁.fresh (by simp [hunread₁]) hfresh
  obtain ⟨r, w₂, h₂, h⟩ := exists_of_bind h
  have hcarries₂ := carries_chains.trans hcarries₁ ((carries_renews hm).barrier.run h₂)
  have hunread₂ : w₂.read = w.read := (unread_waits.barrier.run h₂).trans hunread₁
  cases r with
  | some e =>
    cases h
    exact hcarries₂.fresh (by simp [hunread₂]) hfresh
  | none =>
    obtain ⟨_, _, -, h⟩ := exists_of_bind h
    exact .inr (.inl (foreignLoop_error h))

omit hm

/-! ### Snapshots and requests -/

theorem fromSnapshot_known (spec : Spec) (snap : Snapshot) :
    ∀ t ∈ (State.fromSnapshot spec snap).known, t ∈ spec.interest := fun _ ht => List.mem_dedup.1 ht

/-- The model of a stable snapshot is the kernel at the snapshot's barrier, and the
reader will hear of what the others changed since. -/
theorem takeContext_fresh {spec : Spec} {snap : Snapshot} (h : takeContext spec.interest w = (.ok snap, w'))
    (hstable : snap.unstable = false) (hloss : w.Lossless) (hlost : w'.lost = false) :
    Fresh spec.interest (State.fromSnapshot spec snap) w' ∧ (State.fromSnapshot spec snap).Agrees w'.quiet ∧
      ∃ i, w.past.length ≤ i ∧ i ≤ w'.past.length ∧ w'.quiet = w'.kernAt i := by
  have hloss' : w'.Lossless := ((sound_reads.takeLoop _ _ _ _).run h).lossless hloss
  have hmoment := takeContext_oneMoment h hstable (hloss' hlost).1
  refine ⟨?_, ?_, ?_⟩
  · -- a relevant change behind the dumps is in the queue, or under way
    by_cases hirr : ∀ c ∈ w'.past.drop w'.dumps.first, relevantToSnapshot spec.interest c.1 = false
    · refine .inr (.inr (.inr (.inr ?_)))
      rw [← hmoment.later hirr]
      exact agrees_fromSnapshot spec w'.kern
    · push Not at hirr
      obtain ⟨c, hc, hrel⟩ := hirr
      obtain ⟨s, hs⟩ := Option.isSome_iff_exists.1 hmoment.subscribed
      have halarm := (hmoment.told (w'.Foreign spec.interest) (fun e he => he.1) s hs).2
        ⟨c, hc, by simpa using hrel, hmoment.others c hc⟩
      rcases halarm with ho | ⟨e, he, hf⟩ | ⟨e, he, hf⟩
      · exact absurd (ho.symm.trans ((hloss' hlost).2 s hs).2) (by simp)
      · exact .inr (.inr (.inr (.inl ⟨e, hf, .inr ⟨s, hs, he⟩⟩)))
      · exact .inr (.inr (.inr (.inl ⟨e, hf, .inl he⟩)))
  · rw [← hmoment.quiet]
    exact agrees_fromSnapshot spec w'.quiet
  · obtain ⟨i, hi, hi', hq⟩ := hmoment.barred
    exact ⟨i, hmoment.started.trans (hmoment.ordered.trans hi), hi', hq⟩

theorem fresh_own (hlock : w.lock = none)
    (hstep : ∀ p k, m.Agrees k → m'.Agrees ((c p).apply k)) (h : Fresh tables m w) :
    Fresh tables m' (w.own c) := by
  rcases h with h | h | h | ⟨e, he, hlk | ⟨s, hs, hq⟩⟩ | h
  · exact .inl (by simp [World.own, World.release, World.change, h])
  · exact .inr (.inl h)
  · exact .inr (.inr (.inl fun hs => h (by simpa [World.Subscribed, World.own, World.release, World.change] using hs)))
  · cases hlk.symm.trans hlock
  · refine .inr (.inr (.inr (.inl ⟨e, he, .inr ⟨s.notify (c w.pid).event, ?_, (s.fills_notify _).queue hq⟩⟩)))
    simp [World.own, World.release, World.change, hs]
  · refine .inr (.inr (.inr (.inr ?_)))
    rw [show (w.own c).kern = (w.change (c w.pid)).kern from rfl, World.kern_change]
    exact hstep _ _ h

theorem request_cases {r : Option RtErr} (h : request c w = (r, w')) :
    r = w.move.fault.err ∧ (w' = (if w.move.effective then w.pass.notify.own c else w.pass.notify) ∨
      w.move.fault = .stream ∧
        w' = (if w.move.effective then w.pass.notify.own c else w.pass.notify).redialed) := by
  replace h := of_modify_bind (of_get_bind h)
  replace h := of_modify_bind (of_modify_bind h)
  exact requested_cases h

include hm

theorem fresh_waited (h : Fresh tables m w) :
    Fresh tables m w.pass.notify := by
  have hcarries := carries_chains.trans ((carries_renews hm).pass w) ((carries_renews hm).notify w.pass)
  have hunread : w.pass.notify.read = w.read := (unread_waits.notify _).trans (unread_waits.pass w)
  exact hcarries.fresh (by simp [hunread]) h

theorem request_done
    (hstep : ∀ p k, m.Agrees k → m'.Agrees ((c p).apply k)) (h : request c w = (none, w'))
    (hfresh : Fresh tables m w) : Fresh tables m' w' := by
  obtain ⟨hr, hw'⟩ := request_cases h
  have hf : w.move.fault = .done := by
    cases hf : w.move.fault <;> simp [hf, Fault.err] at hr ⊢
  obtain rfl := hw'.resolve_right fun h => absurd (hf.symm.trans h.1) (by simp)
  rw [if_pos (by simp [Move.effective, hf])]
  exact fresh_own w.pass.notify_lock hstep (fresh_waited hm hfresh)

theorem request_exist
    (h : request c w = (some .exist, w')) (hfresh : Fresh tables m w) : Fresh tables m w' := by
  obtain ⟨hr, hw'⟩ := request_cases h
  have hf : w.move.fault = .exist := by
    cases hf : w.move.fault <;> simp [hf, Fault.err] at hr ⊢
  obtain rfl := hw'.resolve_right fun h => absurd (hf.symm.trans h.1) (by simp)
  rw [if_neg (by simp [Move.effective, hf])]
  exact fresh_waited hm hfresh

omit hm

theorem sound_request (c : ℕ → Change) : Along Sound (request c) := by
  have hown : ∀ w : World, Sound w (w.own c) := fun w =>
    have hchange : Sound w (w.change (c w.pid)) := Sound.of_eq rfl rfl rfl rfl rfl rfl
    sound_chains.trans hchange (sound_release _ _)
  refine sound_chains.bind sound_chains.get fun w => sound_chains.bind (along_modify sound_reads.pass)
    fun _ => sound_chains.bind (along_modify sound_reads.notify) fun _ => sound_chains.bind
      (along_modify fun w => ?_) fun _ => sound_reads.requested _
  split_ifs
  · exact hown w
  · exact sound_chains.refl w

end Molebridge
