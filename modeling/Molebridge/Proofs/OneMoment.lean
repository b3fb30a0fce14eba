import Molebridge.Proofs.Advance

/-! A stable snapshot is one moment of the kernel, unless the subscription was
dropping notifications without an error when its dumps began. -/

namespace Molebridge

variable {tables : List ℕ} {w w₁ w₂ w' : World}

/-! ### Dumps -/

variable {α : Type} {part : Kern → α} {seen : Snapshot → α} {s : Snapshot}

theorem dump_ok [DecidableEq α] {a : α} (h : dump part seen w = (.ok a, w')) :
    a = (if w.steady part then part w.kern else seen w.move.seen) ∧ w'.past = w.pass.past := by
  replace h := of_modify_bind (of_get_bind h)
  replace h := of_modify_bind h
  obtain ⟨r, _, hreq, h⟩ := exists_of_bind h
  cases r with
  | some e => cases h
  | none =>
    obtain ⟨ha, rfl⟩ := of_pure h
    refine ⟨(Except.ok.inj ha).symm, ?_⟩
    obtain ⟨-, rfl | ⟨-, rfl⟩⟩ := requested_cases hreq <;> rfl

theorem Still.steady [DecidableEq α]
    (hpart : ∀ k : Kern, part k = seen (k.view tables)) (hs : Still tables w w.pass) :
    w.steady part = true := by
  refine List.all_eq_true.2 fun i _ => decide_eq_true ?_
  have hsome : Advances tables w (w.acts (w.move.acts.take i)) :=
    advances_acts.acts w _ fun a ha => ⟨w.tick, List.mem_of_mem_take ha⟩
  have hrest : Advances tables (w.acts (w.move.acts.take i)) _ :=
    advances_acts.acts _ (w.move.acts.drop i) fun a ha => ⟨w.tick, by
      rw [Acts.env_acts]
      exact List.mem_of_mem_drop ha⟩
  have hall : (w.acts (w.move.acts.take i)).acts (w.move.acts.drop i) = w.acts w.move.acts := by
    rw [World.acts, World.acts, World.acts, ← List.foldl_append, List.take_append_drop]
  rw [hall] at hrest
  rw [hpart, hpart, hsome.view_eq (Still.split hs hsome.isPrefix hrest.isPrefix).1]

/-- A dump of a part of the snapshot shows it as it is, unless something relevant
changes under the dump. -/
theorem dump_shows [DecidableEq α] {a : α} (h : dump part seen w = (.ok a, w')) (hs : Still tables w w')
    (hpart : ∀ k : Kern, part k = seen (k.view tables)) : a = seen (w.kern.view tables) := by
  obtain ⟨rfl, hpast⟩ := dump_ok h
  rw [Still, hpast] at hs
  rw [if_pos (Still.steady hpart hs), hpart]

theorem familyOnce_shows {f : Family} {x : List Rule × List Route × List IfAddr}
    (h : familyOnce tables f w = (.ok x, w')) (hs : Still tables w w') :
    x = ((w.kern.view tables).rules f, (w.kern.view tables).routes f, (w.kern.view tables).addrs f) := by
  obtain ⟨_ | _, _, h₁, h⟩ := exists_of_bind h
  · cases h
  have hadv : Looks (Advances tables) := advances_looks
  have ha₁ := (hadv.dump _ _).run h₁
  obtain ⟨_ | _, _, h₂, h⟩ := exists_of_bind h
  · cases h
  have ha₂ := (hadv.dump _ _).run h₂
  obtain ⟨_ | _, _, h₃, h⟩ := exists_of_bind h
  · cases h
  have ha₃ := (hadv.dump _ _).run h₃
  obtain ⟨hx, rfl⟩ := of_pure h
  cases hx
  obtain ⟨hs₁, hs₂₃⟩ := hs.split ha₁.isPrefix (ha₂.isPrefix.trans ha₃.isPrefix)
  obtain ⟨hs₂, hs₃⟩ := hs₂₃.split ha₂.isPrefix ha₃.isPrefix
  have hv₁ := ha₁.view_eq hs₁
  have hv₂ := (ha₂.view_eq hs₂).trans hv₁
  rw [dump_shows h₁ hs₁ fun _ => rfl, dump_shows h₂ hs₂ fun _ => rfl,
    dump_shows h₃ hs₃ fun _ => rfl, hv₁, hv₂]

theorem byFamily_apply (g : Family → α) : byFamily (g .v4) (g .v6) = g := by
  funext f
  cases f <;> rfl

theorem takeOnce_advances (h : takeOnce tables w = (.ok s, w')) :
    Advances tables w.marked w' ∧ (Still tables w w' → s = w.kern.view tables) := by
  replace h := of_modify_bind h
  have hadv : Looks (Advances tables) := advances_looks
  obtain ⟨_ | _, _, h₁, h⟩ := exists_of_bind h
  · cases h
  have ha₁ := (hadv.familyOnce tables .v4).run h₁
  obtain ⟨_ | _, _, h₂, h⟩ := exists_of_bind h
  · cases h
  have ha₂ := (hadv.familyOnce tables .v6).run h₂
  obtain ⟨_ | _, _, h₃, h⟩ := exists_of_bind h
  · cases h
  have ha₃ := (hadv.dump _ _).run h₃
  obtain ⟨hx, rfl⟩ := of_pure h
  cases hx
  refine ⟨hadv.trans ha₁ (hadv.trans ha₂ ha₃), fun hs => ?_⟩
  obtain ⟨hs₁, hs₂₃⟩ := hs.split ha₁.isPrefix (ha₂.isPrefix.trans ha₃.isPrefix)
  obtain ⟨hs₂, hs₃⟩ := hs₂₃.split ha₂.isPrefix ha₃.isPrefix
  have hv₁ := ha₁.view_eq hs₁
  have hv₂ := (ha₂.view_eq hs₂).trans hv₁
  rw [familyOnce_shows h₁ hs₁, familyOnce_shows h₂ hs₂, dump_shows h₃ hs₃ fun _ => rfl, hv₁, hv₂]
  simp only [byFamily_apply]
  rfl

/-! ### The snapshot -/

/-- What a stable snapshot is: the kernel between two changes, from the first dump
to the last and to the barrier behind it, with no relevant change in between and
none later that the reader will not hear of. -/
structure OneMoment (tables : List ℕ) (w w' : World) (snap : Snapshot) : Prop where
  started : w.past.length ≤ w'.dumps.first
  ordered : w'.dumps.first ≤ w'.dumps.last
  ended : w'.dumps.last ≤ w'.past.length
  shows : snap = (w'.kernAt w'.dumps.first).view tables
  still : ∀ c ∈ (w'.past.take w'.dumps.last).drop w'.dumps.first, relevantToSnapshot tables c.1 = false
  barred : ∃ i, w'.dumps.last ≤ i ∧ i ≤ w'.past.length ∧ w'.quiet = w'.kernAt i
  quiet : w'.quiet.view tables = snap
  later : (∀ c ∈ w'.past.drop w'.dumps.first, relevantToSnapshot tables c.1 = false) →
    w'.kern.view tables = snap
  others : ∀ c ∈ w'.past.drop w'.dumps.first, ∃ x, w'.Others x ∧ x.event = c.1
  subscribed : w'.sub.isSome = true
  told : ∀ P : Event → Prop, (∀ e, P e → relevantToSnapshot tables e = true) →
    w'.Told P w'.dumps.first

theorem settled_ok {s' : Snapshot} (h : settled tables s w = (.done (.ok s'), w')) :
    s' = s ∧ ∃ w₁, Advances tables w w₁ ∧ w₁.lock = none ∧ w₁.quiet = w₁.kern ∧
      (∃ b, w₁.sub = some b ∧ b.Clean tables) ∧ Keeps w₁ w' ∧ Grows tables w₁ w' ∧
      ∀ P : Event → Prop, (∀ e, P e → relevantToSnapshot tables e = true) →
        ∀ m ≤ w₁.past.length, w₁.Told P m → w'.Told P m := by
  obtain ⟨r, w₁, h₁, h⟩ := exists_of_bind h
  split at h
  · cases h
  · cases h
  obtain ⟨hadv, hlock, hquiet⟩ := barrier_ok tables h₁
  obtain ⟨r, w₂, h₂, h⟩ := exists_of_bind h
  split at h
  · obtain ⟨hclean, htold⟩ := settle_clean h₂
    have hk₂ : Keeps w₁ w₂ := (keeps_drains.settleChurnFor _ _ _ _).run h₂
    have hg₂ : Grows tables w₁ w₂ := (grows_reads.settleChurnFor _ _ _ _).run h₂
    obtain ⟨_, _, h₃, h⟩ := exists_of_bind h
    obtain ⟨rfl, -⟩ := expired_ok h₃
    obtain ⟨hr, rfl⟩ := of_pure h
    split_ifs at hr
    · cases hr
    · refine ⟨(Except.ok.inj (Attempt.done.inj hr)).symm, w₁, hadv, hlock, hquiet, hclean,
        keeps_drains.trans hk₂ (keeps_drains.pass w₂), grows_reads.trans hg₂ (grows_reads.pass w₂),
        fun P hP m hm ht => ?_⟩
      have hpass : Advances tables w₂ w₂.pass := advances_looks.pass w₂
      exact hpass.told P m (hm.trans hk₂.past.length_le) (htold P hP m hm ht)
  · cases h
  · cases h
  · cases h

theorem marked_told (P : Event → Prop) (h : w.marked.dumps.silent = false) :
    w.marked.Told P w.past.length := by
  intro s hs
  replace hs : w.sub = some s := hs
  rw [World.marked, hs, Option.elim_some, Sub.silent, Bool.and_eq_false_iff, Bool.not_eq_false'] at h
  refine ⟨fun hc => h.resolve_left (by simp [hc]), ?_⟩
  rintro ⟨c, hc, -⟩
  rw [show w.marked.past = w.past from rfl, List.drop_length] at hc
  cases hc

theorem still_of_told (h : w₁.Told (fun e => relevantToSnapshot tables e = true) w.past.length)
    (hlock : w₁.lock = none) (hclean : ∃ b, w₁.sub = some b ∧ b.Clean tables) : Still tables w w₁ := by
  obtain ⟨b, hb, hover, hqueue⟩ := hclean
  intro c hc
  by_contra hrel
  rcases (h b hb).2 ⟨c, hc, by simpa using hrel⟩ with ho | ⟨e, he, hr⟩ | ⟨e, he, -⟩
  · cases ho.symm.trans hover
  · cases hr.symm.trans (hqueue e he)
  · rw [hlock] at he
    cases he

theorem kernAt_of_prefix (hb : w'.boot = w.boot) (hp : w.past <+: w'.past) :
    w'.kernAt w.past.length = w.kern := by
  obtain ⟨l, hl⟩ := hp
  rw [World.kernAt, World.kern, hb, ← hl, List.take_left]

theorem settled_oneMoment {s₀ : Snapshot} (hadv : Advances tables w.marked w₁)
    (hs₀ : Still tables w w₁ → s₀ = w.kern.view tables)
    (h : settled tables s₀ w₁ = (.done (.ok s), w')) (hsilent : w'.dumps.silent = false) :
    OneMoment tables w w' s := by
  obtain ⟨rfl, w₂, hadv₂, hlock, hquiet, hclean, hkeeps, hgrows, htold⟩ := settled_ok h
  have hall : Advances tables w.marked w₂ := advances_looks.trans hadv hadv₂
  have hgrows' : Grows tables w.marked w' := grows_reads.trans hall.toGrows hgrows
  rw [hkeeps.dumps, hall.silent] at hsilent
  have htold₂ : ∀ P, w₂.Told P w.past.length := fun P => hall.told P _ (le_refl _) (marked_told P hsilent)
  have hstill : Still tables w w₂ := still_of_told (htold₂ _) hlock hclean
  have hs : s = w.kern.view tables := hs₀ (Still.split hstill hadv.isPrefix hadv₂.isPrefix).1
  have hfirst : w'.dumps.first = w.past.length := by rw [hkeeps.dumps, hall.first]; rfl
  have hlast := hall.last (le_refl _)
  have hkern : w'.kernAt w.past.length = w.kern := kernAt_of_prefix hgrows'.boot hgrows'.isPrefix
  refine { started := hfirst.ge, ordered := ?_, ended := ?_, shows := ?_, still := ?_, barred := ?_,
           quiet := ?_, later := ?_, others := ?_, subscribed := ?_, told := ?_ }
  · rw [hkeeps.dumps, hall.first]
    exact hlast.1
  · rw [hkeeps.dumps]
    exact hlast.2.trans hkeeps.past.length_le
  · rw [hfirst, hkern, hs]
  · obtain ⟨l, hl⟩ := hkeeps.past
    intro c hc
    rw [hfirst, hkeeps.dumps, ← hl, List.take_append_of_le_length hlast.2, List.drop_take] at hc
    exact hstill c (List.mem_of_mem_take hc)
  · refine ⟨w₂.past.length, by rw [hkeeps.dumps]; exact hlast.2, hkeeps.past.length_le, ?_⟩
    rw [hkeeps.quiet, hquiet, kernAt_of_prefix hkeeps.boot hkeeps.past]
  · rw [hkeeps.quiet, hquiet, hs]
    exact hall.view_eq hstill
  · intro hirr
    rw [hs]
    rw [hfirst] at hirr
    exact hgrows'.view_eq hirr
  · rw [hfirst]
    intro c hc
    obtain ⟨x, hx, hxc⟩ := hgrows'.others c hc
    rw [World.Others, ← hgrows'.env] at hx
    exact ⟨x, hx, hxc⟩
  · obtain ⟨b, hb, -⟩ := hclean
    rw [hkeeps.sub, hb]
    rfl
  · intro P hP
    rw [hfirst]
    exact htold P hP _ hall.isPrefix.length_le (htold₂ P)

theorem failedLook_ne (seen : Option α) (e : RtErr) (a : α) :
    failedLook seen e ≠ .done (.ok a) := by
  cases e <;> simp [failedLook]

theorem coveredLook_oneMoment (h : coveredLook tables w = (.done (.ok s), w'))
    (hsilent : w'.dumps.silent = false) : OneMoment tables w w' s := by
  have hadv : Looks (Advances tables) := advances_looks
  obtain ⟨r, w₁, h₁, h⟩ := exists_of_bind h
  cases r with
  | error e => exact absurd (of_pure h).1 (failedLook_ne _ e s)
  | ok s₀ =>
    obtain ⟨ha₁, hs₀⟩ := takeOnce_advances h₁
    -- what comes between the look and the barrier only lets time pass
    have hlater : ∀ w₂, Advances tables w₁ w₂ → settled tables s₀ w₂ = (.done (.ok s), w') →
        OneMoment tables w w' s := fun w₂ ha₂ hset =>
      settled_oneMoment (hadv.trans ha₁ ha₂)
        (fun hs => hs₀ (Still.split hs ha₁.isPrefix ha₂.isPrefix).1) hset hsilent
    obtain ⟨r, w₂, h₂, h⟩ := exists_of_bind h
    have ha₂ := hadv.takeRulesOnce.run h₂
    cases r with
    | error e => exact absurd (of_pure h).1 (failedLook_ne _ e s)
    | ok r =>
      dsimp only at h
      split_ifs at h
      · obtain ⟨r, w₃, h₃, h⟩ := exists_of_bind h
        split at h
        · exact hlater w₃ (hadv.trans ha₂ ((hadv.confirmRepeats _ _).run h₃)) h
        all_goals cases h
      · exact hlater w₂ ha₂ h
      · cases h

theorem blindLook_ne (h : blindLook tables w = (.done (.ok s), w')) : False := by
  obtain ⟨r, _, -, h⟩ := exists_of_bind h
  cases r with
  | error e => exact failedLook_ne none e s (of_pure h).1
  | ok s₀ => cases h

theorem OneMoment.earlier (h : OneMoment tables w₁ w' s) (hw : Grows tables w w₁) :
    OneMoment tables w w' s := { h with started := hw.isPrefix.length_le.trans h.started }

theorem drainAndLook_oneMoment (h : drainAndLook tables w = (.done (.ok s), w'))
    (hsilent : w'.dumps.silent = false) : OneMoment tables w w' s := by
  replace h := of_get_bind h
  split_ifs at h
  · exact (blindLook_ne h).elim
  obtain ⟨r, _, h₁, h⟩ := exists_of_bind h
  split at h
  · exact (coveredLook_oneMoment h hsilent).earlier ((grows_reads.settleChurnFor _ _ _ _).run h₁)
  · exact (blindLook_ne h).elim
  · cases h

theorem attempt_oneMoment (h : attempt tables w = (.done (.ok s), w'))
    (hsilent : w'.dumps.silent = false) : OneMoment tables w w' s := by
  obtain ⟨_, w₁, h₁, h⟩ := exists_of_bind h
  have hgrow₁ : Grows tables w w₁ := grows_reads.expired.run h₁
  split_ifs at h
  · cases h
  replace h := of_get_bind h
  split_ifs at h
  · obtain ⟨_, _, h₂, h⟩ := exists_of_bind h
    exact (drainAndLook_oneMoment h hsilent).earlier (grows_reads.trans hgrow₁ (grows_reads.reopenChurn.run h₂))
  · exact (drainAndLook_oneMoment h hsilent).earlier hgrow₁

theorem takeLoop_oneMoment {n : ℕ} {last : RtErr} {seen : Option Snapshot}
    (h : takeLoop tables n last seen w = (.ok s, w')) (hstable : s.unstable = false)
    (hsilent : w'.dumps.silent = false) : OneMoment tables w w' s := by
  induction n generalizing w last seen with
  | zero =>
    cases seen with
    | none => cases h
    | some s₀ =>
      unfold takeLoop at h
      split_ifs at h
      · obtain ⟨hr, -⟩ := of_pure h
        split_ifs at hr
        cases hr
        cases hstable
      · cases h
  | succ n ih =>
    obtain ⟨r, _, h₁, h⟩ := exists_of_bind h
    cases r with
    | done r =>
      cases h
      exact attempt_oneMoment h₁ hsilent
    | again last' seen' => exact (ih h).earlier ((grows_reads.attempt tables).run h₁)

theorem takeContext_oneMoment (h : takeContext tables w = (.ok s, w'))
    (hstable : s.unstable = false) (hsilent : w'.dumps.silent = false) : OneMoment tables w w' s :=
  takeLoop_oneMoment h hstable hsilent

/-- A stable snapshot is the kernel at one moment of the call, with no relevant
change from its first dump to its last, when the subscription was not dropping
notifications without an error as the dumps began. -/
theorem stable_snapshot_one_moment (tables : List ℕ) (w w' : World) (snap : Snapshot)
    (h : takeContext tables w = (.ok snap, w')) (hstable : snap.unstable = false)
    (hsilent : w'.dumps.silent = false) :
    w.past.length ≤ w'.dumps.first ∧ w'.dumps.first ≤ w'.dumps.last ∧ w'.dumps.last ≤ w'.past.length ∧
      snap = (w'.kernAt w'.dumps.first).view tables ∧
      ∀ c ∈ (w'.past.take w'.dumps.last).drop w'.dumps.first, relevantToSnapshot tables c.1 = false := by
  have hmoment := takeContext_oneMoment h hstable hsilent
  exact ⟨hmoment.started, hmoment.ordered, hmoment.ended, hmoment.shows, hmoment.still⟩

/-! ### A full queue -/

/-- The kernel with one route in table 7, or none, and with the exit interface, or
without it. -/
def tunnelKern (route link : Bool) : Kern where
  routes := fun _ t => if route && t == 7 then [{ table := 7, typ := rtnUnicast }] else []
  links := if link then [{ index := 2, name := "wg0" }] else []
  rules_sorted := fun _ => List.Pairwise.nil
  routes_table := by
    intro f t r hr
    split_ifs at hr with h
    · obtain rfl := List.mem_singleton.1 hr
      simp only [Bool.and_eq_true, beq_iff_eq] at h
      exact h.2.symm
    · exact absurd hr List.not_mem_nil

/-- Somebody sets the kernel up anew, and the notification is not of a route. -/
def settingUp (kind : EventKind) (h : kind ≠ .route) (k : Kern) : Change where
  event := { kind := kind }
  apply := fun _ => k
  elsewhere := fun _ hk _ => absurd hk h

def elsewhereChange : Change where
  event := { kind := .route, table := 9 }
  apply := fun k => k
  elsewhere := fun _ _ _ => ⟨rfl, rfl, rfl, fun _ _ _ => rfl⟩

def routeGone : Change where
  event := { kind := .route, table := 7 }
  apply := fun k => { k with routes := fun f t => if t = 7 then [] else k.routes f t
                             routes_table := by
                               intro f t r hr
                               split_ifs at hr
                               · exact absurd hr List.not_mem_nil
                               · exact k.routes_table f t r hr }
  elsewhere := fun k _ _ => ⟨rfl, rfl, rfl, fun f t ht => if_neg ht⟩

/-- Two changes fill the queue before the first read, and two that the snapshot
reads take effect during the dumps. -/
def overflowing : World where
  boot := tunnelKern true false
  sub := some { cap := 1 }
  env := fun i => match i with
    | 0 => { acts := [.change elsewhereChange, .notify, .change elsewhereChange, .notify] }
    | 5 => { acts := [.change routeGone, .notify] }
    | 8 => { acts := [.change (settingUp .link (by decide) (tunnelKern false true)), .notify] }
    | _ => {}

/-- The first drain stops at the overflow with the queue still full: what changes
during the dumps is dropped without an error, and the snapshot shows a route
beside a link that came after it was gone. -/
theorem stable_snapshot_two_moments :
    ¬ ∀ (tables : List ℕ) (w w' : World) (snap : Snapshot), w.sub.isSome = true →
      takeContext tables w = (.ok snap, w') → snap.unstable = false →
      ∃ i, w.past.length ≤ i ∧ i ≤ w'.past.length ∧ snap = (w'.kernAt i).view tables := by
  intro h
  have hrun : (takeContext [7] overflowing).1.toOption.map (fun s =>
      (s.unstable, s.links.length, (s.routes .v4).length)) = some (false, 1, 1) := by decide +kernel
  have hkern : (takeContext [7] overflowing).2.past.length = 4 ∧
      ∀ i ∈ List.range 5, (((takeContext [7] overflowing).2.kernAt i).links.length,
        (((takeContext [7] overflowing).2.kernAt i).wanted [7] .v4).length) ≠ (1, 1) := by decide +kernel
  rcases htake : takeContext [7] overflowing with ⟨r, w'⟩
  rw [htake] at hrun hkern
  cases r with
  | error e => cases hrun
  | ok snap =>
    obtain ⟨hstable, hlinks, hroutes⟩ : snap.unstable = false ∧ snap.links.length = 1 ∧
        (snap.routes .v4).length = 1 := by simpa [Except.toOption] using hrun
    obtain ⟨i, -, hi, rfl⟩ := h [7] overflowing w' snap rfl htake hstable
    have hlen : w'.past.length = 4 := hkern.1
    exact hkern.2 i (List.mem_range.2 (by omega)) (Prod.ext hlinks hroutes)

/-- With room in the queue the first attempt hears of the changes, and the second
is stable. -/
theorem stable_snapshot_one_moment_roomy :
    ∃ snap w', takeContext [7] { overflowing with sub := some { cap := 8 } } = (.ok snap, w') ∧
      snap.unstable = false ∧ w'.dumps.first = 4 ∧ snap = (w'.kernAt w'.dumps.first).view [7] := by
  have hrun : ((takeContext [7] { overflowing with sub := some { cap := 8 } }).1.toOption.map
      (fun s => s.unstable), (takeContext [7] { overflowing with sub := some { cap := 8 } }).2.dumps.first,
      (takeContext [7] { overflowing with sub := some { cap := 8 } }).2.dumps.silent) =
      (some false, 4, false) := by decide +kernel
  rcases htake : takeContext [7] { overflowing with sub := some { cap := 8 } } with ⟨r, w'⟩
  rw [htake] at hrun
  cases r with
  | error e => cases hrun
  | ok snap =>
    obtain ⟨hstable, hfirst, hsilent⟩ : snap.unstable = false ∧ w'.dumps.first = 4 ∧
        w'.dumps.silent = false := by simpa [Except.toOption] using hrun
    exact ⟨snap, w', rfl, hstable, hfirst,
      (stable_snapshot_one_moment [7] _ w' snap htake hstable hsilent).2.2.2.1⟩

end Molebridge
