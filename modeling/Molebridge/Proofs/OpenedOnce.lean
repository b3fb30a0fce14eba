import Mathlib.Data.List.TakeWhile
import Mathlib.Tactic
import Molebridge.Lib.Interleaving
import Molebridge.Spec.SignIn

/-! A pending sign-in is opened once. The table of used states forgets from its oldest end only,
so it holds the newest openings; what it forgot has expired by the clock, which is enough for a
call that gets the lock in time. -/

namespace Molebridge.Oidc

variable {c : Sealing} {limits : Limits} {logins : Set PendingLogin} {presented : Set (List Char)}
  {s s' : Auth}

/-! The cookie. -/

variable {login : PendingLogin} {now clock : ℚ} {consumed : List ConsumedItem} {place : Call} {i : ℕ}

def Opening.item (o : Opening) : ConsumedItem :=
  ⟨o.login.state, truncated o.now⟩

theorem le_truncated {created : ℤ} (h : (created : ℚ) ≤ now) :
    created ≤ truncated now := by
  unfold truncated
  split_ifs with h0
  · exact Int.le_floor.2 h
  · exact_mod_cast h.trans (Int.le_ceil now)

theorem evict_split (limits : Limits) (items : List ConsumedItem) :
    ∃ front, items = front ++ evict limits items ∧
      (front ≠ [] → limits.maxConsumedLogins ≤ (evict limits items).length + 1) := by
  induction items with
  | nil => exact ⟨[], rfl, fun h => (h rfl).elim⟩
  | cons item rest ih =>
    by_cases hfull : limits.maxConsumedLogins ≤ (item :: rest).length
    · obtain ⟨front, hsplit, hroom⟩ := ih
      rw [evict, if_pos hfull]
      refine ⟨item :: front, by rw [List.cons_append, ← hsplit], fun _ => ?_⟩
      cases front with
      | nil =>
        rw [← hsplit.trans (List.nil_append _)]
        exact hfull
      | cons => exact hroom (List.cons_ne_nil _ _)
    · rw [evict, if_neg hfull]
      exact ⟨[], rfl, fun h => (h rfl).elim⟩

/-- The table holds the newest openings, and the older ones have expired by a time. -/
def Recalls (openings : List Opening) (clock : ℚ) (consumed : List ConsumedItem) : Prop :=
  ∃ gone kept, openings = gone ++ kept ∧ consumed = kept.map Opening.item ∧
    ∀ o ∈ gone, o.login.created + loginTTL < clock

variable {openings : List Opening}

theorem Recalls.later {clock' : ℚ}
    (h : Recalls openings clock consumed) (hle : clock ≤ clock') : Recalls openings clock' consumed := by
  obtain ⟨gone, kept, hsplit, hitems, hgone⟩ := h
  exact ⟨gone, kept, hsplit, hitems, fun o ho => (hgone o ho).trans_le hle⟩

theorem Recalls.prune
    (h : Recalls openings clock consumed)
    (hcreated : ∀ o ∈ openings, (o.login.created : ℚ) ≤ o.now) (hnow : now ≤ clock) :
    Recalls openings clock (pruneConsumed now consumed) := by
  obtain ⟨gone, kept, hsplit, hitems, hgone⟩ := h
  set old : Opening → Bool := fun o => decide (loginTTL < now - o.item.used) with hold
  refine ⟨gone ++ kept.takeWhile old, kept.dropWhile old, ?_, ?_, ?_⟩
  · rw [List.append_assoc, List.takeWhile_append_dropWhile, hsplit]
  · rw [pruneConsumed, hitems, List.dropWhile_map]
    rfl
  · intro o ho
    rcases List.mem_append.1 ho with ho | ho
    · exact hgone o ho
    · have hused : old o = true := List.mem_takeWhile_imp ho
      rw [hold, decide_eq_true_eq] at hused
      have hmem : o ∈ openings := hsplit ▸ List.mem_append_right _ (List.takeWhile_subset _ ho)
      have hcr : (o.login.created : ℚ) ≤ o.item.used := by
        exact_mod_cast le_truncated (hcreated o hmem)
      linarith

def Sound (c : Sealing) (presented : Set (List Char)) (clock : ℚ) : Call → Prop
  | .opening _ cookie => cookie ∈ presented
  | .locking _ login now =>
    fresh now login ∧ now ≤ clock ∧ ∃ cookie ∈ presented, c.signed cookie = some login
  | _ => True

theorem Sound.later {clock' : ℚ} (hle : clock ≤ clock')
    (h : Sound c presented clock place) : Sound c presented clock' place := by
  cases place with
  | locking => exact ⟨h.1, h.2.1.trans hle, h.2.2⟩
  | _ => exact h

theorem Auth.Paced.before (h : s'.Paced limits) {later : List Opening}
    (ho : s'.openings = s.openings ++ later) : s.Paced limits := by
  intro o hin start
  have := h o (ho ▸ List.mem_append_left _ hin) start
  rw [Auth.othersOpened, ho, List.countP_append] at this
  exact (Nat.le_add_right ..).trans_lt this

/-- What was opened so far: the times of each opening, and what the table knows of it. -/
structure Orderly (c : Sealing) (logins : Set PendingLogin) (presented : Set (List Char))
    (s : Auth) : Prop where
  sound : ∀ i, Sound c presented s.clock (s.call i)
  genuine : ∀ o ∈ s.openings, o.login ∈ logins
  created : ∀ o ∈ s.openings, (o.login.created : ℚ) ≤ o.now
  waited : ∀ o ∈ s.openings, o.now ≤ o.locked
  past : ∀ o ∈ s.openings, o.locked ≤ s.clock
  ordered : s.openings.Pairwise fun o o' => o.locked ≤ o'.locked
  once : (s.openings.map (·.login.state)).Nodup
  recalls : Recalls s.openings s.clock s.consumed

theorem Orderly.same (h : Orderly c logins presented s)
    (hsound : ∀ i, Sound c presented s'.clock (s'.call i)) (hclock : s.clock ≤ s'.clock)
    (ho : s'.openings = s.openings) (hr : Recalls s.openings s'.clock s'.consumed) :
    Orderly c logins presented s' where
  sound := hsound
  genuine := ho ▸ h.genuine
  created := ho ▸ h.created
  waited := ho ▸ h.waited
  past := ho ▸ fun o hin => (h.past o hin).trans hclock
  ordered := ho ▸ h.ordered
  once := ho ▸ h.once
  recalls := ho ▸ hr

/-- Room is made at the expense of an expired sign-in only: the ones that follow it in a full table
were opened after it. -/
theorem Recalls.consume (h : Orderly c logins presented s)
    (hr : Recalls s.openings s.clock (pruneConsumed now s.consumed))
    (hnew : ∀ o ∈ s.openings, o.login.state ≠ login.state)
    (hpaced : s'.Paced limits) (ho : s'.openings = s.openings ++ [⟨i, login, now, s.clock⟩]) :
    Recalls s'.openings s.clock
      (consume limits login now (pruneConsumed now s.consumed)) := by
  obtain ⟨gone, kept, hsplit, hitems, hgone⟩ := hr
  obtain ⟨_, hevict, hroom⟩ := evict_split limits (kept.map Opening.item)
  obtain ⟨evicted, rest, rfl, rfl, hrest⟩ := List.map_eq_append_iff.1 hevict
  refine ⟨gone ++ evicted, rest ++ [⟨i, login, now, s.clock⟩], ?_, ?_, ?_⟩
  · rw [ho, hsplit]
    simp only [List.append_assoc]
  · rw [Oidc.consume, hitems, ← hrest, List.map_append]
    rfl
  intro o hin
  rcases List.mem_append.1 hin with hin | hin
  · exact hgone o hin
  by_contra hfresh
  have hmem : o ∈ s.openings := by simp [hsplit, hin]
  have hcr := h.created o hmem
  have hw := h.waited o hmem
  -- the openings that the table keeps, and the new one, are all within LoginTTL of this one
  have hlater : ∀ o' ∈ rest ++ [⟨i, login, now, s.clock⟩], o'.login.state ≠ o.login.state ∧
      o.locked ≤ o'.locked ∧ o'.locked ≤ o.locked + loginTTL := by
    intro o' ho'
    rcases List.mem_append.1 ho' with ho' | ho'
    · have hmem' : o' ∈ s.openings := by simp [hsplit, ho']
      have hpast := h.past o' hmem'
      have hord := h.ordered
      have honce := h.once
      rw [hsplit, ← List.append_assoc] at hord honce
      rw [List.map_append, List.nodup_append] at honce
      refine ⟨?_, (List.pairwise_append.1 hord).2.2 o (List.mem_append_right _ hin) o' ho', by linarith⟩
      exact (honce.2.2 _ (List.mem_map_of_mem (List.mem_append_right _ hin)) _
        (List.mem_map_of_mem ho')).symm
    · rw [List.mem_singleton.1 ho']
      exact ⟨(hnew o hmem).symm, h.past o hmem, by simp only; linarith⟩
  have hmany : (rest ++ [(⟨i, login, now, s.clock⟩ : Opening)]).length ≤
      s'.othersOpened o.login.state o.locked := by
    rw [Auth.othersOpened, ho, hsplit, ← List.append_assoc, List.append_assoc, List.countP_append,
      List.countP_eq_length.2 fun o' ho' => decide_eq_true (hlater o' ho')]
    exact Nat.le_add_left ..
  have hlen : limits.maxConsumedLogins ≤ rest.length + 1 := by
    have := hroom (by simpa using List.ne_nil_of_mem hin)
    rwa [← hrest, List.length_map] at this
  have := hpaced o (ho ▸ List.mem_append_left _ hmem) o.locked
  rw [List.length_append] at hmany
  simp only [List.length_singleton] at hmany
  omega

def firstLogin : PendingLogin := ⟨List.replicate 43 'a', "/", 0⟩

def secondLogin : PendingLogin := ⟨List.replicate 43 'b', "/", 600⟩

def twoLogins : Sealing where
  sign body := body ++ List.replicate 42 'A'
  encode login := if login = firstLogin then ['a'] else ['b']
  decode body := if body = ['a'] then some firstLogin else some secondLogin

def twoCookies : Set (List Char) := {twoLogins.seal firstLogin, twoLogins.seal secondLogin}

/-- The call has a place of enterExchange and has not left it. -/
def Call.inExchange : Call → Bool
  | .opening caller _ => caller = .finish
  | .locking caller _ _ => caller = .finish
  | .exchanging _ => true
  | .leaving => true
  | .uncalled => false
  | .returned => false

def Auth.inExchange (s : Auth) : Set ℕ := {i | (s.call i).inExchange = true}

/-- The places are counted, and the table has no more items than its limit. -/
structure Bounded (limits : Limits) (s : Auth) : Prop where
  finite : s.inExchange.Finite
  counted : s.exchanges = s.inExchange.ncard
  places : s.exchanges ≤ limits.maxTokenExchanges
  items : s.consumed.length ≤ limits.maxConsumedLogins

theorem inExchange_at (s : Auth) (i : ℕ) (place : Call) : (s.at i place).inExchange =
    if place.inExchange then insert i s.inExchange else s.inExchange \ {i} := by
  ext j
  by_cases hj : j = i
  · subst hj
    split_ifs with hplace <;> simp [Auth.inExchange, Auth.at, hplace]
  · split_ifs <;> simp [Auth.inExchange, Auth.at, hj]

theorem Bounded.same (h : Bounded limits s) {i : ℕ} {place : Call}
    (hplace : place.inExchange = (s.call i).inExchange) : Bounded limits (s.at i place) := by
  have hsame : (s.at i place).inExchange = s.inExchange := by
    rw [inExchange_at, hplace]
    split_ifs with hi
    · exact Set.insert_eq_of_mem hi
    · exact Set.sdiff_singleton_eq_self hi
  exact ⟨hsame ▸ h.finite, hsame ▸ h.counted, h.places, h.items⟩

theorem refused_inExchange (caller : Caller) : caller.refused.inExchange = decide (caller = .finish) := by
  cases caller <;> rfl

theorem Bounded.prune (h : Bounded limits s) (now : ℚ) :
    Bounded limits { s with consumed := pruneConsumed now s.consumed } :=
  ⟨h.finite, h.counted, h.places, (List.dropWhile_suffix _).length_le.trans h.items⟩

theorem length_evict_lt (limits : Limits) (items : List ConsumedItem) :
    (evict limits items).length < limits.maxConsumedLogins := by
  induction items with
  | nil => exact limits.keeps
  | cons item rest ih =>
    rw [evict]
    split_ifs with hfull
    · exact ih
    · exact not_le.1 hfull

theorem bounded_step (h : Step c limits presented s s') (hs : Bounded limits s) : Bounded limits s' := by
  cases h with
  | tick d hd => exact ⟨hs.finite, hs.counted, hs.places, hs.items⟩
  | discard i cookie hi hp => exact hs.same (by rw [hi]; rfl)
  | enter i cookie hi hp hfree =>
    have hnot : i ∉ s.inExchange := by simp [Auth.inExchange, hi, Call.inExchange]
    refine ⟨inExchange_at .. ▸ hs.finite.insert i, ?_, hfree, hs.items⟩
    rw [inExchange_at, if_pos (by rfl)]
    exact (congrArg (· + 1) hs.counted).trans (by exact_mod_cast (Set.ncard_insert_of_notMem hnot hs.finite).symm)
  | busy i hi hfull => exact hs.same (by rw [hi]; rfl)
  | unsigned i caller cookie hi _ => exact hs.same (by rw [hi, refused_inExchange]; rfl)
  | expired i caller cookie login hi _ _ => exact hs.same (by rw [hi, refused_inExchange]; rfl)
  | read i caller cookie login hi _ _ => exact hs.same (by rw [hi]; rfl)
  | used i caller login now hi hu =>
    refine (hs.prune now).same ?_
    rw [refused_inExchange]
    exact (congrArg Call.inExchange hi).symm
  | opened i caller login now hi hu =>
    have hroom := length_evict_lt limits (pruneConsumed now s.consumed)
    have hused : Bounded limits { s with
        consumed := consume limits login now (pruneConsumed now s.consumed)
        openings := s.openings ++ [⟨i, login, now, s.clock⟩] } :=
      ⟨hs.finite, hs.counted, hs.places, by simpa [consume] using hroom⟩
    refine hused.same ?_
    change _ = (s.call i).inExchange
    rw [hi]
    cases caller <;> rfl
  | failed i login hi => exact hs.same (by rw [hi]; rfl)
  | signedIn i login hi => exact (hs.prune s.clock).same (congrArg Call.inExchange hi).symm
  | leave i hi =>
    have hmem : i ∈ s.inExchange := by simp [Auth.inExchange, hi, Call.inExchange]
    have hless := Set.ncard_sdiff_singleton_add_one hmem hs.finite
    refine ⟨inExchange_at .. ▸ hs.finite.sdiff, ?_, (sub_le_self _ (by decide)).trans hs.places, hs.items⟩
    rw [inExchange_at, if_neg (by decide)]
    change s.exchanges - 1 = ((s.inExchange \ {i}).ncard : ℤ)
    rw [hs.counted, ← hless]
    simp

/-- In every interleaving the counter of enterExchange and leaveExchange is the number of Finish
calls between them, no more than the limit, and the table of used states is within its own. -/
theorem sign_ins_bounded {clock : ℚ} (h : Relation.ReflTransGen (Step c limits presented) { clock } s) :
    s.inExchange.Finite ∧ s.exchanges = s.inExchange.ncard ∧
      s.inExchange.ncard ≤ limits.maxTokenExchanges ∧ s.consumed.length ≤ limits.maxConsumedLogins := by
  have hstart : Bounded limits { clock } := by
    have hnone : Auth.inExchange { clock } = ∅ := by simp [Auth.inExchange, Call.inExchange]
    exact ⟨hnone ▸ Set.finite_empty, by simp [hnone], by simp, Nat.zero_le _⟩
  have hall := keeps_of_step (I := Bounded limits) (fun hstep hs => bounded_step hstep hs) h hstart
  exact ⟨hall.finite, hall.counted, by exact_mod_cast hall.counted ▸ hall.places, hall.items⟩

/-- A Finish call at its cookie. -/
theorem sign_ins_bounded_finish : ∃ s, Relation.ReflTransGen (Step twoLogins {} twoCookies) { clock := 0 } s ∧
    s.exchanges = 1 ∧ s.inExchange.ncard = 1 := by
  have hrun : Relation.ReflTransGen (Step twoLogins {} twoCookies) { clock := 0 } _ :=
    .single (.enter _ 0 (twoLogins.seal firstLogin) rfl (.inl rfl) (by decide))
  have hone : (1 : ℤ) = _ := (sign_ins_bounded hrun).2.1
  exact ⟨_, hrun, rfl, by exact_mod_cast hone.symm⟩

end Molebridge.Oidc
