import Molebridge.Lib.Stateful

/-! Computations on a state that can stop early. Along every run, stopped or not, the
state moves along a relation; a run that is not stopped ends in a postcondition. -/

namespace Molebridge

variable {ε σ α β : Type} {R : σ → σ → Prop} {P : σ → Prop} {Q Q' : α → σ → Prop} {S : β → σ → Prop}

/-- From a state of `P` the state moves along `R`, and a run to the end is one to `Q`. -/
def Leads (R : σ → σ → Prop) (P : σ → Prop) (x : ExceptT ε (StateM σ) α) (Q : α → σ → Prop) : Prop :=
  ∀ s, P s → R s (x.run s).2 ∧ ∀ a, (x.run s).1 = .ok a → Q a (x.run s).2

namespace Leads

variable {x : ExceptT ε (StateM σ) α}

theorem mono (h : Leads R P x Q) (hq : ∀ a s, Q a s → Q' a s) : Leads R P x Q' := fun s hs =>
  ⟨(h s hs).1, fun a ha => hq a _ ((h s hs).2 a ha)⟩

theorem weaken {P' : σ → Prop} (h : Leads R P x Q) (hp : ∀ s, P' s → P s) : Leads R P' x Q := fun s hs => h s (hp s hs)

theorem assuming {c : Prop} (h : c → Leads R P x Q) : Leads R (fun s => P s ∧ c) x Q := fun s hs => h hs.2 s hs.1

theorem modify {g : σ → σ} {T : PUnit → σ → Prop} (h : ∀ s, P s → R s (g s) ∧ T PUnit.unit (g s)) :
    Leads R P (modify g : ExceptT ε (StateM σ) PUnit) T := fun s hs => ⟨(h s hs).1, fun _ _ => (h s hs).2⟩

end Leads

section

variable (h : Chains R)

include h

theorem leads_pure {a : α} (hq : ∀ s, P s → Q a s) : Leads R P (pure a : ExceptT ε (StateM σ) α) Q := fun s hs =>
  ⟨h.refl s, fun b hb => by
    obtain rfl : a = b := Except.ok.inj hb
    exact hq s hs⟩

theorem leads_throw (e : ε) : Leads R P (throw e : ExceptT ε (StateM σ) α) Q := fun s _ =>
  ⟨h.refl s, fun _ ha => nomatch ha⟩

theorem leads_get : Leads R P (get : ExceptT ε (StateM σ) σ) fun s t => P t ∧ s = t := fun s hs =>
  ⟨h.refl s, fun _ ht => ⟨hs, (Except.ok.inj ht).symm⟩⟩

theorem leads_bind {x : ExceptT ε (StateM σ) α} {f : α → ExceptT ε (StateM σ) β} (hx : Leads R P x Q)
    (hf : ∀ a, Leads R (Q a) (f a) S) : Leads R P (x >>= f) S := by
  intro s hs
  obtain ⟨hmove, hpost⟩ := hx s hs
  have hrun : (x >>= f).run s = match x.run s with
      | (.ok a, s') => (f a).run s'
      | (.error e, s') => (.error e, s') := by
    show ExceptT.bindCont f (x.run s).1 (x.run s).2 = _
    rcases x.run s with ⟨⟨e⟩ | ⟨a⟩, s'⟩ <;> rfl
  rw [hrun]
  rcases hres : x.run s with ⟨⟨e⟩ | ⟨a⟩, s'⟩
  · rw [hres] at hmove
    exact ⟨hmove, fun _ hb => nomatch hb⟩
  · rw [hres] at hmove hpost
    obtain ⟨hmove', hpost'⟩ := hf a s' (hpost a rfl)
    exact ⟨h.trans hmove hmove', hpost'⟩

end

end Molebridge
