import Mathlib.Tactic

/-! Runs of a state computation: what a step does to the state, and relations
between states that hold along every run because they hold along every step. -/

namespace Molebridge

variable {σ α β : Type} {R : σ → σ → Prop} {x : StateM σ α} {f : α → StateM σ β}

variable {s s' : σ} {ι : Type}

variable {b : β} {P : α → Prop}

theorem exists_of_bind (h : (x >>= f) s = (b, s')) :
    ∃ a t, x s = (a, t) ∧ f a t = (b, s') := ⟨(x s).1, (x s).2, rfl, h⟩

theorem bind_run (x : StateM σ α) (f : α → StateM σ β) (s : σ) : (x >>= f) s = f (x s).1 (x s).2 := rfl

theorem pure_run (a : α) (s : σ) : (pure a : StateM σ α) s = (a, s) := rfl

variable {a : α}

theorem of_pure {b : α} (h : (pure a : StateM σ α) s = (b, s')) : a = b ∧ s = s' :=
  Prod.mk.inj h

variable {g : σ → σ}

theorem of_modify {u : PUnit} (h : (modify g : StateM σ PUnit) s = (u, s')) :
    g s = s' := (Prod.mk.inj h).2

theorem of_get_bind {f : σ → StateM σ β} (h : (get >>= f) s = (b, s')) : f s s = (b, s') := h

theorem of_modify_bind {f : PUnit → StateM σ β} (h : (modify g >>= f) s = (b, s')) :
    f ⟨⟩ (g s) = (b, s') := h

/-- Every run moves the state along the relation. -/
def Along (R : σ → σ → Prop) (x : StateM σ α) : Prop := ∀ s, R s (x s).2

theorem Along.run (h : Along R x) (hx : x s = (a, s')) : R s s' := by
  have := h s
  rwa [hx] at this

/-- Every run from a state with the property moves it along the relation. -/
def AlongIf (P : σ → Prop) (R : σ → σ → Prop) (x : StateM σ α) : Prop := ∀ s, P s → R s (x s).2

theorem AlongIf.run {P : σ → Prop} (h : AlongIf P R x) (hs : P s) (hx : x s = (a, s')) : R s s' := by
  have := h s hs
  rwa [hx] at this

/-- A relation that steps can be chained along. -/
structure Chains (R : σ → σ → Prop) : Prop where
  refl : ∀ s, R s s
  trans : ∀ {a b c}, R a b → R b c → R a c

theorem along_modify (h : ∀ s, R s (g s)) : Along R (modify g : StateM σ PUnit) := h

variable {step : α → ι → StateM σ α}

namespace Chains

variable (h : Chains R)

include h

theorem pure (a : α) : Along R (pure a : StateM σ α) := h.refl

theorem get : Along R (get : StateM σ σ) := h.refl

theorem bind (hx : Along R x) (hf : ∀ a, Along R (f a)) : Along R (x >>= f) := fun s =>
  h.trans (hx s) (hf (x s).1 (x s).2)

theorem foldlM {l : List ι} (hs : ∀ i ∈ l, ∀ a, Along R (step a i)) (a : α) :
    Along R (l.foldlM step a) := by
  induction l generalizing a with
  | nil => exact h.pure a
  | cons i t ih =>
    exact h.bind (hs i (.head _) a) fun b => ih (fun j hj => hs j (.tail i hj)) b

theorem bindIf {P : σ → Prop} (hx : Along R x) (hP : Along (fun s s' => P s → P s') x)
    (hf : ∀ a, AlongIf P R (f a)) : AlongIf P R (x >>= f) := fun s hs =>
  h.trans (hx s) (hf (x s).1 (x s).2 (hP s hs))

end Chains

theorem Along.alongIf (h : Along R x) (P : σ → Prop) : AlongIf P R x := fun s _ => h s

theorem along_ite {c : Prop} [Decidable c] {x y : StateM σ α} (hx : Along R x) (hy : Along R y) :
    Along R (if c then x else y) := by
  split_ifs
  · exact hx
  · exact hy

theorem alongIf_ite {P : σ → Prop} {c : Prop} [Decidable c] {x y : StateM σ α} (hx : AlongIf P R x)
    (hy : AlongIf P R y) : AlongIf P R (if c then x else y) := by
  split_ifs
  · exact hx
  · exact hy

/-- Every run moves the state along the relation and ends with a result of `P`. -/
def Yields (R : σ → σ → Prop) (P : α → Prop) (x : StateM σ α) : Prop := ∀ s, R s (x s).2 ∧ P (x s).1

theorem Chains.yields_pure (h : Chains R) (ha : P a) :
    Yields R P (Pure.pure a : StateM σ α) := fun s => ⟨h.refl s, ha⟩

theorem Chains.yields_bind (h : Chains R) {P : β → Prop} (hx : Along R x) (hf : ∀ a, Yields R P (f a)) :
    Yields R P (x >>= f) := fun s => ⟨h.trans (hx s) (hf (x s).1 (x s).2).1, (hf (x s).1 (x s).2).2⟩

theorem Chains.bind_yields (h : Chains R) (hx : Yields R P x) (hf : ∀ a, P a → Along R (f a)) :
    Along R (x >>= f) := fun s => h.trans (hx s).1 (hf _ (hx s).2 (x s).2)

/-! ### Pre- and postconditions -/

/-- A run from a state of `P` ends with a result and a state of `Q`. -/
def Ensures (P : σ → Prop) (x : StateM σ α) (Q : α → σ → Prop) : Prop := ∀ s, P s → Q (x s).1 (x s).2

namespace Ensures

variable {P : σ → Prop} {Q Q' : α → σ → Prop} {S : β → σ → Prop}

theorem pure (h : ∀ s, P s → Q a s) : Ensures P (pure a : StateM σ α) Q := h

theorem bind (hx : Ensures P x Q) (hf : ∀ a, Ensures (Q a) (f a) S) : Ensures P (x >>= f) S :=
  fun s hs => hf _ _ (hx s hs)

theorem get : Ensures P (get : StateM σ σ) fun s t => P t ∧ s = t := fun _ hs => ⟨hs, rfl⟩

theorem modify {T : PUnit → σ → Prop} (h : ∀ s, P s → T PUnit.unit (g s)) :
    Ensures P (modify g : StateM σ PUnit) T := h

theorem assuming {c : Prop} (h : c → Ensures P x Q) : Ensures (fun s => P s ∧ c) x Q := fun s hs => h hs.2 s hs.1

/-- A loop keeps what every round keeps, for each element of the list. -/
theorem foldlM {l : List ι}
    (h : ∀ i ∈ l, ∀ a, Ensures (Q a) (step a i) Q) (a : α) : Ensures (Q a) (l.foldlM step a) Q := by
  induction l generalizing a with
  | nil => exact fun _ hs => hs
  | cons i t ih =>
    exact (h i (.head _) a).bind fun b => ih (fun j hj => h j (.tail i hj)) b

/-- A loop, with an invariant that speaks of what is still to be done. -/
theorem foldlM_rest {J : List ι → α → σ → Prop}
    (h : ∀ i rest a, Ensures (J (i :: rest) a) (step a i) (J rest)) (l : List ι) (a : α) :
    Ensures (J l a) (l.foldlM step a) (J []) := by
  induction l generalizing a with
  | nil => exact fun _ hs => hs
  | cons i t ih =>
    exact (h i t a).bind fun b => ih b

end Ensures

end Molebridge
