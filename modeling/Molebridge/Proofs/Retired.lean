import Molebridge.Proofs.Passes
import Molebridge.Spec.Install

/-! Retiring a return-path address. The job deletes the pair of the retired address
alone, once a stable look shows the address on no interface, and only then takes the
address out of what is expected; the rest is an ordinary pass against the new
expectation. -/

namespace Molebridge

/-- Rules of one source may be gone; every other rule is there. -/
structure Spared (addr : Addr) (k k' : Kern) : Prop where
  sublist : ∀ g, (k'.rules g).Sublist (k.rules g)
  others : ∀ g, ∀ x ∈ k.rules g, x.src ≠ some (Prefix.host addr) → x ∈ k'.rules g

theorem host_bits_pos (addr : Addr) : 0 < (Prefix.host addr).bits := by
  change 0 < addr.fam.bits
  cases addr.fam <;> decide

variable {addr a : Addr} {f g : Family} {e : Rule} {tx : Tx Quiet}

variable {spec : Spec}

theorem stableLook_spec (n : ℕ) (tx : Tx Quiet) : Idle tx (Tx.stableLook quiet n tx).2 ∧
    ∀ snap, (Tx.stableLook quiet n tx).1 = .ok snap → ∀ f, Sees f snap tx.kernel.kern := by
  induction n generalizing tx with
  | zero => exact snapshot_spec tx
  | succ n ih =>
    obtain ⟨hidle, hsees⟩ := snapshot_spec tx
    unfold Tx.stableLook
    rw [bind_run]
    rcases hrun : Tx.snapshot quiet tx with ⟨x, tx'⟩
    rw [hrun] at hidle hsees
    cases x with
    | error e => exact ⟨hidle, fun snap h => (nomatch h)⟩
    | ok snap =>
      dsimp only
      split_ifs
      · obtain ⟨hidle', hsees'⟩ := ih tx'
        rw [hidle.kern] at hsees'
        exact ⟨idle_chains.trans hidle hidle', hsees'⟩
      · exact ⟨hidle, hsees⟩

/-! ### The expectation afterwards -/

theorem host_masked (a : Addr) : (Prefix.host a).masked = Prefix.host a := by
  simp [Prefix.masked, Prefix.size, Prefix.host, Addr.bitLen]

theorem src_ne_of_items {x : Rule} (hitems : equalItems x.items e.items = true)
    (he : e.src = some (Prefix.host a)) (hne : a ≠ addr) : x.src ≠ some (Prefix.host addr) := by
  intro hx
  have hmask := Rule.src_masked_eq hitems
  rw [hx, he, Option.map_some, Option.map_some, host_masked, host_masked] at hmask
  exact hne (congrArg Prefix.addr (Option.some.inj hmask)).symm

theorem Spared.has {k k' : Kern} (h : Spared addr k k')
    (he : e.src = some (Prefix.host a)) (hne : a ≠ addr) (hk : k.has g e.priority e) : k'.has g e.priority e := by
  obtain ⟨x, hx, hitems⟩ := hk
  obtain ⟨hx, hprio⟩ := Kern.mem_rulesAt.1 hx
  exact ⟨x, Kern.mem_rulesAt.2 ⟨h.others g x hx (src_ne_of_items hitems he hne), hprio⟩, hitems⟩

section Job

variable (initial spec : Spec) (w : Quiet) (guardRepairs : Bool) (f : Family) (addr : Addr)

/-- The job ends without a change of what is expected, after some of its own deletions;
or with the pass, after all of them, and then a stable look showed the address nowhere. -/
inductive Retirement (tx : Tx Quiet) (out : Option JobError × Tx Quiet) : Prop
  | stopped (own : List Kern) (h : Since tx own out.2) (hown : ∀ k ∈ own, Spared addr tx.kernel.kern k)
      (hlive : (∃ x ∈ tx.kernel.kern.addrs f, x.loc.addr = addr) → own = [])
  | passed (hnative : tx.spec.config.isGluetun = false) (own : List Kern) (tx₁ : Tx Quiet) (h : Since tx own tx₁)
      (hown : ∀ k ∈ own, Spared addr tx.kernel.kern k) (snap : Snapshot)
      (hlook : (Tx.stableLook quiet (settleLooks - 1) tx).1 = .ok snap) (hstable : snap.unstable = false)
      (hgone : ∀ x ∈ snap.addrs f, x.loc.addr ≠ addr) (hnot : ∀ x ∈ tx.kernel.kern.addrs f, x.loc.addr ≠ addr)
      (hout : out.2 = (Tx.reconcile quiet (Tx.guards guardRepairs tx.spec) "retired a return-path address"
        { tx₁ with spec := Tx.retired initial tx.spec f addr, retiring := [] }).2)
      (hholds : out.1 = none → (Tx.reconcile quiet (Tx.guards guardRepairs tx.spec) "retired a return-path address"
        { tx₁ with spec := Tx.retired initial tx.spec f addr, retiring := [] }).1.contractHolds = true)

theorem Retirement.of_idle {out : Option JobError × Tx Quiet} (h : Idle tx out.2) :
    Retirement initial guardRepairs f addr tx out :=
  .stopped [] h.since (by simp) fun _ => rfl

end Job

def lostAddr : Addr := exitAddr

def hostAddr : Addr := ⟨.v4, 0x0a000009, by decide⟩

def lostSpec : Spec where
  config := { kind := .overlay, backend := .native, overlayIf := "wt0", exitIf := "mole0", table := 1000 }
  returnPath f := if f = .v4 then [lostAddr] else []

end Molebridge
