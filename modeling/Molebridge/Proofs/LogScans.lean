import Molebridge.Lib.Text
import Molebridge.Spec.LogScan

/-! The log scanner over a file that only grows: its carry is the end of what it has read, long
enough that no line is missed however the reads fall. -/

namespace Molebridge.Exit.LogScanner

variable {l : LogScanner} {k : LogLook} {start : ℕ} {F : List ℕ}

def Falls (bytes : List ℕ) : Prop := ∃ s ∈ fallbackStrings, s <:+: bytes

/-- What was read of the file: from the start to the offset. -/
def read (start : ℕ) (F : List ℕ) (l : LogScanner) : List ℕ := (F.take l.offset).drop start

/-- Between two steps: nothing was found, and the carry is the end of what was read. -/
structure Scanning (start : ℕ) (F : List ℕ) (l : LogScanner) : Prop where
  start_le : start ≤ l.offset
  offset_le : l.offset ≤ F.length
  quiet : ¬ Falls (l.read start F)
  carry : l.carry = (l.read start F).rtake logScanOverlap

theorem rtake_rtake_append (bytes more : List ℕ) (n : ℕ) : (bytes.rtake n ++ more).rtake n = (bytes ++ more).rtake n := by
  simp only [List.rtake_eq_reverse_take_reverse, List.reverse_append, List.reverse_reverse, List.take_append,
    List.take_take, min_eq_left (Nat.sub_le _ _)]

theorem falls_append {bytes more : List ℕ} (h : ¬ Falls bytes) :
    Falls (bytes.rtake logScanOverlap ++ more) ↔ Falls (bytes ++ more) := by
  have hlong : ∀ s ∈ fallbackStrings, s.length ≤ logScanOverlap := by decide +kernel
  refine exists_congr fun s => and_congr_right fun hs => ?_
  refine (Text.infix_append_iff (fun hin => h ⟨s, hs, hin⟩) (List.drop_suffix _ _) ?_).symm
  by_cases hlen : bytes.length ≤ logScanOverlap
  · exact .inl (by rw [Nat.sub_eq_zero_of_le hlen, List.drop_zero])
  · have := hlong s hs
    exact .inr (by rw [List.length_drop]; omega)

/-- What the result of a step says, and the state it leaves for the next. -/
structure Steps (start : ℕ) (F : List ℕ) (out : Bool × LogScanner) : Prop where
  reports : out.1 = true ↔ Falls (out.2.read start F)
  scanning : out.1 = false → Scanning start F out.2

theorem search_steps {buf : List ℕ} (h : Scanning start F l) (hbuf : buf <+: F.drop l.offset) :
    Steps start F (l.search buf) := by
  have hstart := h.start_le
  have hoffset := h.offset_le
  have hlength := hbuf.length_le
  rw [List.length_drop] at hlength
  have hread : (F.take (l.offset + buf.length)).drop start = l.read start F ++ buf := by
    obtain ⟨_, hrest⟩ := hbuf
    rw [List.take_add, List.drop_append_of_le_length (by simp; omega), read, ← hrest, List.take_left]
  have hfalls : Falls (l.carry ++ buf) ↔ Falls ((F.take (l.offset + buf.length)).drop start) := by
    rw [h.carry, falls_append h.quiet, hread]
  unfold search
  dsimp only
  split_ifs with hfound
  · exact ⟨iff_of_true rfl (hfalls.1 hfound), fun h => by cases h⟩
  · have hquiet := mt hfalls.2 hfound
    refine ⟨iff_of_false Bool.false_ne_true hquiet, fun _ => ⟨?_, ?_, hquiet, ?_⟩⟩
    · exact hstart.trans (Nat.le_add_right _ _)
    · change l.offset + buf.length ≤ F.length
      omega
    · rw [read, hread, h.carry, rtake_rtake_append]

theorem step_steps (h : Scanning start F l) (hsize : l.offset ≤ k.stat.length)
    (hfile : k.file <+: F) : Steps start F (l.step k) ∧ (l.step k).2.offset ≤ k.stat.length := by
  have hsame : l.restarted k.stat.length = l := if_neg (by omega)
  have hidle : Steps start F (false, l) := ⟨iff_of_false Bool.false_ne_true h.quiet, fun _ => h⟩
  simp only [step, hsame]
  split_ifs
  · exact ⟨hidle, hsize⟩
  · exact ⟨hidle, hsize⟩
  · refine ⟨search_steps h ((List.take_prefix _ _).trans (hfile.drop _)), ?_⟩
    have hoffset : ∀ buf, (l.search buf).2.offset = l.offset + buf.length := by
      intro buf
      unfold search
      dsimp only
      split_ifs <;> rfl
    rw [hoffset, List.length_take]
    omega

/-- The file from one look to the next, as a launch found it and to the end: each time it holds
what it held before, and more. -/
def OnlyGrows (launch : List ℕ) (looks : List LogLook) (F : List ℕ) : Prop :=
  (launch :: (looks.flatMap fun k => [k.stat, k.file]) ++ [F]).Pairwise (· <+: ·)

theorem steps_run {looks : List LogLook} {now : List ℕ} (h : Scanning start F l) (hnow : l.offset ≤ now.length)
    (hgrows : OnlyGrows now looks F) : Steps start F (l.steps looks) := by
  induction looks generalizing l now with
  | nil => exact ⟨iff_of_false Bool.false_ne_true h.quiet, fun _ => h⟩
  | cons k rest ih =>
    simp only [OnlyGrows, List.flatMap_cons, List.cons_append, List.nil_append, List.pairwise_cons, List.mem_cons,
      List.mem_append, List.mem_flatMap] at hgrows
    obtain ⟨hnow', hstat, hrest⟩ := hgrows
    have hsize := hnow.trans (hnow' k.stat (.inl rfl)).length_le
    obtain ⟨hstep, hoffset⟩ := step_steps h hsize (hrest.1 F (by simp))
    unfold steps
    split_ifs with hreport
    · exact hstep
    · refine ih (hstep.scanning (by simpa using hreport)) (hoffset.trans (hstat k.file (.inl rfl)).length_le) ?_
      simpa [OnlyGrows] using hrest

/-- From a launch on, and up to the first report: the scanner reports just when what it has read
holds one of the lines. -/
theorem scanner_misses_nothing (launch : List ℕ) (looks : List LogLook) (perStep : ℕ) (F : List ℕ)
    (hgrows : OnlyGrows launch looks F) :
    (steps { offset := launch.length, perStep } looks).1 = true ↔
      Falls (read launch.length F (steps { offset := launch.length, perStep } looks).2) := by
  have hF : launch <+: F := (List.pairwise_cons.1 hgrows).1 F (by simp)
  have hnothing : read launch.length F { offset := launch.length, perStep } = [] := by simp [read]
  refine (steps_run ⟨le_refl _, hF.length_le, ?_, ?_⟩ (le_refl _) hgrows).reports
  · rw [hnothing]
    unfold Falls
    decide
  · rw [hnothing]
    rfl

def splitLine : List ℕ := "falling back to legacy routing".toList.map Char.toNat

theorem scanner_reports_split :
    Falls (read 0 splitLine (steps { offset := 0 } (List.replicate 3 ⟨true, splitLine, splitLine, 10⟩)).2) :=
  (scanner_misses_nothing [] (List.replicate 3 ⟨true, splitLine, splitLine, 10⟩) (2 ^ 20) splitLine
    (by unfold OnlyGrows; decide +kernel)).1 (by decide +kernel)

end Molebridge.Exit.LogScanner
