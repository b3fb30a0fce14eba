import Mathlib.Data.List.DropRight
import Mathlib.Data.List.Infix
import Mathlib.Tactic

/-! internal/exit, the reader of NetBird's log (gluetun.go): what a launch appended to the
file is searched, read after read. -/

namespace Molebridge.Exit

/-- The two lines NetBird logs when it will not mark its sockets. -/
def fallbackStrings : List (List ℕ) :=
  ["falling back to legacy routing", "advanced routing has been requested to be disabled"].map
    fun s => s.toList.map Char.toNat

def logScanOverlap : ℕ := 512

structure LogScanner where
  offset : ℕ
  carry : List ℕ := []
  perStep : ℕ := 2 ^ 20

/-- What a step meets: whether the file opens and is a regular one, what it holds for Stat and
for ReadAt, and how many bytes ReadAt returns at most. -/
structure LogLook where
  regular : Bool
  stat : List ℕ
  file : List ℕ
  most : ℕ

namespace LogScanner

/-- A file smaller than what was read is read again from its beginning. -/
def restarted (l : LogScanner) (size : ℕ) : LogScanner :=
  if size < l.offset then { l with offset := 0, carry := [] } else l

def search (l : LogScanner) (buf : List ℕ) : Bool × LogScanner :=
  let data := l.carry ++ buf
  let l := { l with offset := l.offset + buf.length }
  if ∃ s ∈ fallbackStrings, s <:+: data then (true, l) else (false, { l with carry := data.rtake logScanOverlap })

def step (l : LogScanner) (k : LogLook) : Bool × LogScanner :=
  if !k.regular then (false, l)
  else
    let l := l.restarted k.stat.length
    let want := min (k.stat.length - l.offset) l.perStep
    if want = 0 then (false, l) else l.search ((k.file.drop l.offset).take (min want k.most))

def steps : LogScanner → List LogLook → Bool × LogScanner
  | l, [] => (false, l)
  | l, k :: rest => if (l.step k).1 then l.step k else steps (l.step k).2 rest

end LogScanner

end Molebridge.Exit
