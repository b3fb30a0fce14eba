import Molebridge.Spec.Json
import Molebridge.Spec.Lease

/-! internal/validate/timestamp.go: the strict and the lenient reading of the state
files' timestamps, and how they are written. An instant is its distance from the
Unix epoch in nanoseconds, as a duration is; what is read has whole seconds. -/

namespace Molebridge

/-! ### The calendar -/

def isLeap (year : ℤ) : Bool := year % 4 == 0 && (year % 100 != 0 || year % 400 == 0)

def daysIn (year : ℤ) (month : ℕ) : ℕ :=
  match month with
  | 2 => if isLeap year then 29 else 28
  | 4 | 6 | 9 | 11 => 30
  | _ => 31

/-- The days of a year before the first of a month. -/
def daysBeforeMonth (year : ℤ) (month : ℕ) : ℕ :=
  ((List.range (month - 1)).map fun m => daysIn year (m + 1)).sum

/-- The days from 1 January of the year 1 to 1 January of a year. -/
def daysBeforeYear (year : ℤ) : ℤ :=
  let y := year - 1
  365 * y + y / 4 - y / 100 + y / 400

/-- 1 January 1970, counted from the year 1. -/
def epochDay : ℤ := 719162

def unixSeconds (year : ℤ) (month day hour minute sec : ℕ) : ℤ :=
  (daysBeforeYear year + daysBeforeMonth year month + (day - 1 : ℕ) - epochDay) * 86400 +
    (hour * 3600 + minute * 60 + sec : ℕ)

/-- The month and day of a day of the year, counted from 0. -/
def monthDay (year : ℤ) : List ℕ → ℕ → ℕ × ℕ
  | [], yday => (12, yday + 1)
  | m :: rest, yday =>
    if yday < daysIn year m then (m, yday + 1) else monthDay year rest (yday - daysIn year m)

/-- The year of a day counted from the year 1, and the day in it: by cycles of 400,
100 and 4 years, where the last year of a 100 and of a 4 year cycle takes the day
left over. -/
def yearDay (days : ℤ) : ℤ × ℕ :=
  let d := (days % 146097).toNat
  let n100 := min (d / 36524) 3
  let d := d - 36524 * n100
  let n4 := d / 1461
  let d := d - 1461 * n4
  let n1 := min (d / 365) 3
  (400 * (days / 146097) + (100 * n100 + 4 * n4 + n1 : ℕ) + 1, d - 365 * n1)

/-! ### Reading -/

def digit (c : Char) : Option ℕ := if '0' ≤ c ∧ c ≤ '9' then some (c.toNat - 48) else none

/-- The number that digits, and nothing else, write. -/
def digits (cs : List Char) : Option ℕ :=
  cs.foldlM (fun n c => (digit c).map fun d => n * 10 + d) 0

def buildTime (year month day hour minute sec : ℕ) : Option ℤ :=
  if year < 1 ∨ month < 1 ∨ month > 12 ∨ day < 1 ∨ hour > 23 ∨ minute > 59 ∨ sec > 59 then none
  else if day > daysIn year month then none
  else some (unixSeconds year month day hour minute sec)

/-- The strict form: exactly YYYY-MM-DDTHH:MM:SSZ. -/
def readTime (s : List Char) : Option ℤ :=
  match s with
  | [y₁, y₂, y₃, y₄, '-', m₁, m₂, '-', d₁, d₂, 'T', h₁, h₂, ':', n₁, n₂, ':', s₁, s₂, 'Z'] => do
    buildTime (← digits [y₁, y₂, y₃, y₄]) (← digits [m₁, m₂]) (← digits [d₁, d₂]) (← digits [h₁, h₂])
      (← digits [n₁, n₂]) (← digits [s₁, s₂])
  | _ => none

def parseTime (value : Json) : Option ℤ := value.string.bind fun s => readTime s.toList

/-- Fresh: strictly formed, not in the future, at most `maxAge` seconds old. -/
def freshFor (value : Json) (maxAge now : ℤ) : Bool :=
  (parseTime value).elim false fun t => 0 ≤ now - t * second && now - t * second ≤ maxAge * second

/-- The characters up to the first that ends a field, and what follows that one. -/
def untilChar (stop : Char → Bool) (cs : List Char) : Option (List Char × List Char) :=
  match cs.dropWhile fun c => !stop c with
  | [] => none
  | _ :: rest => some (cs.takeWhile fun c => !stop c, rest)

/-- One or two digits of a number from `least` to `most`. -/
def shortField (least most : ℕ) (cs : List Char) : Option ℕ :=
  if 1 ≤ cs.length ∧ cs.length ≤ 2 then (digits cs).filter fun n => least ≤ n && n ≤ most else none

def dayField (cs : List Char) : Option ℕ :=
  match cs with
  | [' ', c] => (digits [c]).filter (1 ≤ ·)
  | _ => shortField 1 31 cs

/-- parseLenient, in seconds: one digit fields too, the letters in either case. -/
def readLenient (s : List Char) : Option ℤ := do
  let (year, s) ← untilChar (· == '-') s
  let (month, s) ← untilChar (· == '-') s
  let (day, s) ← untilChar (fun c => c == 'T' || c == 't') s
  let (hour, s) ← untilChar (· == ':') s
  let (minute, s) ← untilChar (· == ':') s
  let (sec, s) ← untilChar (fun c => c == 'Z' || c == 'z') s
  if year.length = 4 ∧ s = [] then
    buildTime (← digits year) (← shortField 1 12 month) (← dayField day) (← shortField 0 23 hour)
      (← shortField 0 59 minute) (← shortField 0 61 sec)
  else none

/-- Whether AgeSeconds reads the value. -/
def lenientTime (value : Json) : Option ℤ := value.string.bind fun s => readLenient s.toList

/-- The zero time.Time: the start of the year 1. -/
def zeroTime : ℤ := -62135596800 * second

/-- A time given to a reader that takes a zero one for the present, which the clock tells. -/
def orPresent (clock now : ℤ) : ℤ := if now = zeroTime then clock else now

/-! ### Writing -/

def digitChar (n : ℕ) : Char := Char.ofNat (48 + n % 10)

def twoDigits (n : ℕ) : List Char := [digitChar (n / 10), digitChar n]

def yearChars (year : ℤ) : List Char :=
  let n := year.natAbs
  (if year < 0 then ['-'] else []) ++
    (if n < 10000 then [digitChar (n / 1000), digitChar (n / 100), digitChar (n / 10), digitChar n]
      else (toString n).toList)

/-- FormatTime: UTC, whole seconds. -/
def formatTime (t : ℤ) : String :=
  let days := t / second / 86400
  let clock := (t / second % 86400).toNat
  let (year, yday) := yearDay (days + epochDay)
  let (month, day) := monthDay year [1, 2, 3, 4, 5, 6, 7, 8, 9, 10, 11, 12] yday
  String.ofList (yearChars year ++ ['-'] ++ twoDigits month ++ ['-'] ++ twoDigits day ++ ['T'] ++
    twoDigits (clock / 3600) ++ [':'] ++ twoDigits (clock / 60 % 60) ++ [':'] ++ twoDigits (clock % 60) ++ ['Z'])

/-- The instants of the years that four digits write. -/
def Dated (t : ℤ) : Prop := -62135596800 ≤ t / second ∧ t / second < 253402300800

example : formatTime (1700000000 * second) = "2023-11-14T22:13:20Z" := by decide +kernel

example : readTime "2024-02-29T12:00:00Z".toList = some 1709208000 := by decide +kernel

end Molebridge
