import Molebridge.Spec.Timestamp

/-! A timestamp that was written is read back as the same second, and what is read strictly
is what would be written. -/

namespace Molebridge

variable {t year : ℤ} {n : ℕ} {s : List Char}

/-! ### Digits -/

theorem digit_digitChar (n : ℕ) : digit (digitChar n) = some (n % 10) := by
  have hlt : n % 10 < 10 := Nat.mod_lt n (by decide)
  unfold digitChar
  generalize n % 10 = d at hlt
  interval_cases d <;> decide

theorem digits_two (n : ℕ) (h : n < 100) : digits (twoDigits n) = some n := by
  simp only [digits, twoDigits, List.foldlM_cons, List.foldlM_nil, digit_digitChar, Option.map_some, Option.bind_eq_bind,
    Option.bind_some, Option.pure_def, Option.some.injEq]
  omega

theorem digits_four (n : ℕ) (h : n < 10000) :
    digits [digitChar (n / 1000), digitChar (n / 100), digitChar (n / 10), digitChar n] = some n := by
  simp only [digits, List.foldlM_cons, List.foldlM_nil, digit_digitChar, Option.map_some, Option.bind_eq_bind,
    Option.bind_some, Option.pure_def, Option.some.injEq]
  omega

/-! ### The calendar -/

/-- The cycles of 400, 100, 4 and 1 years that `yearDay` counts, and the day left. -/
theorem yearDay_cycles (days : ℤ) : ∃ (q : ℤ) (n100 n4 n1 d : ℕ),
    yearDay days = (400 * q + (100 * n100 + 4 * n4 + n1 : ℕ) + 1, d) ∧
      days = 146097 * q + (36524 * n100 + 1461 * n4 + 365 * n1 + d : ℕ) ∧ n100 ≤ 3 ∧ n4 ≤ 24 ∧ n1 ≤ 3 ∧ d ≤ 365 ∧
      (d = 365 → n1 = 3 ∧ (n4 < 24 ∨ n100 = 3)) := by
  have hr : 0 ≤ days % 146097 ∧ days % 146097 < 146097 := by omega
  obtain ⟨r, _⟩ := Int.eq_ofNat_of_zero_le hr.1
  have hn : (days % 146097).toNat = r := by omega
  refine ⟨days / 146097, _, _, _, _, rfl, ?_, ?_⟩ <;> rw [hn] <;> omega

theorem daysBeforeYear_yearDay (days : ℤ) : daysBeforeYear (yearDay days).1 + (yearDay days).2 = days := by
  obtain ⟨q, _, _, _, d, hy, _, _, _, _, -, -⟩ := yearDay_cycles days
  rw [hy]
  simp only [daysBeforeYear]
  omega

theorem yearDay_lt (days : ℤ) : (yearDay days).2 < if isLeap (yearDay days).1 then 366 else 365 := by
  obtain ⟨q, n100, n4, n1, d, hy, -, -, _, -, hd, _⟩ := yearDay_cycles days
  rw [hy]
  have hleap : d = 365 → isLeap (400 * q + (100 * n100 + 4 * n4 + n1) + 1) = true := by
    intro hd
    simp only [isLeap, Bool.and_eq_true, Bool.or_eq_true, beq_iff_eq, bne_iff_ne]
    omega
  split_ifs with h
  · exact Nat.lt_succ_of_le hd
  · exact lt_of_le_of_ne hd fun he => h (hleap he)

theorem daysBeforeMonth_succ (year : ℤ) {month : ℕ} (h : 1 ≤ month) :
    daysBeforeMonth year (month + 1) = daysBeforeMonth year month + daysIn year month := by
  obtain ⟨m, rfl⟩ := Nat.exists_eq_add_of_le' h
  simp [daysBeforeMonth, List.range_succ]

theorem daysBeforeMonth_last (year : ℤ) : daysBeforeMonth year 13 = if isLeap year then 366 else 365 := by
  cases h : isLeap year <;> simp [daysBeforeMonth, List.range_succ, daysIn, h]

theorem daysIn_le (year : ℤ) (month : ℕ) : daysIn year month ≤ 31 := by
  unfold daysIn
  split <;> (try split_ifs) <;> omega

/-- The month and day of a day of the year: the day is in the month, and counted from
the month's first it is the day of the year. -/
structure InMonth (year : ℤ) (yday : ℕ) (md : ℕ × ℕ) : Prop where
  month_pos : 1 ≤ md.1
  month_le : md.1 ≤ 12
  day_pos : 1 ≤ md.2
  day_le : md.2 ≤ daysIn year md.1
  days : daysBeforeMonth year md.1 + (md.2 - 1) = yday

theorem monthDay_range (year : ℤ) {k m yday : ℕ} (hm : 1 ≤ m) (hk : m + k = 13)
    (h : daysBeforeMonth year m + yday < daysBeforeMonth year 13) :
    InMonth year (daysBeforeMonth year m + yday) (monthDay year (List.range' m k) yday) := by
  induction k generalizing m yday with
  | zero =>
    obtain rfl : m = 13 := hk
    omega
  | succ k ih =>
    rw [List.range'_succ, monthDay]
    split_ifs with hlt
    · exact ⟨hm, by omega, by simp, by simpa using hlt, by simp⟩
    · have hsucc := daysBeforeMonth_succ year hm
      have hrest := @ih (m + 1) (yday - daysIn year m) (by omega) (by omega) (by omega)
      rwa [show daysBeforeMonth year (m + 1) + (yday - daysIn year m) = daysBeforeMonth year m + yday by omega] at hrest

theorem inMonth_monthDay (year : ℤ) {yday : ℕ} (h : yday < if isLeap year then 366 else 365) :
    InMonth year yday (monthDay year [1, 2, 3, 4, 5, 6, 7, 8, 9, 10, 11, 12] yday) := by
  have hfirst : daysBeforeMonth year 1 = 0 := rfl
  have hin := @monthDay_range year 12 1 yday le_rfl rfl (by rw [hfirst, daysBeforeMonth_last]; omega)
  rwa [hfirst, Nat.zero_add] at hin

theorem yearDay_bounds (h : Dated t) :
    1 ≤ (yearDay (t / second / 86400 + epochDay)).1 ∧ (yearDay (t / second / 86400 + epochDay)).1 ≤ 9999 := by
  obtain ⟨_, _⟩ := h
  have hday : 0 ≤ t / second / 86400 + epochDay ∧ t / second / 86400 + epochDay < 3652059 := by
    simp only [epochDay]
    omega
  obtain ⟨q, _, _, _, d, hy, _, _, _, _, _, -⟩ := yearDay_cycles (t / second / 86400 + epochDay)
  rw [hy]
  have hq : 0 ≤ q := by
    omega
  constructor <;> omega

/-! ### The round trip -/

theorem parseTime_formatTime (h : Dated t) : parseTime (.str (formatTime t)) = some (t / second) := by
  obtain ⟨hlo, hhi⟩ := yearDay_bounds h
  have hyear := daysBeforeYear_yearDay (t / second / 86400 + epochDay)
  have hmonth := inMonth_monthDay _ (yearDay_lt (t / second / 86400 + epochDay))
  have hclock : 0 ≤ t / second % 86400 ∧ t / second % 86400 < 86400 := by omega
  unfold parseTime formatTime
  simp only [Json.string_str, Option.bind_some, String.toList_ofList]
  generalize yearDay (t / second / 86400 + epochDay) = yd at *
  obtain ⟨year, yday⟩ := yd
  generalize monthDay year [1, 2, 3, 4, 5, 6, 7, 8, 9, 10, 11, 12] yday = md at *
  obtain ⟨month, day⟩ := md
  obtain ⟨clock, hc⟩ := Int.eq_ofNat_of_zero_le hclock.1
  obtain ⟨n, hn⟩ := Int.eq_ofNat_of_zero_le (show 0 ≤ year by omega)
  obtain ⟨hm1, hm12, hd1, hdin, hdays⟩ := hmonth
  dsimp only at hlo hhi hyear hm1 hm12 hd1 hdin hdays ⊢
  subst hn
  have hd31 := daysIn_le n month
  have hneg : ¬ ((n : ℤ) < 0) := by omega
  have hlt : n < 10000 := by omega
  rw [hc, Int.toNat_natCast]
  simp only [yearChars, hneg, if_false, Int.natAbs_natCast, hlt, if_true, List.nil_append, List.cons_append, twoDigits,
    readTime]
  have htwo : ∀ k, k < 100 → digits [digitChar (k / 10), digitChar k] = some k := digits_two
  rw [digits_four n hlt, htwo month (by omega), htwo day (by omega), htwo (clock / 3600) (by omega),
    htwo (clock / 60 % 60) (by omega), htwo (clock % 60) (by omega)]
  simp only [Option.bind_eq_bind, Option.bind_some, buildTime]
  rw [if_neg (by omega), if_neg (by omega), Option.some_inj]
  simp only [unixSeconds]
  omega

/-! ### Years that four digits do not write -/

theorem length_of_readTime (h : readTime s = some t) : s.length = 20 := by
  unfold readTime at h
  split at h
  · rfl
  · cases h

theorem length_yearChars (h : (yearChars year).length = 4) : 0 ≤ year ∧ year ≤ 9999 := by
  have hlong : ¬ year.natAbs < 10000 → 5 ≤ (toString year.natAbs).toList.length := by
    intro hge
    by_contra hlt
    rw [Nat.toString_eq_repr, Nat.repr_eq_ofList_toDigits, String.toList_ofList] at hlt
    exact hge ((@Nat.length_toDigits_le_iff 10 year.natAbs 4 (by decide) (by decide)).1 (by omega))
  unfold yearChars at h
  split_ifs at h with hneg <;> grind

theorem readTime_year_zero (rest : List Char) : readTime (yearChars 0 ++ rest) = none := by
  have hyear : yearChars 0 = ['0', '0', '0', '0'] := by decide
  rw [hyear]
  unfold readTime
  split
  · rename_i h
    obtain ⟨rfl, rfl, rfl, rfl, -⟩ : _ ∧ _ ∧ _ ∧ _ ∧ _ := by simpa using h
    simp [digits, digit, buildTime]
  · rfl

theorem dated_of_parseTime {u : ℤ} (h : parseTime (.str (formatTime t)) = some u) : Dated t := by
  unfold parseTime formatTime at h
  simp only [Json.string_str, Option.bind_some, String.toList_ofList] at h
  have hlength := length_of_readTime h
  simp only [List.length_append, List.length_cons, twoDigits] at hlength
  obtain ⟨hlo, hhi⟩ := @length_yearChars (yearDay (t / second / 86400 + epochDay)).1 (by omega)
  have hne : (yearDay (t / second / 86400 + epochDay)).1 ≠ 0 := by
    intro hzero
    rw [hzero] at h
    simp only [List.append_assoc, readTime_year_zero] at h
    cases h
  obtain ⟨q, _, _, _, d, hy, hdays, _, _, _, _, _⟩ := yearDay_cycles (t / second / 86400 + epochDay)
  rw [hy] at hlo hhi hne
  simp only [epochDay] at hdays
  constructor <;> omega

/-! ### The strict form is canonical -/

theorem eq_of_between {α : Type*} [LinearOrder α] [SuccOrder α] {f : α → ℤ} (hf : Monotone f) {a b : α} {x : ℤ}
    (ha : f a ≤ x ∧ x < f (Order.succ a)) (hb : f b ≤ x ∧ x < f (Order.succ b)) : a = b := by
  rcases lt_trichotomy a b with h | h | h
  · exact absurd (hf (Order.succ_le_of_lt h)) (by omega)
  · exact h
  · exact absurd (hf (Order.succ_le_of_lt h)) (by omega)

theorem daysBeforeYear_succ (year : ℤ) :
    daysBeforeYear (year + 1) = daysBeforeYear year + if isLeap year then 366 else 365 := by
  have hleap : isLeap year = true ↔ year % 4 = 0 ∧ (year % 100 ≠ 0 ∨ year % 400 = 0) := by simp [isLeap]
  simp only [daysBeforeYear, hleap]
  split_ifs <;> omega

theorem yearDay_unique {yday : ℕ} (h : yday < if isLeap year then 366 else 365) :
    yearDay (daysBeforeYear year + yday) = (year, yday) := by
  have hlt := yearDay_lt (daysBeforeYear year + yday)
  have hsum := daysBeforeYear_yearDay (daysBeforeYear year + yday)
  generalize yearDay (daysBeforeYear year + yday) = r at hlt hsum
  obtain ⟨year', yday'⟩ := r
  have hmono : Monotone daysBeforeYear := monotone_int_of_le_succ fun y => by
    rw [daysBeforeYear_succ]
    split_ifs <;> omega
  have hin : ∀ (y : ℤ) (d : ℕ), (d < if isLeap y then 366 else 365) →
      daysBeforeYear y ≤ daysBeforeYear y + d ∧ daysBeforeYear y + d < daysBeforeYear (Order.succ y) := by
    intro y d hd
    rw [Int.succ_eq_succ, Int.succ, daysBeforeYear_succ]
    split_ifs at hd ⊢ <;> omega
  obtain rfl := eq_of_between hmono (hin year yday h) (hsum ▸ hin year' yday' hlt)
  exact Prod.ext rfl (by simpa using hsum)

theorem daysBeforeMonth_mono (year : ℤ) : Monotone (daysBeforeMonth year) :=
  monotone_nat_of_le_succ fun m => by
    cases m with
    | zero => rfl
    | succ m => simp [daysBeforeMonth_succ year (Nat.succ_pos m)]

theorem InMonth.unique {yday : ℕ} {md md' : ℕ × ℕ} (h : InMonth year yday md)
    (h' : InMonth year yday md') : md = md' := by
  have hmono : Monotone fun m => (daysBeforeMonth year m : ℤ) := fun _ _ h => Int.ofNat_le.2 (daysBeforeMonth_mono year h)
  have hin : ∀ {md}, InMonth year yday md →
      (daysBeforeMonth year md.1 : ℤ) ≤ yday ∧ (yday : ℤ) < daysBeforeMonth year (Order.succ md.1) := by
    rintro md ⟨hm, -, _, _, hdays⟩
    rw [Nat.succ_eq_succ, Nat.succ_eq_add_one, daysBeforeMonth_succ year hm]
    omega
  have hmonth : md.1 = md'.1 := eq_of_between hmono (hin h) (hin h')
  have hdays := h.days.trans h'.days.symm
  have hpos := h.day_pos
  have hpos' := h'.day_pos
  rw [hmonth] at hdays
  exact Prod.ext hmonth (by omega)

theorem digitChar_of_digit {c : Char} {d : ℕ} (h : digit c = some d) : d < 10 ∧ ∀ n, n % 10 = d → digitChar n = c := by
  unfold digit at h
  split_ifs at h with hc
  obtain ⟨hlo, _⟩ : 48 ≤ c.toNat ∧ c.toNat ≤ 57 := hc
  cases h
  refine ⟨by omega, fun n hn => ?_⟩
  rw [digitChar, hn, Nat.add_sub_cancel' hlo, Char.ofNat_toNat]

theorem twoDigits_of_digits {a b : Char} (h : digits [a, b] = some n) : twoDigits n = [a, b] := by
  simp only [digits, List.foldlM_cons, List.foldlM_nil, Option.bind_eq_bind, Option.bind_eq_some_iff, Option.map_eq_some_iff,
    Option.pure_def, Option.some.injEq] at h
  obtain ⟨_, ⟨x, hx, rfl⟩, _, ⟨y, hy, rfl⟩, rfl⟩ := h
  obtain ⟨_, hx⟩ := digitChar_of_digit hx
  obtain ⟨_, hy⟩ := digitChar_of_digit hy
  rw [twoDigits, hx _ (by omega), hy _ (by omega)]

theorem yearChars_of_digits {a b c d : Char} (h : digits [a, b, c, d] = some n) : yearChars n = [a, b, c, d] := by
  simp only [digits, List.foldlM_cons, List.foldlM_nil, Option.bind_eq_bind, Option.bind_eq_some_iff, Option.map_eq_some_iff,
    Option.pure_def, Option.some.injEq] at h
  obtain ⟨_, ⟨x, hx, rfl⟩, _, ⟨y, hy, rfl⟩, _, ⟨z, hz, rfl⟩, _, ⟨w, hw, rfl⟩, rfl⟩ := h
  obtain ⟨_, hx⟩ := digitChar_of_digit hx
  obtain ⟨_, hy⟩ := digitChar_of_digit hy
  obtain ⟨_, hz⟩ := digitChar_of_digit hz
  obtain ⟨_, hw⟩ := digitChar_of_digit hw
  simp only [yearChars, Int.natAbs_natCast]
  rw [if_neg (by omega), if_pos (by omega), hx _ (by omega), hy _ (by omega), hz _ (by omega),
    hw _ (by omega)]
  rfl

def written (year : ℤ) (month day hour minute sec : ℕ) : List Char :=
  yearChars year ++ '-' :: (twoDigits month ++ '-' :: (twoDigits day ++ 'T' ::
    (twoDigits hour ++ ':' :: (twoDigits minute ++ ':' :: (twoDigits sec ++ ['Z'])))))

theorem of_readTime (h : readTime s = some t) : ∃ year month day hour minute sec : ℕ,
    year < 10000 ∧ buildTime year month day hour minute sec = some t ∧ s = written year month day hour minute sec := by
  unfold readTime at h
  split at h
  · simp only [Option.bind_eq_bind, Option.bind_eq_some_iff] at h
    obtain ⟨year, hy, month, hm, day, hd, hour, hh, minute, hn, sec, hs, ht⟩ := h
    have hyear := yearChars_of_digits hy
    obtain ⟨-, _⟩ := length_yearChars (congrArg List.length hyear)
    refine ⟨year, month, day, hour, minute, sec, by omega, ht, ?_⟩
    rw [written, hyear, twoDigits_of_digits hm, twoDigits_of_digits hd, twoDigits_of_digits hh, twoDigits_of_digits hn,
      twoDigits_of_digits hs]
    rfl
  · cases h

theorem untilChar_append {stop : Char → Bool} {field rest : List Char} (c : Char)
    (hstop : ∀ x, stop x = true → digit x = none) (hfield : ∀ x ∈ field, ∃ n, x = digitChar n) (hc : stop c = true) :
    untilChar stop (field ++ c :: rest) = some (field, rest) := by
  have hgo : ∀ x ∈ field, (!stop x) = true := by
    intro x hx
    obtain ⟨n, rfl⟩ := hfield x hx
    cases hs : stop (digitChar n) with
    | false => rfl
    | true => exact absurd (hstop _ hs) (by simp [digit_digitChar])
  have htake : (field ++ c :: rest).takeWhile (fun c => !stop c) = field := by
    rw [List.takeWhile_append_of_pos hgo]
    simp [hc]
  have hdrop : (field ++ c :: rest).dropWhile (fun c => !stop c) = c :: rest := by
    rw [List.dropWhile_append_of_pos hgo]
    simp [hc]
  simp only [untilChar, htake, hdrop]

theorem shortField_twoDigits {least most : ℕ} (hlo : least ≤ n) (hhi : n ≤ most) (hn : n < 100) :
    shortField least most (twoDigits n) = some n := by
  rw [shortField, if_pos (by simp [twoDigits]), digits_two n hn]
  simp [Option.filter, hlo, hhi]

theorem dayField_twoDigits (hlo : 1 ≤ n) (hhi : n ≤ 31) : dayField (twoDigits n) = some n := by
  unfold dayField
  split
  · rename_i heq
    have hc : digit (digitChar (n / 10)) = none := (List.cons.inj heq).1 ▸ (by decide)
    simp [digit_digitChar] at hc
  · exact shortField_twoDigits hlo hhi (by omega)

section Built

variable {year month day hour minute sec : ℕ} {t : ℤ} (h : buildTime year month day hour minute sec = some t)
include h

theorem formatTime_of_buildTime : formatTime (t * second) = String.ofList (written year month day hour minute sec) := by
  unfold buildTime at h
  split_ifs at h with hbad hlong
  have hdate := Option.some.inj h
  simp only [unixSeconds] at hdate
  have hin : InMonth year (daysBeforeMonth year month + (day - 1)) (month, day) :=
    ⟨by omega, by omega, by omega, Nat.le_of_not_gt hlong, rfl⟩
  have hyday : daysBeforeMonth year month + (day - 1) < if isLeap year then 366 else 365 := by
    have hlast := daysBeforeMonth_mono year (show month + 1 ≤ 13 by omega)
    rw [daysBeforeMonth_last, daysBeforeMonth_succ year (by omega)] at hlast
    omega
  have hdays : t / 86400 + epochDay = daysBeforeYear year + (daysBeforeMonth year month + (day - 1) : ℕ) := by omega
  have hclock : (t % 86400).toNat = hour * 3600 + minute * 60 + sec := by omega
  simp only [formatTime, Int.mul_ediv_cancel t (show second ≠ 0 by decide), hdays, hclock, yearDay_unique hyday,
    (inMonth_monthDay year hyday).unique hin]
  rw [show (hour * 3600 + minute * 60 + sec) / 3600 = hour by omega,
    show (hour * 3600 + minute * 60 + sec) / 60 % 60 = minute by omega,
    show (hour * 3600 + minute * 60 + sec) % 60 = sec by omega]
  simp [written]

theorem readLenient_written (hyear : year < 10000) : readLenient (written year month day hour minute sec) = some t := by
  have hdash : ∀ x, (x == '-') = true → digit x = none := by simp; decide
  have hcolon : ∀ x, (x == ':') = true → digit x = none := by simp; decide
  have hT : ∀ x, (x == 'T' || x == 't') = true → digit x = none := by simp; decide
  have hZ : ∀ x, (x == 'Z' || x == 'z') = true → digit x = none := by simp; decide
  have htwo : ∀ n, ∀ x ∈ twoDigits n, ∃ k, x = digitChar k := by simp [twoDigits]
  have hchars : yearChars year =
      [digitChar (year / 1000), digitChar (year / 100), digitChar (year / 10), digitChar year] := by
    simp [yearChars, hyear]
  have hfour : ∀ x ∈ yearChars year, ∃ k, x = digitChar k := by simp [hchars]
  have hdigits : digits (yearChars year) = some year := hchars ▸ digits_four year hyear
  have hbuild := h
  unfold buildTime at h
  split_ifs at h with hbad hlong
  have hday := daysIn_le year month
  simp only [readLenient, written, untilChar_append '-' hdash hfour rfl,
    untilChar_append '-' hdash (htwo month) rfl, untilChar_append 'T' hT (htwo day) rfl,
    untilChar_append ':' hcolon (htwo hour) rfl, untilChar_append ':' hcolon (htwo minute) rfl,
    untilChar_append 'Z' hZ (htwo sec) rfl, Option.bind_eq_bind, Option.bind_some]
  rw [if_pos ⟨by simp [hchars], trivial⟩, hdigits, shortField_twoDigits (by omega) (by omega) (by omega),
    dayField_twoDigits (by omega) (by omega), shortField_twoDigits (by omega) (by omega) (by omega),
    shortField_twoDigits (by omega) (by omega) (by omega), shortField_twoDigits (by omega) (by omega) (by omega)]
  exact hbuild

end Built

/-- Whatever the strict reading accepts is what is written for the instant read, and the
lenient reading gives that instant too; every second of the years 1 to 9999 is read back
from its text. -/
theorem timestamps_canonical :
    (∀ (s : String) (t : ℤ), parseTime (.str s) = some t →
      formatTime (t * second) = s ∧ lenientTime (.str s) = some t) ∧
    ∀ t : ℤ, unixSeconds 1 1 1 0 0 0 ≤ t → t < unixSeconds 10000 1 1 0 0 0 →
      parseTime (.str (formatTime (t * second))) = some t := by
  refine ⟨fun s t h => ?_, fun t hlo hhi => ?_⟩
  · obtain ⟨year, month, day, hour, minute, sec, hyear, ht, hs⟩ := of_readTime (s := s.toList) h
    refine ⟨?_, ?_⟩
    · rw [formatTime_of_buildTime ht, ← hs, String.ofList_toList]
    · exact (congrArg readLenient hs).trans (readLenient_written ht hyear)
  · have hsecond : t * second / second = t := Int.mul_ediv_cancel t (by decide)
    have hdated : Dated (t * second) := by
      rw [Dated, hsecond]
      exact ⟨hlo, hhi⟩
    rw [parseTime_formatTime hdated, hsecond]

theorem timestamps_canonical_leap :
    formatTime (1709208000 * second) = "2024-02-29T12:00:00Z" ∧
      lenientTime (.str "2024-02-29T12:00:00Z") = some 1709208000 :=
  timestamps_canonical.1 _ _ (by decide +kernel)

end Molebridge
