import Molebridge.Lib.RoundRobin
import Molebridge.Spec.Latency

/-! The servers of a country that are timed: as many as the limit allows, each once, and
spread over the cities. -/

namespace Molebridge.Panel

open RoundRobin

variable (relays : Entries) (country : List ℕ)

variable {city name : List ℕ}

def servers : List (List ℕ) := relays.order.filter fun name => decide ((relays.get name).country = country)

theorem inCountry_perm : (inCountry relays country).Perm (servers relays country) :=
  (List.mergeSort_perm ..).filter _

variable {relays country}

theorem hosts_own (city : List ℕ) : ∀ name ∈ hosts relays country city, (relays.get name).city = city :=
  fun _ h => of_decide_eq_true (List.mem_filter.1 h).2

theorem queue_perm (city : List ℕ) : (queue relays country city).Perm (hosts relays country city) :=
  List.mergeSort_perm ..

theorem queue_own (city : List ℕ) : ∀ name ∈ queue relays country city, (relays.get name).city = city :=
  fun name h => hosts_own city name ((queue_perm city).mem_iff.1 h)

theorem mem_cityNames :
    city ∈ cityNames relays country ↔ ∃ name ∈ inCountry relays country, (relays.get name).city = city := by
  unfold cityNames sortStrings
  simp

theorem cityNames_nodup : (cityNames relays country).Nodup :=
  (List.mergeSort_perm ..).nodup_iff.2 (List.nodup_dedup _)

theorem hosts_other (h : city ∉ cityNames relays country) : hosts relays country city = [] :=
  List.filter_eq_nil_iff.2 fun name hname hcity => h (mem_cityNames.2 ⟨name, hname, of_decide_eq_true hcity⟩)

theorem queue_other (h : city ∉ cityNames relays country) : queue relays country city = [] := by
  have hperm := @queue_perm relays country city
  rwa [hosts_other h, List.perm_nil] at hperm

theorem flatMap_hosts : ((cityNames relays country).flatMap (hosts relays country)).Perm (servers relays country) := by
  refine (perm_of_filter (fun name => (relays.get name).city) fun city => ?_).trans (inCountry_perm relays country)
  rw [filter_flatMap cityNames_nodup hosts_own]
  split_ifs with h
  · exact .refl _
  · rw [← hosts_other h]
    exact .refl _

variable (relays country) in
/-- What the first turns choose. -/
def taken (n : ℕ) : List (List ℕ) := rounds (cityNames relays country) (queue relays country) n

theorem taken_all {n : ℕ} (h : (inCountry relays country).length ≤ n) :
    (taken relays country n).Perm (servers relays country) := by
  refine (perm_of_filter (fun name => (relays.get name).city) fun city => ?_).trans (inCountry_perm relays country)
  rw [taken, filter_rounds cityNames_nodup queue_own fun _ => queue_other, List.take_of_length_le]
  · exact queue_perm city
  · rw [(queue_perm city).length_eq]
    exact (List.length_filter_le ..).trans h

theorem taken_nodup (n : ℕ) : (taken relays country n).Nodup :=
  ((taken_all (le_max_right n _)).nodup_iff.2 (relays.nodup.filter _)).sublist
    (rounds_isPrefix _ _ (le_max_left n _)).sublist

theorem taken_mem {n : ℕ} (h : name ∈ taken relays country n) : name ∈ servers relays country :=
  (taken_all (le_max_right n _)).subset ((rounds_isPrefix _ _ (le_max_left n _)).subset h)

theorem mem_queue (h : name ∈ servers relays country) :
    name ∈ queue relays country (relays.get name).city :=
  (queue_perm _).mem_iff.2 (List.mem_filter.2 ⟨(inCountry_perm relays country).mem_iff.2 h, by simp⟩)

theorem exists_last (h : maxCountryProbes ≤ (servers relays country).length) :
    ∃ last, (taken relays country last).length < maxCountryProbes ∧
      maxCountryProbes ≤ (taken relays country (last + 1)).length := by
  by_contra hnone
  have hshort : ∀ n, (taken relays country n).length < maxCountryProbes := by
    intro n
    induction n with
    | zero => exact Nat.succ_pos _
    | succ n ih => exact Nat.lt_of_not_le fun hlong => hnone ⟨n, ih, hlong⟩
  have hall := hshort (inCountry relays country).length
  rw [(taken_all le_rfl).length_eq] at hall
  omega

theorem choose_taken {last : ℕ} (hshort : (taken relays country last).length < maxCountryProbes)
    (hlong : maxCountryProbes ≤ (taken relays country (last + 1)).length) {fuel depth : ℕ} (hdepth : depth ≤ last)
    (hfuel : last < depth + fuel) :
    choose relays country fuel depth (taken relays country depth) =
      some ((taken relays country (last + 1)).take maxCountryProbes) := by
  induction fuel generalizing depth with
  | zero => omega
  | succ fuel ih =>
    have hle : (taken relays country depth).length ≤ (taken relays country last).length :=
      (rounds_isPrefix _ _ hdepth).length_le
    have hnext : choose relays country (fuel + 1) depth (taken relays country depth) =
        choose relays country fuel (depth + 1) (taken relays country (depth + 1)) := by
      rw [choose, if_neg (Nat.not_le.2 (hle.trans_lt hshort))]
      rfl
    rw [hnext]
    rcases hdepth.eq_or_lt with rfl | hlt
    · unfold choose
      rw [if_pos hlong]
    · exact ih hlt (by omega)

/-- Given fuel for the turns, the sample is found: as many servers as there are up to the
limit, each of the country and none twice; where a server is left out, its city has at most
one fewer than any other. -/
theorem countrySample_fair (relays : Entries) (country : List ℕ) : ∃ chosen fuel,
    (∀ more, fuel ≤ more → countrySample relays country more = some (chosen, (servers relays country).length)) ∧
      chosen.length = min (servers relays country).length maxCountryProbes ∧ chosen.Nodup ∧
      (∀ name ∈ chosen, name ∈ servers relays country) ∧
      ∀ name ∈ servers relays country, name ∉ chosen → ∀ city,
        chosen.countP (fun x => decide ((relays.get x).city = city)) ≤
          chosen.countP (fun x => decide ((relays.get x).city = (relays.get name).city)) + 1 := by
  have htotal : ((cityNames relays country).map fun city => (hosts relays country city).length).sum =
      (servers relays country).length := by
    rw [← flatMap_hosts.length_eq, List.length_flatMap]
  by_cases hfew : (servers relays country).length ≤ maxCountryProbes
  · have hall : (sortStrings ((cityNames relays country).flatMap (hosts relays country))).Perm (servers relays country) :=
      (List.mergeSort_perm ..).trans flatMap_hosts
    refine ⟨_, 0, fun _ _ => ?_, ?_, hall.nodup_iff.2 (relays.nodup.filter _), fun _ => hall.mem_iff.1, fun name hname hleft => ?_⟩
    · rw [countrySample, htotal, if_pos hfew]
    · rw [hall.length_eq, min_eq_left hfew]
    · exact absurd (hall.mem_iff.2 hname) hleft
  · have hmany := (Nat.lt_of_not_le hfew).le
    obtain ⟨last, hshort, hlong⟩ := exists_last hmany
    refine ⟨(taken relays country (last + 1)).take maxCountryProbes, last + 1, fun more hmore => ?_, ?_,
      (taken_nodup _).sublist (List.take_sublist ..), fun _ h => taken_mem (List.mem_of_mem_take h), fun name hname hleft => ?_⟩
    · rw [countrySample, htotal, if_neg hfew]
      exact congrArg (Option.map _) (choose_taken hshort hlong (Nat.zero_le _) (by omega))
    · rw [List.length_take, min_eq_left hlong, min_eq_right hmany]
    · exact balanced cityNames_nodup queue_own (fun _ => queue_other) hshort.le (mem_queue hname) hleft

end Molebridge.Panel
