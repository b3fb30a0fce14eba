import Molebridge.Spec.RelayCatalog
import Mathlib.Data.List.Dedup

/-! internal/panel/latency.go: the servers of a country that are timed. -/

namespace Molebridge.Panel

open Providers (Relay)

/-- providers.Entries: the names in the order of their insertion, and the relay of each. -/
structure Entries where
  order : List (List ℕ)
  index : List ℕ → Option Relay
  nodup : order.Nodup
  known : ∀ name ∈ order, (index name).isSome

def maxCountryProbes : ℕ := 128

variable (relays : Entries) (country : List ℕ)

def Entries.get (name : List ℕ) : Relay := (relays.index name).getD {}

def sortStrings (names : List (List ℕ)) : List (List ℕ) := names.mergeSort fun a b => decide (a ≤ b)

def sortedNames : List (List ℕ) := sortStrings relays.order

/-- The names the loop over all of them appends to one of `cities`. -/
def inCountry : List (List ℕ) := (sortedNames relays).filter fun name => decide ((relays.get name).country = country)

/-- `cities[city]`. -/
def hosts (city : List ℕ) : List (List ℕ) :=
  (inCountry relays country).filter fun name => decide ((relays.get name).city = city)

def cityNames : List (List ℕ) :=
  sortStrings ((inCountry relays country).map fun name => (relays.get name).city).dedup

def load (name : List ℕ) : ℤ := (relays.get name).load.getD 101

def less (a b : List ℕ) : Bool := if load relays a ≠ load relays b then load relays a < load relays b else a < b

def queue (city : List ℕ) : List (List ℕ) := (hosts relays country city).mergeSort fun a b => !less relays b a

/-- One turn of the loop: the server each city has at a depth. -/
def turn (depth : ℕ) : List (List ℕ) := (cityNames relays country).filterMap fun city => (queue relays country city)[depth]?

/-- The loop over the depths, out of fuel where it would still run. -/
def choose : ℕ → ℕ → List (List ℕ) → Option (List (List ℕ))
  | fuel, depth, chosen =>
    if maxCountryProbes ≤ chosen.length then some (chosen.take maxCountryProbes)
    else
      match fuel with
      | 0 => none
      | fuel + 1 => choose fuel (depth + 1) (chosen ++ turn relays country depth)

def countrySample (fuel : ℕ) : Option (List (List ℕ) × ℕ) :=
  let total := ((cityNames relays country).map fun city => (hosts relays country city).length).sum
  if total ≤ maxCountryProbes then
    some (sortStrings ((cityNames relays country).flatMap (hosts relays country)), total)
  else (choose relays country fuel 0 []).map (·, total)

end Molebridge.Panel
