import Mathlib.Tactic

/-! Decoded JSON values, as internal/validate hands them out: integers (beyond
int64 too), floats by their bits, and objects, whose members are a map. Of several
members with one name the first is the object's; decoded objects have none. -/

namespace Molebridge

inductive Json where
  | null
  | bool (b : Bool)
  | int (n : ℤ)
  | float (bits : BitVec 64)
  | str (s : String)
  | arr (items : List Json)
  | obj (members : List (String × Json))

abbrev Members := List (String × Json)

namespace Members

def get (o : Members) (key : String) : Json := (o.lookup key).getD .null

def has (o : Members) (key : String) : Bool := (o.lookup key).isSome

def keys (o : Members) : List String := (o.map Prod.fst).dedup

/-- Sets a member, in the place of the one there is. -/
def set (o : Members) (key : String) (value : Json) : Members :=
  (key, value) :: o.filter (·.1 != key)

end Members

namespace Json

/-- verdict.object -/
def object : Json → Option Members
  | obj members => some members
  | _ => none

def string : Json → Option String
  | str s => some s
  | _ => none

def isNull : Json → Bool
  | null => true
  | _ => false

/-- Go's comparison of a decoded value with a string. -/
def isStr (v : Json) (s : String) : Bool := v.string == some s

/-- IsInt: an integer that fits int64. -/
def isInt : Json → Option ℤ
  | int n => if -(2 ^ 63) ≤ n ∧ n < 2 ^ 63 then some n else none
  | _ => none

/-- Float comparison: the zeros are equal, and what is not a number is nothing's equal. -/
def floatEq (a b : BitVec 64) : Bool :=
  let magnitude (x : BitVec 64) := x &&& 0x7fffffffffffffff
  (a == b && magnitude a ≤ 0x7ff0000000000000) || (magnitude a == 0 && magnitude b == 0)

mutual

/-- verdict.same: reflect.DeepEqual. -/
def same : Json → Json → Bool
  | null, null => true
  | bool a, bool b => a == b
  | int a, int b => a == b
  | float a, float b => floatEq a b
  | str a, str b => a == b
  | arr a, arr b => sameItems a b
  | obj a, obj b => sameMembers [] a b && b.all fun m => a.any fun n => n.1 == m.1
  | _, _ => false

def sameItems : List Json → List Json → Bool
  | [], [] => true
  | a :: as, b :: bs => same a b && sameItems as bs
  | _, _ => false

/-- Every member of the first object that is not one of `seen` is in the second. -/
def sameMembers (seen : List String) : List (String × Json) → List (String × Json) → Bool
  | [], _ => true
  | (key, a) :: rest, others =>
    (seen.contains key || match others.lookup key with
      | some b => same a b
      | none => false) && sameMembers (key :: seen) rest others

end

end Json

/-! ### What reading gives -/

@[simp] theorem Json.string_str (s : String) : (Json.str s).string = some s := rfl

@[simp] theorem Json.isStr_str (s t : String) : (Json.str s).isStr t = (s == t) := rfl

@[simp] theorem Json.object_obj (m : Members) : (Json.obj m).object = some m := rfl

namespace Members

@[simp] theorem get_nil (key : String) : get [] key = .null := rfl

@[simp] theorem get_cons (o : Members) (k key : String) (v : Json) :
    get ((k, v) :: o) key = if key = k then v else get o key := by
  unfold get
  rw [List.lookup_cons]
  by_cases h : key = k
  · simp [h]
  · have hne : (key == k) = false := by simpa using h
    simp [h, hne]

@[simp] theorem get_set (o : Members) (key : String) (value : Json) : (o.set key value).get key = value := by
  simp [get, set]

end Members

end Molebridge
