import Mathlib.Algebra.Ring.Int.Defs
import Mathlib.Data.String.Basic
import Pocs.Lib.SortedMap

/-! # JSON values

`Json` is what a text says, with the members of an object in the order of the text. A `Value` is in
memory, where an object is a map: `Json.normal` reads a text into one, and the last of two members with one
key stands. -/

namespace Pocs

/-- An integer that fits 64 bits, signed or not, or the pattern of a float. -/
inductive Json.Number where
  | int (n : Int) (range : -2 ^ 63 ≤ n ∧ n < 2 ^ 64)
  | float (bits : UInt64)

inductive Json where
  | null
  | bool (b : Bool)
  | number (n : Json.Number)
  | string (s : String)
  | array (items : List Json)
  | object (members : List (String × Json))

namespace Json

def asStr : Json → Option String
  | string s => some s
  | _ => none

/-- The keys of every object increase. -/
inductive Ordered : Json → Prop where
  | null : Ordered .null
  | bool {b} : Ordered (.bool b)
  | number {n} : Ordered (.number n)
  | string {s} : Ordered (.string s)
  | array {items} (each : ∀ j ∈ items, Ordered j) : Ordered (.array items)
  | object {members} (sorted : (members.map Prod.fst).Pairwise (· < ·))
    (each : ∀ e ∈ members, Ordered e.2) : Ordered (.object members)

end Json

/-- A document whose objects have their keys in order. -/
structure Value where
  json : Json
  ordered : json.Ordered

namespace Value

def isObject (v : Value) : Bool :=
  match v.json with
  | .object _ => true
  | _ => false

def get (v : Value) (key : String) : Option Json :=
  match v.json with
  | .object members => members.lookup key
  | _ => none

end Value

end Pocs
