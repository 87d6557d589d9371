import RecursiveDescent.Power

/-!
# Interchange data

The tree-shaped data in which bounds, statistics and outcomes are stored and exchanged, and the
readers of its leaves and nodes.
-/

namespace RecursiveDescent

/-- A tree of lists and objects with simple data at its leaves. -/
inductive Datum where
  | null
  | truth (holds : Bool)
  | integer (number : Int)
  /-- A number written with a point or an exponent: `mantissa * 10 ^ -places`. -/
  | decimal (mantissa : Int) (places : Nat)
  | text (content : String)
  | list (items : List Datum)
  | object (fields : List (String × Datum))
  deriving Inhabited

namespace Datum

def ofNat (number : Nat) : Datum :=
  .integer (Int.ofNat number)

def word? : Datum → Option Nat
  | .integer number => if 0 ≤ number ∧ number < 2 ^ 64 then some number.toNat else none
  | _ => none

def signedWord? : Datum → Option Int
  | .integer number => if -(2 : Int) ^ 63 ≤ number ∧ number < 2 ^ 63 then some number else none
  | _ => none

def text? : Datum → Option String
  | .text content => some content
  | _ => none

/-- Reads something that may also be absent or null. -/
def optional? {α : Type} (read : Datum → Option α) : Option Datum → Option (Option α)
  | none => some none
  | some .null => some none
  | some datum => (read datum).map some

/-- The fields of a record with the given names: those of an object by name, where unknown fields
are ignored, or the items of a list of exactly as many items. -/
def fields? (names : List String) : Datum → Option (List (Option Datum))
  | .object fields => some (names.map fun name => fields.lookup name)
  | .list items => if items.length = names.length then some (items.map some) else none
  | _ => none

/-- The fields of a record that has to be an object. -/
def objectFields? (names : List String) : Datum → Option (List (Option Datum))
  | .object fields => some (names.map fun name => fields.lookup name)
  | _ => none

/-- The name of a variant and what it holds: a text is a variant that holds nothing, and an object
with one field is a variant that holds the field's content. -/
def variant? : Datum → Option (String × Datum)
  | .text name => some (name, .null)
  | .object [field] => some field
  | _ => none

end Datum

end RecursiveDescent
