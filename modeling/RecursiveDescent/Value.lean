import RecursiveDescent.Binary64

/-!
# Values

The values that parsers yield.  Sets and maps are lists in strictly ascending order, so a value
has one representation.

`Value.compare` orders all values: first by kind, in the order of the constructors, and then by
content.  Numbers are compared numerically, texts by code point, sequences lexicographically, and
floats in their total order, which tells the two zeros apart and both signs of NaN.
-/

namespace RecursiveDescent

/-- A value of a kind that is known only when the parser runs. -/
inductive Value where
  | unit
  | bool (truth : Bool)
  | int (number : Int)
  | float (number : Binary64)
  | char (character : Char)
  | string (text : String)
  | list (items : List Value)
  | pair (first second : Value)
  | none
  | some (content : Value)
  | set (members : List Value)
  | map (entries : List (Value × Value))
  deriving Inhabited

namespace Value

/-- The place of a value's kind in the order of kinds. -/
def rank : Value → Nat
  | .unit => 0
  | .bool _ => 1
  | .int _ => 2
  | .float _ => 3
  | .char _ => 4
  | .string _ => 5
  | .list _ => 6
  | .pair _ _ => 7
  | .none => 8
  | .some _ => 9
  | .set _ => 10
  | .map _ => 11

mutual

/-- The total order of values. -/
protected def compare (left right : Value) : Ordering :=
  match left, right with
  | .bool truth, .bool other => Ord.compare truth other
  | .int number, .int other => Ord.compare number other
  | .float number, .float other => Ord.compare number other
  | .char character, .char other => Ord.compare character other
  | .string text, .string other => Ord.compare text other
  | .list items, .list others => compareLists items others
  | .pair first second, .pair otherFirst otherSecond =>
    (Value.compare first otherFirst).then (Value.compare second otherSecond)
  | .some content, .some other => Value.compare content other
  | .set members, .set others => compareLists members others
  | .map entries, .map others => compareEntries entries others
  | _, _ => Ord.compare left.rank right.rank
termination_by structural left

/-- The lexicographic order of lists of values. -/
def compareLists (left right : List Value) : Ordering :=
  match left, right with
  | [], [] => .eq
  | [], _ :: _ => .lt
  | _ :: _, [] => .gt
  | item :: items, other :: others =>
    (Value.compare item other).then (compareLists items others)
termination_by structural left

def compareEntries (left right : List (Value × Value)) : Ordering :=
  match left, right with
  | [], [] => .eq
  | [], _ :: _ => .lt
  | _ :: _, [] => .gt
  | entry :: entries, other :: others =>
    (compareEntry entry other).then (compareEntries entries others)
termination_by structural left

/-- The order of map entries: by key, then by value. -/
def compareEntry (left right : Value × Value) : Ordering :=
  match left, right with
  | (key, value), (otherKey, otherValue) =>
    (Value.compare key otherKey).then (Value.compare value otherValue)
termination_by structural left

end

instance : Ord Value :=
  ⟨Value.compare⟩

/-- Whether two values are equal, which is when neither is above the other. -/
def same (left right : Value) : Bool :=
  left.compare right = .eq

def ofCharacters (characters : List Char) : Value :=
  .string (String.ofList characters)

def ofNat (number : Nat) : Value :=
  .int (Int.ofNat number)

def ofOption : Option Value → Value
  | Option.some content => .some content
  | Option.none => .none

end Value

end RecursiveDescent
