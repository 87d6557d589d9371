import RecursiveDescent.Decimal.Reading
import RecursiveDescent.Value.Arithmetic
import RecursiveDescent.Value.Display

/-!
# Functions on values

The functions, tests, combinations and orders that grammars apply to the values of their parsers.
A function meant for some kinds of values leaves the others unchanged, and a partial function has
no result on them.
-/

namespace RecursiveDescent

namespace Value

/-! ### Total functions -/

/-- The size of a list, a set, a map or a string. -/
def size : Value → Value
  | .list items => ofNat items.length
  | .set members => ofNat members.length
  | .map entries => ofNat entries.length
  | .string text => ofNat text.length
  | other => other

/-- The number that a decimal digit character stands for. -/
def digitNumber : Value → Value
  | .char character =>
    if Decimal.isDigit character then ofNat (Decimal.digitValue character) else .char character
  | other => other

def negate : Value → Value
  | .int number => .int (-number)
  | .float number => .float (-number)
  | other => other

def firstComponent : Value → Value
  | .pair first _ => first
  | other => other

def secondComponent : Value → Value
  | .pair _ second => second
  | other => other

def swap : Value → Value
  | .pair first second => .pair second first
  | other => other

def sum : Value → Value
  | .list items => items.foldl Operation.add.onValues (.int 0)
  | other => other

/-- The greater component of a pair, and the second one if they are equal. -/
def greaterComponent : Value → Value
  | .pair first second => if first.compare second = .gt then first else second
  | other => other

/-! ### Partial functions -/

/-- The number that a character stands for as a digit in a base of at most 36; letters continue
where the decimal digits end, in either case. -/
def digitInBase? (base : Nat) (character : Char) : Option Nat :=
  let digit? :=
    if Decimal.isDigit character then
      Option.some (Decimal.digitValue character)
    else if 'a' ≤ character ∧ character ≤ 'z' then
      Option.some (character.toNat - 'a'.toNat + 10)
    else if 'A' ≤ character ∧ character ≤ 'Z' then
      Option.some (character.toNat - 'A'.toNat + 10)
    else
      Option.none
  digit?.filter (· < base)

/-- The number that a digit character stands for in a base. -/
def digit? (base : Nat) : Value → Option Value
  | .char character => (digitInBase? base character).map ofNat
  | _ => Option.none

def odd? : Value → Option Value
  | .int number => if number % 2 = 1 then Option.some (.int number) else Option.none
  | _ => Option.none

/-- A list, string, set or map that has elements. -/
def nonempty? : Value → Option Value
  | .list items => if items.isEmpty then Option.none else Option.some (.list items)
  | .string text => if text.isEmpty then Option.none else Option.some (.string text)
  | .set members => if members.isEmpty then Option.none else Option.some (.set members)
  | .map entries => if entries.isEmpty then Option.none else Option.some (.map entries)
  | _ => Option.none

def content? : Value → Option Value
  | .some content => Option.some content
  | _ => Option.none

/-- The difference of an integer and a number that it is not below. -/
def difference? (subtrahend : Int) : Value → Option Value
  | .int number =>
    if subtrahend ≤ number then Option.some (.int (number - subtrahend)) else Option.none
  | _ => Option.none

/-! ### Combinations of two values -/

def concat (left right : Value) : Value :=
  .string (left.display ++ right.display)

/-- The second value with its sign turned, if the first one is a minus. -/
def applySign (sign value : Value) : Value :=
  match sign with
  | .char '-' => Operation.multiply.onValues value (.int (-1))
  | _ => value

/-- Applies to a value what a pair of an operator character and an operand says. -/
def applyStep (left step : Value) : Value :=
  match step with
  | .pair (.char operator) right => (Operation.ofOperator operator).onValues left right
  | _ => left

/-- A list with one more item at its end. -/
def append (left right : Value) : Value :=
  match left with
  | .list items => .list (items ++ [right])
  | other => other

/-- The greater of two values, and the second one if they are equal. -/
def greater (left right : Value) : Value :=
  if left.compare right = .gt then left else right

/-! ### Tests -/

/-- Whether a value lies between two others or is one of them. -/
def isWithin (low high value : Value) : Bool :=
  low.compare value != .gt && value.compare high != .gt

def isAmong (others : List Value) (value : Value) : Bool :=
  others.any value.same

def isEven : Value → Bool
  | .int number => number % 2 = 0
  | _ => false

/-- Whether a value is an upper case ASCII letter. -/
def isUpper : Value → Bool
  | .char character => 'A' ≤ character ∧ character ≤ 'Z'
  | _ => false

/-! ### Orders -/

/-- Orders values by something else about them. -/
def compareOn {β : Type} [Ord β] (key : Value → β) (left right : Value) : Ordering :=
  Ord.compare (key left) (key right)

def displayLength (value : Value) : Nat :=
  value.display.length

def absolute : Value → Value
  | .int number => .int (Int.ofNat number.natAbs)
  | other => other

end Value

end RecursiveDescent
