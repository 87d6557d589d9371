import RecursiveDescent.Value

/-!
# Arithmetic on values

Two integers are calculated with exactly, and their quotient is cut off toward zero.  When one
operand is a float, the other number is converted and the result is a float.  Where an operand is
no number the result is the left operand.
-/

namespace RecursiveDescent

/-- The four basic operations. -/
inductive Operation where
  | add
  | subtract
  | multiply
  | divide
  deriving DecidableEq

namespace Operation

/-- The operation that an operator character stands for; any unknown one divides. -/
def ofOperator : Char → Operation
  | '+' => .add
  | '-' => .subtract
  | '*' => .multiply
  | _ => .divide

/-- The result on integers.  A division by zero has no number as its result. -/
def onIntegers : Operation → Int → Int → Value
  | .add, left, right => .int (left + right)
  | .subtract, left, right => .int (left - right)
  | .multiply, left, right => .int (left * right)
  | .divide, left, right => if right = 0 then .unit else .int (Int.tdiv left right)

def onFloats : Operation → Binary64 → Binary64 → Binary64
  | .add, left, right => left + right
  | .subtract, left, right => left - right
  | .multiply, left, right => left * right
  | .divide, left, right => left / right

def onValues (operation : Operation) : Value → Value → Value
  | .int left, .int right => operation.onIntegers left right
  | .int left, .float right => .float (operation.onFloats (Binary64.ofInt left) right)
  | .float left, .int right => .float (operation.onFloats left (Binary64.ofInt right))
  | .float left, .float right => .float (operation.onFloats left right)
  | left, _ => left

end Operation

end RecursiveDescent
