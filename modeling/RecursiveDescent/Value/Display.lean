import RecursiveDescent.Decimal.Shortest
import RecursiveDescent.Value

/-!
# Values as text

Truth values, numbers, characters and strings are displayed as themselves.  A value of any other
kind is displayed as the name of its kind in angle brackets.
-/

namespace RecursiveDescent

namespace Value

def display : Value → String
  | .unit => "<unit>"
  | .bool truth => if truth then "true" else "false"
  | .int number => toString number
  | .float number => Decimal.shortestText number
  | .char character => character.toString
  | .string text => text
  | .list _ => "<list>"
  | .pair _ _ => "<pair>"
  | .none => "<none>"
  | .some _ => "<some>"
  | .set _ => "<set>"
  | .map _ => "<map>"

end Value

end RecursiveDescent
