import RecursiveDescent.Decimal.Reading
import RecursiveDescent.Grammar
import RecursiveDescent.Text.Alphabetic
import RecursiveDescent.Text.Whitespace
import RecursiveDescent.Value.Collecting
import RecursiveDescent.Value.Function

/-!
# Grammars of texts

The basic grammars over characters: single characters of a class, literals, and numbers.  A
source is a sequence of characters, so widths count characters.
-/

namespace RecursiveDescent

namespace Text

abbrev TextGrammar : Type 1 :=
  Grammar Char Value

/-! ### Single characters -/

def characterOf (isMember : Char → Bool) : TextGrammar :=
  .element isMember Value.char

def character (expected : Char) : TextGrammar :=
  characterOf fun found => found = expected

def anyCharacter : TextGrammar :=
  characterOf fun _ => true

def oneOf (characters : String) : TextGrammar :=
  characterOf fun found => characters.toList.contains found

/-- A character that does not occur in a string. -/
def noneOf (characters : String) : TextGrammar :=
  characterOf fun found => !characters.toList.contains found

def digit : TextGrammar :=
  characterOf Decimal.isDigit

def letter : TextGrammar :=
  characterOf isAlphabetic

def whitespace : TextGrammar :=
  characterOf isWhitespace

/-- Any amount of white space; yields how many characters there were. -/
def spaces : TextGrammar :=
  .repeated whitespace Value.counting .zeroOrMore

/-! ### Literals and recognized text -/

/-- The characters of a string, one behind the other. -/
def literal (expected : String) : TextGrammar :=
  .literal expected.toList (.string expected)

/-- A match that yields the consumed text. -/
def recognized (inner : TextGrammar) : TextGrammar :=
  .recognize inner Value.ofCharacters

/-- The text of the outcome's value, matched once more: a character or a literal.  After any other
value, and after a failure, nothing matches. -/
def echo : Outcome Value → TextGrammar
  | .success _ (.char found) => character found
  | .success _ (.string text) => literal text
  | _ => .fail

/-! ### Numbers -/

/-- One digit or more. -/
def digits : TextGrammar :=
  .repeated digit Value.discarding .oneOrMore

def sign : TextGrammar :=
  .optional (.map (oneOf "+-") fun _ => .unit) .unit

/-- The numbers below this one fit into a 64-bit word. -/
def wordSize : Nat :=
  2 ^ 64

/-- Appends a digit to the number read so far, as long as it fits into a 64-bit word. -/
def appendDigit (total : Option Nat) : Value → Option Nat
  | .char found =>
    if Decimal.isDigit found then
      (total.map fun number => 10 * number + Decimal.digitValue found).filter (· < wordSize)
    else
      none
  | _ => none

/-- Reads digits as a number that has to fit into a 64-bit word. -/
def collectingWord {m : Type → Type} [Monad m] : Collector m Value Value :=
  Collector.ofFold (some 0) appendDigit fun total => Value.ofOption (total.map Value.ofNat)

/-- Digits that denote an unsigned 64-bit number.  All digits there are belong to the number, and
the match fails when it is too large. -/
def unsignedInteger : TextGrammar :=
  .tryMap (.repeated digit collectingWord .oneOrMore) Value.content?

/-- The signed 64-bit number that a text of a sign and digits denotes. -/
def signedWord? : Value → Option Value
  | .string text =>
    let number := Decimal.signedNumeral text.toList
    if -(2 : Int) ^ 63 ≤ number ∧ number < 2 ^ 63 then some (.int number) else none
  | _ => none

/-- An optional sign and digits that denote a signed 64-bit number.  All digits there are belong
to the number, and the match fails when it is out of range. -/
def signedInteger : TextGrammar :=
  .tryMap (recognized (.sequence sign digits .pair)) signedWord?

/-- A point with digits behind it, or nothing. -/
def fraction : TextGrammar :=
  .optional (.map (.sequence (character '.') digits .pair) fun _ => .unit) .unit

/-- An exponent mark with an optional sign and digits behind it, or nothing. -/
def exponent : TextGrammar :=
  .optional
    (.map (.sequence (.sequence (oneOf "eE") sign .pair) digits .pair) fun _ => .unit) .unit

/-- The text of a decimal literal: an optional sign, digits, and optionally a fraction and an
exponent. -/
def decimalText : TextGrammar :=
  recognized (.sequence (.sequence (.sequence sign digits .pair) fraction .pair) exponent .pair)

/-- The number that the text of a decimal literal denotes. -/
def decimalValue? : Value → Option Value
  | .string text => some (.float (Decimal.value text.toList))
  | _ => none

def isFiniteFloat : Value → Bool
  | .float number => number.isFinite
  | _ => false

/-- A decimal literal with a finite value. -/
def decimal : TextGrammar :=
  .filter (.tryMap decimalText decimalValue?) isFiniteFloat

end Text

end RecursiveDescent
