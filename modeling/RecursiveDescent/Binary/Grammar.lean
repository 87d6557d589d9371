import RecursiveDescent.Binary.FixedInteger
import RecursiveDescent.Grammar
import RecursiveDescent.Value

/-!
# Grammars of binary data

The basic grammars over bytes: single bytes, fixed sequences of bytes, and integers of fixed
width.
-/

namespace RecursiveDescent

namespace Binary

abbrev BinaryGrammar : Type 1 :=
  Grammar UInt8 Value

def valueOfByte (byte : UInt8) : Value :=
  Value.ofNat byte.toNat

/-- A byte of a class. -/
def byteOf (isMember : UInt8 → Bool) : BinaryGrammar :=
  .element isMember valueOfByte

def anyByte : BinaryGrammar :=
  byteOf fun _ => true

def byte (expected : UInt8) : BinaryGrammar :=
  byteOf fun found => found = expected

/-- The given bytes, one behind the other. -/
def literal (expected : List UInt8) : BinaryGrammar :=
  .literal expected (.list (expected.map valueOfByte))

/-- An integer of fixed width with a value that is accepted. -/
def integerWhere (type : FixedInteger) (order : ByteOrder) (accepts : Value → Bool) :
    BinaryGrammar :=
  .fixedWidth type.width fun bytes =>
    ((type.decode order bytes).map Value.int).filter accepts

def integer (type : FixedInteger) (order : ByteOrder) : BinaryGrammar :=
  integerWhere type order fun _ => true

/-- The byte that is the outcome's value, matched once more.  After any other value, and after a
failure, nothing matches. -/
def echo : Outcome Value → BinaryGrammar
  | .success _ (.int number) =>
    if 0 ≤ number ∧ number < 256 then byte (UInt8.ofNat number.toNat) else .fail
  | _ => .fail

end Binary

end RecursiveDescent
