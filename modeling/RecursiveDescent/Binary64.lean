import RecursiveDescent.Power

/-!
# Binary64 numbers

A binary64 number is the 64-bit word that encodes it: a sign bit, and below it the bits of the
magnitude.  The words tell more numbers apart than comparing does.  Zero comes with both signs, and
so does NaN, and the order of this file puts each of them at a place of its own.

The arithmetic of numbers is the one of `Float`, which knows a single NaN; `calculate` says which
NaN an operation yields.  The main statement is `order_injective`: only equal words are at the same
place.
-/

namespace RecursiveDescent

/-- A binary64 number by its word. -/
structure Binary64 where
  bits : UInt64
  deriving DecidableEq, Inhabited

namespace Binary64

def signBit : UInt64 :=
  0x8000000000000000

def zero : Binary64 :=
  ⟨0⟩

def infinity : Binary64 :=
  ⟨0x7ff0000000000000⟩

/-- The quiet NaN without a sign. -/
def nan : Binary64 :=
  ⟨0x7ff8000000000000⟩

def isNegative (number : Binary64) : Bool :=
  2 ^ 63 ≤ number.bits.toNat

/-- The word without its sign bit. -/
def magnitudeBits (number : Binary64) : Nat :=
  number.bits.toNat % 2 ^ 63

def isFinite (number : Binary64) : Bool :=
  number.magnitudeBits < infinity.bits.toNat

def isInfinite (number : Binary64) : Bool :=
  number.magnitudeBits = infinity.bits.toNat

def isNaN (number : Binary64) : Bool :=
  infinity.bits.toNat < number.magnitudeBits

def ofFloat (float : Float) : Binary64 :=
  ⟨float.toBits⟩

/-- The float of a number; all NaNs have the same one. -/
def toFloat (number : Binary64) : Float :=
  Float.ofBits number.bits

/-- The number nearest to an integer. -/
def ofInt (integer : Int) : Binary64 :=
  ofFloat (Float.ofInt integer)

/-! ### Arithmetic -/

/-- Turns the sign over, also that of zero and of NaN.  Adding the sign bit to a word changes no
other bit, since what is carried leaves the word. -/
def negate (number : Binary64) : Binary64 :=
  ⟨number.bits + signBit⟩

/-- Applies an operation on floats.  An operand that is NaN is the result, the left one if both
are.  Where numbers have no result, as in the quotient of two zeros, it is the NaN with its sign
bit set. -/
def calculate (operation : Float → Float → Float) (left right : Binary64) : Binary64 :=
  if left.isNaN then
    left
  else if right.isNaN then
    right
  else
    let result := operation left.toFloat right.toFloat
    if result.isNaN then nan.negate else ofFloat result

instance : Neg Binary64 := ⟨negate⟩

instance : Add Binary64 := ⟨calculate (· + ·)⟩

instance : Sub Binary64 := ⟨calculate (· - ·)⟩

instance : Mul Binary64 := ⟨calculate (· * ·)⟩

instance : Div Binary64 := ⟨calculate (· / ·)⟩

theorem toNat_bits_negate (number : Binary64) :
    number.negate.bits.toNat = (number.bits.toNat + 2 ^ 63) % 2 ^ 64 := by
  simp [negate, signBit]

@[simp] theorem magnitudeBits_negate (number : Binary64) :
    number.negate.magnitudeBits = number.magnitudeBits := by
  rw [magnitudeBits, magnitudeBits, toNat_bits_negate]
  omega

/-- The sign and the bits below it determine the word. -/
theorem eq_of_isNegative_of_magnitudeBits {left right : Binary64}
    (sign : left.isNegative = right.isNegative)
    (magnitude : left.magnitudeBits = right.magnitudeBits) : left = right := by
  cases left with
  | mk bits =>
    cases right with
    | mk others =>
      have inside := bits.toNat_lt
      have othersInside := others.toNat_lt
      rw [isNegative, isNegative, decide_eq_decide] at sign
      rw [magnitudeBits, magnitudeBits] at magnitude
      rw [mk.injEq]
      apply UInt64.toNat.inj
      dsimp only at sign magnitude
      omega

/-! ### Order -/

/-- The place of a number in the total order: the magnitude bits, and below zero, counted
backwards, those of a number with its sign bit set.  So `-0` comes just before `+0`, and the NaNs
lie outside the infinities of their sign. -/
def order (number : Binary64) : Int :=
  if number.isNegative then
    Int.negSucc number.magnitudeBits
  else
    Int.ofNat number.magnitudeBits

instance : Ord Binary64 :=
  ⟨fun left right => Ord.compare left.order right.order⟩

theorem order_injective {left right : Binary64} (same : left.order = right.order) :
    left = right := by
  unfold order at same
  cases leftSign : left.isNegative <;> cases rightSign : right.isNegative <;>
    simp [leftSign, rightSign] at same
  · exact eq_of_isNegative_of_magnitudeBits (leftSign.trans rightSign.symm) (by omega)
  · exact eq_of_isNegative_of_magnitudeBits (leftSign.trans rightSign.symm) same

end Binary64

end RecursiveDescent
