import RecursiveDescent.Power

/-!
# Integers of fixed width

A fixed-width integer is written as a fixed number of bytes, in one of two byte orders.  Signed
integers are written in two's complement: the upper half of the unsigned numbers stands for the
negative ones.
-/

namespace RecursiveDescent

namespace Binary

/-- The order in which the bytes of an integer are written. -/
inductive ByteOrder where
  /-- The most significant byte comes first. -/
  | big
  /-- The least significant byte comes first. -/
  | little
  deriving DecidableEq

instance : Inhabited ByteOrder :=
  ⟨.big⟩

def ByteOrder.name : ByteOrder → String
  | .big => "Big"
  | .little => "Little"

def ByteOrder.ofName? : String → Option ByteOrder
  | "Big" => some .big
  | "Little" => some .little
  | _ => none

/-- A type of integers: how many bytes they take and whether they have a sign. -/
structure FixedInteger where
  width : Nat
  isSigned : Bool
  deriving DecidableEq

/-- The number that bytes denote, most significant byte first. -/
def unsignedOfBytes (bytes : List UInt8) : Nat :=
  bytes.foldl (fun total byte => 256 * total + byte.toNat) 0

namespace FixedInteger

/-- The number of bit patterns of an integer type. -/
def patterns (type : FixedInteger) : Nat :=
  256 ^ type.width

/-- The integer that a bit pattern stands for. -/
def ofPattern (type : FixedInteger) (pattern : Nat) : Int :=
  if type.isSigned ∧ type.patterns ≤ 2 * pattern then
    Int.ofNat pattern - Int.ofNat type.patterns
  else
    Int.ofNat pattern

/-- The integer that bytes denote, if they are as many as its type takes. -/
def decode (type : FixedInteger) (order : ByteOrder) (bytes : List UInt8) : Option Int :=
  if bytes.length = type.width then
    match order with
    | .big => some (type.ofPattern (unsignedOfBytes bytes))
    | .little => some (type.ofPattern (unsignedOfBytes bytes.reverse))
  else
    none

def int16 : FixedInteger :=
  ⟨2, true⟩

def int32 : FixedInteger :=
  ⟨4, true⟩

def int64 : FixedInteger :=
  ⟨8, true⟩

def uint16 : FixedInteger :=
  ⟨2, false⟩

def uint32 : FixedInteger :=
  ⟨4, false⟩

def uint64 : FixedInteger :=
  ⟨8, false⟩

end FixedInteger

end Binary

end RecursiveDescent
