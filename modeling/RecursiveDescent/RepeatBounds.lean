import RecursiveDescent.MisuseError
import RecursiveDescent.Power

/-!
# Bounds of a repetition

How often a repetition has to match at least and may match at most.  A value of `RepeatBounds`
can always be satisfied: the inequality between the two numbers is part of the type.  Callers
state bounds as a `RepeatBounds.Request`, with unsigned numbers or with signed ones of which a
maximum of `-1` means "unbounded", and `Request.bounds` either accepts the request or reports
the numbers that contradict each other.
-/

namespace RecursiveDescent

/-- The numbers of matches that a repetition accepts; no maximum means that any number above the
minimum will do. -/
structure RepeatBounds where
  minimum : Nat
  maximum : Option Nat
  minimum_le : ∀ limit, maximum = some limit → minimum ≤ limit
  deriving DecidableEq

namespace RepeatBounds

def atLeast (minimum : Nat) : RepeatBounds :=
  ⟨minimum, none, by simp⟩

def exactly (count : Nat) : RepeatBounds :=
  ⟨count, some count, by simp⟩

def zeroOrMore : RepeatBounds :=
  atLeast 0

def oneOrMore : RepeatBounds :=
  atLeast 1

/-- Whether another match may be attempted after `count` matches. -/
def allowsMore (bounds : RepeatBounds) (count : Nat) : Bool :=
  match bounds.maximum with
  | some limit => count < limit
  | none => true

/-- The largest number that an error about unsigned bounds can report. -/
def reportLimit : Nat :=
  2 ^ 63 - 1

/-- An unsigned number as an error reports it: numbers above `reportLimit` appear as the limit. -/
def reported (count : Nat) : Int :=
  Int.ofNat (min count reportLimit)

/-- Bounds from unsigned numbers, refused when the minimum exceeds the maximum. -/
def ofUnsigned (minimum : Nat) : Option Nat → Except MisuseError RepeatBounds
  | none => .ok (atLeast minimum)
  | some limit =>
    if order : minimum ≤ limit then
      .ok ⟨minimum, some limit, fun _ same => Option.some.inj same ▸ order⟩
    else
      .error (.invalidRepeatBounds (reported minimum) (reported limit))

/-- Bounds from signed numbers, where a maximum of `-1` stands for no maximum.  A negative
minimum, a maximum below `-1` and a minimum above the maximum are refused, and the error reports
both numbers as they were given. -/
def ofSigned (minimum maximum : Int) : Except MisuseError RepeatBounds :=
  if minimum < 0 then
    .error (.invalidRepeatBounds minimum maximum)
  else if maximum = -1 then
    .ok (atLeast minimum.toNat)
  else if maximum < -1 then
    .error (.invalidRepeatBounds minimum maximum)
  else
    (ofUnsigned minimum.toNat (some maximum.toNat)).mapError fun _ =>
      .invalidRepeatBounds minimum maximum

/-- The ways in which a caller can state the bounds of a repetition. -/
inductive Request where
  /-- Unsigned numbers, possibly without a maximum. -/
  | unsigned (minimum : Nat) (maximum : Option Nat)
  /-- Signed numbers, with `-1` for "no maximum". -/
  | signed (minimum maximum : Int)
  /-- Only a minimum. -/
  | atLeast (minimum : Nat)
  /-- One number for both. -/
  | exactly (count : Nat)

/-- The bounds that a request describes, or what is wrong with it. -/
def Request.bounds : Request → Except MisuseError RepeatBounds
  | .unsigned minimum maximum => ofUnsigned minimum maximum
  | .signed minimum maximum => ofSigned minimum maximum
  | .atLeast minimum => .ok (RepeatBounds.atLeast minimum)
  | .exactly count => .ok (RepeatBounds.exactly count)

end RepeatBounds

end RecursiveDescent
