import RecursiveDescent.Binary.FixedInteger
import RecursiveDescent.Interchange.Datum
import RecursiveDescent.Outcome
import RecursiveDescent.RepeatBounds
import RecursiveDescent.Statistics

/-!
# Stored records

How bounds, statistics, byte orders and outcomes are written as interchange data and read again.
Reading bounds goes through the same check as stating them, so no stored record can smuggle in
bounds that contradict each other.
-/

namespace RecursiveDescent

/-- Why a datum cannot be read as a record. -/
inductive RecordError where
  /-- The datum does not have the shape of the record. -/
  | shape
  /-- The datum has the right shape, but its content is refused. -/
  | misuse (error : MisuseError)

namespace RepeatBounds

def toDatum (bounds : RepeatBounds) : Datum :=
  let maximum :=
    match bounds.maximum with
    | some limit => Datum.ofNat limit
    | none => Datum.null
  .object [("min", Datum.ofNat bounds.minimum), ("max", maximum)]

/-- The two numbers of a record of bounds; a maximum that is missing or null is none. -/
def numbers? (datum : Datum) : Option (Nat × Option Nat) :=
  match datum.fields? ["min", "max"] with
  | some [some minimum, maximum] => do
    let minimum ← minimum.word?
    let maximum ← Datum.optional? Datum.word? maximum
    return (minimum, maximum)
  | _ => none

def ofDatum (datum : Datum) : Except RecordError RepeatBounds :=
  match numbers? datum with
  | some (minimum, maximum) => (ofUnsigned minimum maximum).mapError RecordError.misuse
  | none => .error .shape

end RepeatBounds

namespace Statistics

def toDatum (statistics : Statistics) : Datum :=
  .object [("hits", Datum.ofNat statistics.hits.toNat),
    ("misses", Datum.ofNat statistics.misses.toNat),
    ("entries", Datum.ofNat statistics.entries.toNat)]

def ofDatum? (datum : Datum) : Option Statistics :=
  match datum.fields? ["hits", "misses", "entries"] with
  | some [some hits, some misses, some entries] => do
    let hits ← hits.word?
    let misses ← misses.word?
    let entries ← entries.word?
    return ⟨hits.toUInt64, misses.toUInt64, entries.toUInt64⟩
  | _ => none

end Statistics

namespace Binary.ByteOrder

/-- A byte order as the variant of its name. -/
def toDatum (order : ByteOrder) : Datum :=
  .text order.name

/-- Reads a byte order. -/
def ofDatum? (datum : Datum) : Option ByteOrder :=
  match datum.variant? with
  | some (name, .null) => ofName? name
  | _ => none

end Binary.ByteOrder

namespace Outcome

variable {α : Type}

/-- An outcome as a variant, with the fields of a success as an object. -/
def toDatum (write : α → Datum) : Outcome α → Datum
  | .success consumed value =>
    .object [("Success", .object [("consumed", Datum.ofNat consumed), ("value", write value)])]
  | .failure => .text "Failure"

/-- Reads an outcome. -/
def ofDatum? (read : Datum → Option α) (datum : Datum) : Option (Outcome α) :=
  match datum.variant? with
  | some ("Failure", .null) => some .failure
  | some ("Success", content) =>
    match content.objectFields? ["consumed", "value"] with
    | some [some consumed, some value] => do
      let consumed ← consumed.word?
      let value ← read value
      return .success consumed value
    | _ => none
  | _ => none

end Outcome

end RecursiveDescent
