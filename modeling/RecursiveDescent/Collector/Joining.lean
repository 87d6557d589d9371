import RecursiveDescent.Collector

/-!
# Joining displays with separators

A join writes an opening text, the displays of the values with a separator between each two, and
a closing text.  Whether a separator is due is a matter of how many values there were and not of
the text so far, which may well be empty behind some values and non-empty before the first.
-/

namespace RecursiveDescent

/-- The texts around and between the values of a join. -/
structure Joining where
  separator : String
  opening : String := ""
  closing : String := ""
  deriving DecidableEq

/-- A join under way: the text so far, and whether no value has been written yet. -/
structure JoinState where
  text : String := ""
  isEmpty : Bool := true
  deriving DecidableEq

namespace Joining

variable {α : Type}

/-- The join that has written nothing but the opening text. -/
def start (joining : Joining) : JoinState :=
  ⟨joining.opening, true⟩

/-- Writes one more display, behind a separator unless it is the first. -/
def write (joining : Joining) (state : JoinState) (display : String) : JoinState :=
  ⟨(if state.isEmpty then state.text else state.text ++ joining.separator) ++ display, false⟩

def close (joining : Joining) (state : JoinState) : String :=
  state.text ++ joining.closing

/-- Continues a join with some more displays and closes it. -/
def finishFrom (joining : Joining) (state : JoinState) (displays : List String) : String :=
  joining.close (displays.foldl joining.write state)

end Joining

namespace Collector

variable {m : Type → Type} {α : Type}

/-- Joins the displays of all values. -/
def joining [Monad m] (joining : Joining) (display : α → String) : Collector m α String :=
  ofFold joining.start (fun state value => joining.write state (display value)) joining.close

end Collector

end RecursiveDescent
