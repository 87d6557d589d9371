import RecursiveDescent.Power

/-!
# Windows into a source

A source is an array of elements and positions count elements.  Literals and fixed-width fields
look at a *window*: a run of elements of known width that starts at a known position.  A window
exists only when all of it lies inside the source, so there is none that starts past the end, not
even one of width zero.

`remaining` is the view of a source from a position that the laws of this library speak about.
The main statement, `window_eq_some_iff`, says that a window is a beginning of what remains.
-/

namespace RecursiveDescent

variable {ε : Type}

/-- The last position that can be named.  Positions are 64-bit words. -/
def lastPosition : Nat :=
  2 ^ 64 - 1

/-- The elements of a source from a position on; none from its end on. -/
def remaining (source : Array ε) (start : Nat) : List ε :=
  source.toList.drop start

/-- The `width` elements of `source` from position `start` on.  The position behind the window is
capped at `lastPosition`; a window that this cuts short would be too long for any source. -/
def window (source : Array ε) (start width : Nat) : Option (List ε) :=
  let stop := min (start + width) lastPosition
  if start ≤ stop ∧ stop ≤ source.size then
    some (source.extract start stop).toList
  else
    none

@[simp] theorem length_remaining (source : Array ε) (start : Nat) :
    (remaining source start).length = source.size - start := by
  simp [remaining]

@[simp] theorem remaining_zero (source : Array ε) : remaining source 0 = source.toList := rfl

theorem drop_remaining (source : Array ε) (start count : Nat) :
    (remaining source start).drop count = remaining source (start + count) := by
  simp [remaining, List.drop_drop]

theorem remaining_eq_nil_iff (source : Array ε) (start : Nat) :
    remaining source start = [] ↔ source.size ≤ start := by
  simp [remaining]

theorem getElem?_eq_head?_remaining (source : Array ε) (start : Nat) :
    source[start]? = (remaining source start).head? := by
  simp [remaining, List.head?_drop]

/-- In a source that ends before the last position, a window is there exactly when enough elements
remain, and then it consists of the first of them. -/
theorem window_eq (source : Array ε) (spanned : source.size < lastPosition) (start width : Nat) :
    window source start width =
      if start + width ≤ source.size then
        some ((remaining source start).take width)
      else
        none := by
  unfold window remaining
  by_cases inside : start + width ≤ source.size
  · have capped : min (start + width) lastPosition = start + width := by omega
    simp [capped, inside]
  · have outside : ¬ min (start + width) lastPosition ≤ source.size ∨
        ¬ start ≤ min (start + width) lastPosition := by omega
    rcases outside with outside | outside <;> simp [outside, inside]

theorem window_eq_some_iff (source : Array ε) (spanned : source.size < lastPosition)
    (start width : Nat) (elements : List ε) :
    window source start width = some elements ↔
      start ≤ source.size ∧ elements.length = width ∧ elements <+: remaining source start := by
  rw [window_eq source spanned]
  constructor
  · intro found
    split at found
    · cases found
      refine ⟨by omega, ?_, List.take_prefix _ _⟩
      simp
      omega
    · cases found
  · rintro ⟨inside, rfl, beginning⟩
    have enough := beginning.length_le
    rw [length_remaining] at enough
    rw [if_pos (by omega), ← List.prefix_iff_eq_take.mp beginning]

end RecursiveDescent
