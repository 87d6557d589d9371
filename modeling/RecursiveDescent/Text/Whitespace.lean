/-!
# White space characters

The characters with the Unicode property `White_Space`.
-/

namespace RecursiveDescent

namespace Text

/-- Whether a character is white space: a blank or a control character that moves to another
column or line, or one of the Unicode spaces and separators. -/
def isWhitespace (character : Char) : Bool :=
  let code := character.toNat
  (0x9 ≤ code ∧ code ≤ 0xD) ∨ code = 0x20 ∨ code = 0x85 ∨ code = 0xA0 ∨ code = 0x1680 ∨
    (0x2000 ≤ code ∧ code ≤ 0x200A) ∨ code = 0x2028 ∨ code = 0x2029 ∨ code = 0x202F ∨
    code = 0x205F ∨ code = 0x3000

end Text

end RecursiveDescent
