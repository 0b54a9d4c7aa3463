import Unreached.Text.Basic

/-!
# Blank characters

`isBlank` is the Unicode property White_Space; `trim` and its two halves remove blank characters
from the ends.
-/

namespace Unreached

set_option autoImplicit false

/-- The ranges of the Unicode property White_Space. -/
def blankRanges : List (Nat × Nat) :=
  [(0x9, 0xD), (0x20, 0x20), (0x85, 0x85), (0xA0, 0xA0), (0x1680, 0x1680), (0x2000, 0x200A),
    (0x2028, 0x2029), (0x202F, 0x202F), (0x205F, 0x205F), (0x3000, 0x3000)]

/-- Whether a character lies in one of the ranges. -/
def inRanges (ranges : List (Nat × Nat)) (c : Char) : Bool :=
  ranges.any fun r => r.1 ≤ c.toNat && c.toNat ≤ r.2

/-- Whether a character is white space. -/
def isBlank (c : Char) : Bool := inRanges blankRanges c

namespace Text

/-- `t` without the blank characters at its start. -/
def trimStart (t : Text) : Text := t.dropWhile isBlank

/-- `t` without the blank characters at its end. -/
def trimEnd (t : Text) : Text := t.dropEndWhile isBlank

/-- `t` without the blank characters at either end. -/
def trim (t : Text) : Text := t.trimStart.trimEnd

end Text

end Unreached
