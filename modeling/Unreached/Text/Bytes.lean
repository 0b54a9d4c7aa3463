import Unreached.Text.Basic

/-!
# Bytes

Files hold bytes. `Bytes.text?` reads them as UTF-8, `Text.bytes` writes a text as UTF-8, and
`Bytes.lines` cuts bytes into lines before they are read as text.
-/

namespace Unreached

set_option autoImplicit false

/-- A sequence of bytes. -/
abbrev Bytes := List UInt8

/-- A text in UTF-8. -/
def Text.bytes (t : Text) : Bytes := t.flatMap String.utf8EncodeChar

namespace Bytes

/-- Whether a byte continues a character of several bytes. -/
def isTail (b : UInt8) : Bool := 0x80 ≤ b && b ≤ 0xBF

/-- The character with the given leading bits and tail bytes. -/
def charOf (lead : Nat) (tail : Bytes) : Char :=
  Char.ofNat (tail.foldl (fun n b => n * 64 + (b.toNat - 0x80)) lead)

/-- Whether a second byte may follow the first byte of a character of three bytes. -/
def mayFollow3 (a b : UInt8) : Bool :=
  isTail b && (a ≠ 0xE0 || 0xA0 ≤ b) && (a ≠ 0xED || b ≤ 0x9F)

/-- Whether a second byte may follow the first byte of a character of four bytes. -/
def mayFollow4 (a b : UInt8) : Bool :=
  isTail b && (a ≠ 0xF0 || 0x90 ≤ b) && (a ≠ 0xF4 || b ≤ 0x8F)

/-- Reads UTF-8 after the characters `read`, which stand in reverse. -/
def textFrom? : (read : Text) → Bytes → Option Text
  | read, [] => some read.reverse
  | read, a :: bs =>
    if a < 0x80 then textFrom? (Char.ofNat a.toNat :: read) bs
    else match bs with
      | [] => none
      | b :: bs =>
        if 0xC2 ≤ a && a ≤ 0xDF then
          if isTail b then textFrom? (charOf (a.toNat - 0xC0) [b] :: read) bs else none
        else match bs with
          | [] => none
          | c :: bs =>
            if 0xE0 ≤ a && a ≤ 0xEF then
              if mayFollow3 a b && isTail c then
                textFrom? (charOf (a.toNat - 0xE0) [b, c] :: read) bs
              else none
            else match bs with
              | [] => none
              | d :: bs =>
                if 0xF0 ≤ a && a ≤ 0xF4 && mayFollow4 a b && isTail c && isTail d then
                  textFrom? (charOf (a.toNat - 0xF0) [b, c, d] :: read) bs
                else none

/-- The text that bytes spell in UTF-8. -/
def text? (bs : Bytes) : Option Text := textFrom? [] bs

/-- The line feed. -/
def lineFeed : UInt8 := 10

/-- The lines of a sequence of bytes, each with the line feed that ends it. -/
def lines : Bytes → List Bytes
  | [] => []
  | b :: bs =>
    if b = lineFeed then [b] :: lines bs
    else match lines bs with
      | [] => [[b]]
      | line :: rest => (b :: line) :: rest

end Bytes

end Unreached
