import Unreached.Json.Basic

/-!
# JSON texts

`Json.Strict.read?` reads JSON as its grammar has it: no comments, no trailing commas, strings in
double quotes, whole surrogate pairs only, numbers within the range of a double, at most 127 open
containers.
-/

namespace Unreached.Json.Strict

set_option autoImplicit false

/-- The limits of JSON texts. -/
def dialect : Dialect := ⟨false, 127⟩

/-- Whether a character may stand between tokens. -/
def isSpace (c : Char) : Bool := c = ' ' || c = '\t' || c = '\n' || c = '\r'

/-- The character that a one-letter escape stands for. -/
def escape? : Char → Option Char
  | '"' => some '"'
  | '\\' => some '\\'
  | '/' => some '/'
  | 'b' => some '\x08'
  | 'f' => some '\x0c'
  | 'n' => some '\n'
  | 'r' => some '\r'
  | 't' => some '\t'
  | _ => none

/-- The character of a surrogate pair. -/
def pair? (high low : Nat) : Option Char :=
  if 0xD800 ≤ high && high ≤ 0xDBFF && 0xDC00 ≤ low && low ≤ 0xDFFF then
    some (Char.ofNat (0x10000 + (high - 0xD800) * 0x400 + (low - 0xDC00)))
  else none

/-- Reads a string after its opening quote; `content` is what it holds so far, in reverse. -/
def string? : (content : Text) → Text → Option (Text × Text)
  | _, [] => none
  | content, '"' :: t => some (content.reverse, t)
  | content, '\\' :: 'u' :: a :: b :: c :: d :: t =>
    match hex? [a, b, c, d] with
    | none => none
    | some n =>
      if isSurrogate n then
        match t with
        | '\\' :: 'u' :: a' :: b' :: c' :: d' :: t =>
          match (hex? [a', b', c', d']).bind (pair? n) with
          | none => none
          | some c => string? (c :: content) t
        | _ => none
      else string? (Char.ofNat n :: content) t
  | content, '\\' :: c :: t =>
    match escape? c with
    | none => none
    | some c => string? (c :: content) t
  | content, c :: t => if c.toNat < 0x20 then none else string? (c :: content) t

/-- Reads a number without its sign. -/
def number? (t : Text) : Option (Token × Text) := do
  let (whole, t) := takeDigits t
  if whole.isEmpty || (whole.head? = some '0' && whole.length ≠ 1) then none else
  let (fraction, t) := takeFraction t
  if fraction = some [] then none else
  let (exponent, t) ← takeExponent? t
  let fraction := fraction.getD []
  let digits := whole ++ fraction
  if overflows (decimal digits) digits.length (exponent.getD 0 - fraction.length) then none
  else some (.scalar .number, t)

/-- Takes one lexeme off a text. -/
def lexeme? : Text → Option (Option Token × Text)
  | [] => none
  | '[' :: t => some (some .openList, t)
  | ']' :: t => some (some .closeList, t)
  | '\x7b' :: t => some (some .openObject, t)
  | '\x7d' :: t => some (some .closeObject, t)
  | ',' :: t => some (some .comma, t)
  | ':' :: t => some (some .colon, t)
  | '"' :: t => (string? [] t).map fun (s, t) => (some (.text s), t)
  | '-' :: t => (number? t).map fun (n, t) => (some n, t)
  | 'n' :: 'u' :: 'l' :: 'l' :: t => some (some (.scalar .null), t)
  | 't' :: 'r' :: 'u' :: 'e' :: t => some (some (.scalar (.bool true)), t)
  | 'f' :: 'a' :: 'l' :: 's' :: 'e' :: t => some (some (.scalar (.bool false)), t)
  | c :: t => if isSpace c then some (none, t) else (number? (c :: t)).map fun (n, t) => (some n, t)

/-- The value of a JSON text. -/
def read? (t : Text) : Option Json := (tokensOf lexeme? t.length t).bind (ofTokens? dialect)

end Unreached.Json.Strict
