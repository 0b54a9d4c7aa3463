import Unreached.Json.Basic
import Unreached.Text.Letter

/-!
# Relaxed JSON texts

`Json.Relaxed.read?` reads the superset of JSON that configuration files use: comments, trailing
commas, keys without quotes, strings in either quote, hexadecimal numbers, signs, `NaN` and
`Infinity`.
-/

namespace Unreached.Json.Relaxed

set_option autoImplicit false

/-- The limits of relaxed texts. -/
def dialect : Dialect := ⟨true, 1000⟩

/-- Whether a character ends a line. -/
def isLineEnd (c : Char) : Bool := c = '\n' || c = '\r' || c = '\u2028' || c = '\u2029'

/-! ## Comments and strings -/

/-- What follows a block comment, from inside of it. -/
def afterComment? : Text → Option Text
  | '*' :: '/' :: t => some t
  | _ :: t => afterComment? t
  | [] => none

/-- The character that a one-letter escape stands for. -/
def escape? : Char → Option Char
  | 'a' => some '\x07'
  | 'b' => some '\x08'
  | 'f' => some '\x0c'
  | 'n' => some '\n'
  | 'r' => some '\r'
  | 't' => some '\t'
  | 'v' => some '\x0b'
  | '0' => some '\x00'
  | '\\' => some '\\'
  | '\'' => some '\''
  | '"' => some '"'
  | '/' => some '/'
  | c => if isLineEnd c then some c else none

/-- The character of a hexadecimal escape, which is no surrogate. -/
def hexChar? (digits : Text) : Option Char :=
  (hex? digits).bind fun n => if isSurrogate n then none else some (Char.ofNat n)

/-- Reads a string after its opening quote; `content` is what it holds so far, in reverse. An
escaped line break stays in the string. -/
def string? (quote : Char) : (content : Text) → Text → Option (Text × Text)
  | _, [] => none
  | content, '\\' :: 'u' :: a :: b :: c :: d :: t =>
    match hexChar? [a, b, c, d] with
    | none => none
    | some c => string? quote (c :: content) t
  | content, '\\' :: 'x' :: a :: b :: t =>
    match hexChar? [a, b] with
    | none => none
    | some c => string? quote (c :: content) t
  | content, '\\' :: '\r' :: '\n' :: t => string? quote ('\n' :: '\r' :: content) t
  | content, '\\' :: c :: t =>
    match escape? c with
    | none => none
    | some c => string? quote (c :: content) t
  | content, c :: t =>
    if c = quote then some (content.reverse, t)
    else if isLineEnd c then none
    else string? quote (c :: content) t

/-! ## Numbers -/

/-- Reads a hexadecimal number after its mark. -/
def hexNumber? (t : Text) : Option (Token × Text) :=
  let (digits, t) := t.span fun c => (hexDigit? c).isSome
  if digits.isEmpty then none
  else (hex? digits).bind fun n => if n < UInt64.size then some (.numeral (.whole n), t) else none

/-- Reads a number without its sign, which may start or end with its point. -/
def number? : Text → Option (Token × Text)
  | '0' :: 'x' :: t => hexNumber? t
  | '0' :: 'X' :: t => hexNumber? t
  | t => do
    let (whole, t) := takeDigits t
    if whole.head? = some '0' && whole.length ≠ 1 then none else
    let (fraction, t) := takeFraction t
    let digits := whole ++ fraction.getD []
    if digits.isEmpty then none else
    let (exponent, t) ← takeExponent? t
    if fraction.isNone && exponent.isNone then some (.numeral (.whole (decimal whole)), t)
    else
      let e := exponent.getD 0 - (fraction.getD []).length
      some (.numeral (.real (!overflows (decimal digits) digits.length e)), t)

/-! ## Names -/

/-- Whether a character may start a name. -/
def startsName (c : Char) : Bool := isAlphabetic c || c = '$' || c = '_'

/-- Whether a character may stand in a name after its start. -/
def continuesName (c : Char) : Bool :=
  startsName c || isWordExtender c || c = '\u200c' || c = '\u200d'

/-- Reads the rest of a name; `content` is what it holds so far, in reverse. An escape may stand for
any character. The first part of the result tells whether there was an escape. -/
def nameRest? : (escaped : Bool) → (content : Text) → Text → Option (Bool × Text × Text)
  | escaped, content, [] => some (escaped, content.reverse, [])
  | _, content, '\\' :: 'u' :: a :: b :: c :: d :: t =>
    match hexChar? [a, b, c, d] with
    | none => none
    | some c => nameRest? true (c :: content) t
  | escaped, content, c :: t =>
    if c = '\\' then none
    else if continuesName c then nameRest? escaped (c :: content) t
    else some (escaped, content.reverse, c :: t)

/-- The token of a name, which is a value if it is one of the reserved words. -/
def ofName (t : Text) : Token :=
  if t = "null".toList then .scalar .null
  else if t = "true".toList then .scalar (.bool true)
  else if t = "false".toList then .scalar (.bool false)
  else if t = "NaN".toList || t = "Infinity".toList then .numeral (.real false)
  else .name t

/-- Reads a name or a reserved word. -/
def name? (t : Text) : Option (Token × Text) := do
  let (escaped, first, t) ← match t with
    | '\\' :: 'u' :: a :: b :: c :: d :: t => (hexChar? [a, b, c, d]).map (true, ·, t)
    | c :: t => some (false, c, t)
    | [] => none
  if startsName first then
    let (escaped, name, t) ← nameRest? escaped [first] t
    return (if escaped then .name name else ofName name, t)
  else none

/-! ## Lexemes -/

/-- Takes one lexeme off a text. -/
def lexeme? : Text → Option (Option Token × Text)
  | [] => none
  | '/' :: '/' :: t => some (none, t.dropWhile (!isLineEnd ·))
  | '/' :: '*' :: t => (afterComment? t).map fun t => (none, t)
  | '[' :: t => some (some .openList, t)
  | ']' :: t => some (some .closeList, t)
  | '\x7b' :: t => some (some .openObject, t)
  | '\x7d' :: t => some (some .closeObject, t)
  | ',' :: t => some (some .comma, t)
  | ':' :: t => some (some .colon, t)
  | '+' :: t => some (some (.sign false), t)
  | '-' :: t => some (some (.sign true), t)
  | c :: t =>
    if isBlank c || c = '\ufeff' then some (none, t)
    else if c = '"' || c = '\'' then (string? c [] t).map fun (s, t) => (some (.text s), t)
    else if c.isDigit || c = '.' then (number? (c :: t)).map fun (n, t) => (some n, t)
    else (name? (c :: t)).map fun (n, t) => (some n, t)

/-- The value of a relaxed text. -/
def read? (t : Text) : Option Json := (tokensOf lexeme? t.length t).bind (ofTokens? dialect)

end Unreached.Json.Relaxed
