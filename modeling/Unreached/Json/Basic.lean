import Unreached.Text.Basic

/-!
# JSON values and how they are put together

* `Json` : the values;
* `Token` : what the readers of the two dialects cut a text into;
* `Json.ofTokens?` : the value that a list of tokens spells, by a machine that keeps a stack of open
  containers.
-/

namespace Unreached

set_option autoImplicit false

/-- A JSON value. Numbers keep no value, since no setting that is read from a document is a number.
The members of an object stand in the order of the text. -/
inductive Json where
  | null
  | bool (b : Bool)
  | number
  | text (t : Text)
  | list (items : List Json)
  | object (members : List (Text × Json))

/-- The member of an object with a given key, the last if there are several. -/
def Json.member? (members : List (Text × Json)) (key : Text) : Option Json :=
  (members.reverse.find? (·.1 = key)).map (·.2)

namespace Json

/-! ## Numerals -/

/-- A numeral without its sign. -/
inductive Numeral where
  /-- A numeral without a point and an exponent. -/
  | whole (magnitude : Nat)
  /-- Any other numeral, `NaN` and `Infinity` among them. -/
  | real (finite : Bool)
deriving DecidableEq, Repr

/-- The value of a signed numeral. Whole numbers must fit 64 bits, signed ones below their least
value; numbers that are not finite become null. -/
def Numeral.value? (negative : Bool) : Numeral → Option Json
  | .whole n =>
    if n < (if negative then UInt64.size / 2 else UInt64.size) then some .number else none
  | .real finite => some (if finite then .number else .null)

/-- Whether `n · 10 ^ e` rounds to an infinite double, for a number `n` of `digits` digits. The
digit count settles all but the cases near the bound. -/
def overflows (n digits : Nat) (e : Int) : Bool :=
  let bound := (1 <<< 1024) - (1 <<< 970)
  if n = 0 then false
  else if (digits : Int) + e < 308 then false
  else if (n.log2 : Int) / 4 + e > 400 then true
  else if 0 ≤ e then bound ≤ n * Nat.pow 10 e.toNat
  else bound * Nat.pow 10 (-e).toNat ≤ n

/-! ## Tokens -/

/-- A token of a document. -/
inductive Token where
  | openList
  | closeList
  | openObject
  | closeObject
  | comma
  | colon
  | sign (negative : Bool)
  | numeral (n : Numeral)
  /-- A quoted string. -/
  | text (t : Text)
  /-- A name without quotes. -/
  | name (t : Text)
  /-- A value that needs no further token. -/
  | scalar (v : Json)

/-- Cuts a text into tokens. The function takes one lexeme off a text, which is a token, a blank or
a comment; the fuel bounds the number of lexemes, and the length of the text is enough. -/
def tokensOf (lexeme? : Text → Option (Option Token × Text)) :
    (fuel : Nat) → Text → Option (List Token)
  | _, [] => some []
  | 0, _ :: _ => none
  | fuel + 1, t => do
    let (token, rest) ← lexeme? t
    let tokens ← tokensOf lexeme? fuel rest
    return token.toList ++ tokens

/-! ## The machine -/

/-- What a dialect allows. -/
structure Dialect where
  /-- Whether a comma may stand before the end of a container. -/
  trailingComma : Bool
  /-- The number of containers that may be open at once. -/
  maxDepth : Nat
deriving DecidableEq, Repr

/-- An open container, with what it holds so far in reverse. -/
inductive Frame where
  | list (items : List Json)
  | object (members : List (Text × Json))
  /-- An object whose last key has no value yet. -/
  | member (members : List (Text × Json)) (key : Text)

/-- What may come next. -/
inductive Need where
  /-- A value, or the end of the list if it may close. -/
  | value (mayClose : Bool)
  /-- A key, or the end of the object if it may close. -/
  | key (mayClose : Bool)
  | colon
  /-- A comma or the end of the container. -/
  | separator
  /-- The numeral after a sign. -/
  | operand (negative : Bool)
  /-- Nothing: the value is complete. -/
  | nothing (v : Json)

/-- The state between two tokens. -/
structure Machine where
  stack : List Frame
  need : Need

namespace Machine

/-- Hands a value to the innermost open container. -/
def deliver (v : Json) : List Frame → Option Machine
  | [] => some ⟨[], .nothing v⟩
  | .list items :: stack => some ⟨.list (v :: items) :: stack, .separator⟩
  | .member members key :: stack => some ⟨.object ((key, v) :: members) :: stack, .separator⟩
  | .object _ :: _ => none

/-- Closes the innermost container, which must be a list. -/
def closeList : List Frame → Option Machine
  | .list items :: stack => deliver (.list items.reverse) stack
  | _ => none

/-- Closes the innermost container, which must be an object. -/
def closeObject : List Frame → Option Machine
  | .object members :: stack => deliver (.object members.reverse) stack
  | _ => none

/-- Opens a container unless too many are open. -/
def enter (d : Dialect) (frame : Frame) (need : Need) (stack : List Frame) : Option Machine :=
  if stack.length < d.maxDepth then some ⟨frame :: stack, need⟩ else none

/-- Sets the key of the next member. -/
def setKey (key : Text) : List Frame → Option Machine
  | .object members :: stack => some ⟨.member members key :: stack, .colon⟩
  | _ => none

/-- What comes after a comma. -/
def afterComma (d : Dialect) : List Frame → Option Machine
  | .list items :: stack => some ⟨.list items :: stack, .value d.trailingComma⟩
  | .object members :: stack => some ⟨.object members :: stack, .key d.trailingComma⟩
  | _ => none

/-- One token. -/
def step (d : Dialect) (m : Machine) (token : Token) : Option Machine :=
  match m.need, token with
  | .value _, .scalar v => deliver v m.stack
  | .value _, .text t => deliver (.text t) m.stack
  | .value _, .numeral n => (n.value? false).bind (deliver · m.stack)
  | .value _, .sign negative => some ⟨m.stack, .operand negative⟩
  | .operand negative, .numeral n => (n.value? negative).bind (deliver · m.stack)
  | .value _, .openList => enter d (.list []) (.value true) m.stack
  | .value _, .openObject => enter d (.object []) (.key true) m.stack
  | .value true, .closeList => closeList m.stack
  | .key true, .closeObject => closeObject m.stack
  | .key _, .text t => setKey t m.stack
  | .key _, .name t => setKey t m.stack
  | .colon, .colon => some ⟨m.stack, .value false⟩
  | .separator, .comma => afterComma d m.stack
  | .separator, .closeList => closeList m.stack
  | .separator, .closeObject => closeObject m.stack
  | _, _ => none

end Machine

/-- The value that a list of tokens spells. -/
def ofTokens? (d : Dialect) (tokens : List Token) : Option Json :=
  match tokens.foldlM (Machine.step d) ⟨[], .value false⟩ with
  | some ⟨[], .nothing v⟩ => some v
  | _ => none

/-! ## Digits -/

/-- The value of a hexadecimal digit. -/
def hexDigit? (c : Char) : Option Nat :=
  if '0' ≤ c ∧ c ≤ '9' then some (c.toNat - 48)
  else if 'a' ≤ c ∧ c ≤ 'f' then some (c.toNat - 87)
  else if 'A' ≤ c ∧ c ≤ 'F' then some (c.toNat - 55)
  else none

/-- The number that hexadecimal digits spell. -/
def hex? (digits : Text) : Option Nat := digits.foldlM (fun n c => (hexDigit? c).map (16 * n + ·)) 0

/-- The number that decimal digits spell. -/
def decimal (digits : Text) : Nat := digits.foldl (fun n c => 10 * n + (c.toNat - 48)) 0

/-- Takes the decimal digits off the start of a text. -/
def takeDigits (t : Text) : Text × Text := t.span Char.isDigit

/-- Takes a decimal fraction with its point off the start of a text. -/
def takeFraction : Text → Option Text × Text
  | '.' :: t => ((takeDigits t).1, (takeDigits t).2)
  | t => (none, t)

/-- Takes an exponent off the start of a text. It fails where an exponent starts and has no
digit. -/
def takeExponent? : Text → Option (Option Int × Text)
  | c :: t =>
    if c = 'e' || c = 'E' then
      let (negative, t) := match t with
        | '-' :: t => (true, t)
        | '+' :: t => (false, t)
        | t => (false, t)
      let (digits, t) := takeDigits t
      if digits.isEmpty then none
      else some (some (if negative then -(decimal digits : Int) else decimal digits), t)
    else some (none, c :: t)
  | [] => some (none, [])

/-- Whether a 16-bit unit is half of a pair that stands for one character. -/
def isSurrogate (n : Nat) : Bool := 0xD800 ≤ n && n ≤ 0xDFFF

end Json

end Unreached
