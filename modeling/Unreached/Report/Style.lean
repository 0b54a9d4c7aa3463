import Unreached.Text.Basic

/-!
# Coloured text

`Style.paint` writes a text between the escape sequences that switch a style on and off, or plainly
where there are no colours.
-/

namespace Unreached

set_option autoImplicit false

/-- A style is the list of its numbers. -/
structure Style where
  codes : List Nat
deriving DecidableEq, Repr

namespace Style

def bold : Style := ⟨[1]⟩

def dimmed : Style := ⟨[2]⟩

def red : Style := ⟨[31]⟩

def green : Style := ⟨[32]⟩

def yellow : Style := ⟨[33]⟩

def blue : Style := ⟨[34]⟩

def cyan : Style := ⟨[36]⟩

def brightBlue : Style := ⟨[94]⟩

def brightWhite : Style := ⟨[97]⟩

/-- Both styles at once. -/
def and (a b : Style) : Style := ⟨a.codes ++ b.codes⟩

/-- The character that starts an escape sequence. -/
def escape : Char := '\x1b'

/-- The sequence that switches every style off. -/
def off : Text := [escape, '[', '0', 'm']

/-- The sequence that switches a style on. -/
def on (s : Style) : Text :=
  escape :: '[' :: (List.intersperse [';'] (s.codes.map Text.ofNat)).flatten ++ ['m']

/-- `t` with the style switched on again after each place where a sequence switches it off. -/
def renew (s : Style) : Text → Text
  | a :: b :: c :: d :: t =>
    if [a, b, c, d] = off then off ++ s.on ++ renew s t else a :: renew s (b :: c :: d :: t)
  | t => t

/-- `t` filled up with spaces to `width` characters. -/
def pad (width : Nat) (t : Text) : Text := t ++ List.replicate (width - t.length) ' '

/-- `t` in a style, filled up to `width` characters. -/
def paint (color : Bool) (s : Style) (t : Text) (width : Nat := 0) : Text :=
  if color then s.on ++ pad width (s.renew t) ++ off else pad width t

end Style

end Unreached
