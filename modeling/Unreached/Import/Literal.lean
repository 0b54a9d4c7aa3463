import Unreached.Text.Basic

/-!
# String literals

`literals` lists the contents of the quoted strings of a piece of source text. A backslash escapes
the character after it, a template between back quotes is passed over, and `//` starts a comment
that runs to the end of its line.
-/

namespace Unreached.Import

set_option autoImplicit false

/-- What the scan stands in. -/
inductive Mode where
  /-- Text outside literals and comments. -/
  | code
  /-- A comment, up to the end of its line. -/
  | comment
  /-- A literal opened by `quote`, with the content read so far in reverse. -/
  | literal (quote : Char) (content : Text)
deriving DecidableEq, Repr

/-- The back quote, which delimits templates. -/
def backQuote : Char := '\x60'

/-- Whether a character opens a literal. -/
def opensLiteral (c : Char) : Bool := c = '"' || c = '\'' || c = backQuote

/-- The contents of the quoted strings that close in `text`, read from the given mode. -/
def literalsFrom : Mode → Text → List Text
  | _, [] => []
  | .code, '/' :: '/' :: text => literalsFrom .comment text
  | .code, c :: text => literalsFrom (if opensLiteral c then .literal c [] else .code) text
  | .comment, c :: text => literalsFrom (if c = '\n' then .code else .comment) text
  | .literal quote content, '\\' :: c :: text => literalsFrom (.literal quote (c :: content)) text
  | .literal quote content, c :: text =>
    if c = quote then
      if quote = backQuote then literalsFrom .code text
      else content.reverse :: literalsFrom .code text
    else literalsFrom (.literal quote (c :: content)) text

/-- The contents of the quoted strings of `text`, in order. -/
def literals (text : Text) : List Text := literalsFrom .code text

end Unreached.Import
