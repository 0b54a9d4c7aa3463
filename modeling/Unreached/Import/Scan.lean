import Unreached.Import.Literal
import Unreached.Text.Blank

/-!
# Import declarations of a source text

The scan goes line by line. A declaration starts on a line that begins with `import`, or with
`export {` or `export *` where re-exports count, and takes further lines until it holds a quote or a
semicolon.

* `Kind.ofLine?` : the kind of declaration that a line starts;
* `Draft` : a declaration that is being read;
* `scan` : the specifiers of the declarations, one for each that names a local module.
-/

namespace Unreached.Import

set_option autoImplicit false

/-! ## The line that starts a declaration -/

/-- The kinds of declarations that name a module. -/
inductive Kind where
  /-- `import … from '…'` and `import '…'`. -/
  | importing
  /-- `export … from '…'`. -/
  | reexporting
deriving DecidableEq, Repr

/-- Whether a character after the word `import` makes it a declaration, which a call and
`import.meta` are not. -/
def followsImport (c : Char) : Bool := isBlank c || c = '{' || c = '*' || c = '"' || c = '\''

/-- Whether a text starts with a character that satisfies `p`. -/
def headIs (p : Char → Bool) (text : Text) : Bool := text.head?.any p

/-- The text after the word `type` and the blank characters that follow it, if it starts with
them. -/
def dropTypeWord (text : Text) : Text :=
  ((Text.after? "type ".toList text).map Text.trimStart).getD text

/-- Whether what follows the word `export` opens a re-export. -/
def followsExport (text : Text) : Bool :=
  headIs (fun c => c = '{' || c = '*') (dropTypeWord (Text.trimStart text))

/-- The kind of declaration that a line starts. Re-exports are only told where they count. -/
def Kind.ofLine? (reexports : Bool) (line : Text) : Option Kind :=
  let text := line.trimStart
  if (Text.after? "import".toList text).any (headIs followsImport) then some .importing
  else if reexports && (Text.after? "export".toList text).any followsExport then some .reexporting
  else none

/-! ## Declarations in the making -/

/-- The number of lines that a declaration may take after its first. -/
def maxContinuation : Nat := 64

/-- A declaration of which more lines may follow. -/
structure Draft where
  kind : Kind
  /-- The lines read so far, joined by line feeds. -/
  text : Text
  /-- The number of lines it may still take. -/
  room : Nat
deriving DecidableEq, Repr

namespace Draft

/-- The declaration that a line starts. -/
def ofLine? (reexports : Bool) (line : Text) : Option Draft :=
  (Kind.ofLine? reexports line).map fun kind => ⟨kind, line, maxContinuation⟩

/-- The declaration with one more line. -/
def extend (d : Draft) (line : Text) : Draft :=
  { d with text := d.text ++ '\n' :: line, room := d.room - 1 }

/-- Whether the declaration takes no further line. -/
def isComplete (d : Draft) : Bool :=
  d.text.any (fun c => c = '"' || c = '\'' || c = ';') || d.room = 0

/-- The specifier of a declaration: its first quoted string that is local. A re-export has one only
if it has the word `from`. -/
def specifier? (isLocal : Text → Bool) (d : Draft) : Option Text :=
  if d.kind = .reexporting && !d.text.includes "from".toList then none
  else (literals d.text).find? isLocal

end Draft

/-! ## The scan -/

section Scan
variable (reexports : Bool) (isLocal : Text → Bool)

/-- The specifiers of the declarations in the given lines, the first of which continue the open
declaration. -/
def scanLines : Option Draft → List Text → List Text
  | none, [] => []
  | some d, [] => (d.specifier? isLocal).toList
  | none, line :: lines =>
    match Draft.ofLine? reexports line with
    | none => scanLines none lines
    | some d =>
      if d.isComplete then (d.specifier? isLocal).toList ++ scanLines none lines
      else scanLines (some d) lines
  | some d, line :: lines =>
    let d := d.extend line
    if d.isComplete then (d.specifier? isLocal).toList ++ scanLines none lines
    else scanLines (some d) lines

/-- The local specifiers that a source text imports, in order. -/
def scan (source : Text) : List Text := scanLines reexports isLocal none source.lines

end Scan

end Unreached.Import
