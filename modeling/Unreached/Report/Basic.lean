import Unreached.Check
import Unreached.Report.Style

/-!
# Reports

* `displayPath` : the path of a file as seen from the working directory;
* `listing`, `nothingUnused`, `timing` : the report in words;
* `jsonReport` : the report as JSON.
-/

namespace Unreached

set_option autoImplicit false

/-! ## Paths as displayed -/

/-- The path of a file of the project at `root` as seen from the directory `cwd?`. It is given from
the root where there is no such directory, or where the root is relative. -/
def displayPath (cwd? : Option Text) (root path : Text) : Text :=
  match cwd? with
  | none => path
  | some cwd => (Path.between? (Path.join root (path.dropWhile (· = '/'))) cwd).getD path

/-! ## The report in words -/

section
variable (color : Bool)

/-- A number in a style. -/
def count (style : Style) (n : Nat) : Text := style.paint color (Text.ofNat n)

/-- The report that nothing is unused. -/
def nothingUnused : Text :=
  (Style.bold.and .green).paint color ['✓'] ++ " No unused files found\n".toList

/-- The line of one unused file. -/
def listingLine (cwd? : Option Text) (root : Text) (width : Nat) (f : SourceFile) : Text :=
  (Style.bold.and .brightWhite).paint color f.name width
    ++ [' '] ++ Style.dimmed.paint color ['|'] ++ [' ']
    ++ Style.blue.paint color (displayPath cwd? root f.path) ++ ['\n']

/-- The report of unused files: a line for each, and a summary. Names are filled up to the bytes of
the longest. -/
def listing (cwd? : Option Text) (r : CheckResult) : Text :=
  let width := ((r.unused.map (·.name.byteWidth)).max?).getD 0
  (Style.bold.and .yellow).paint color ['⚠'] ++ [' '] ++ count color .yellow r.unused.length
    ++ " unused files\n\n".toList
    ++ r.unused.flatMap (listingLine color cwd? r.root width)
    ++ ['\n'] ++ Style.dimmed.paint color (List.replicate 60 '─') ++ ['\n']
    ++ Style.bold.paint color "Summary".toList ++ ['\n']
    ++ "  Source files: ".toList ++ count color .cyan r.inventorySize ++ ['\n']
    ++ "  Entry points: ".toList ++ count color .cyan r.entries ++ ['\n']
    ++ "  Reachable: ".toList ++ count color .cyan r.reachable ++ ['\n']
    ++ "  Unused: ".toList ++ count color (Style.bold.and .yellow) r.unused.length ++ ['\n']

/-- The line on the time that a run took. -/
def timing (elapsed threads : Nat) (r : CheckResult) : Text :=
  ['\n'] ++ Style.brightBlue.paint color ['●']
    ++ " Finished in ".toList ++ count color .cyan elapsed
    ++ "ms on ".toList ++ count color .cyan r.filesAnalyzed ++ " files (using ".toList
    ++ count color .cyan threads ++ " threads).\n".toList

end

/-! ## The report as JSON -/

/-- The hexadecimal digit of a number below 16. -/
def lowerHexDigit (n : Nat) : Char := Nat.digitChar n

/-- A character as it stands in a JSON string. -/
def jsonChar (c : Char) : Text :=
  match c with
  | '"' => ['\\', '"']
  | '\\' => ['\\', '\\']
  | '\x08' => ['\\', 'b']
  | '\x0c' => ['\\', 'f']
  | '\n' => ['\\', 'n']
  | '\r' => ['\\', 'r']
  | '\t' => ['\\', 't']
  | c =>
    if c.toNat < 0x20 then
      ['\\', 'u', '0', '0', lowerHexDigit (c.toNat / 16), lowerHexDigit (c.toNat % 16)]
    else [c]

/-- A text as a JSON string. -/
def jsonText (t : Text) : Text := '"' :: t.flatMap jsonChar ++ ['"']

/-- A file as a JSON object in a list. -/
def jsonFile (f : SourceFile) : Text :=
  "    \x7b\n      \"name\": ".toList ++ jsonText f.name
    ++ ",\n      \"path\": ".toList ++ jsonText f.path ++ "\n    \x7d".toList

/-- The files as a JSON list. -/
def jsonFiles (files : List SourceFile) : Text :=
  if files.isEmpty then "[]".toList
  else
    "[\n".toList ++ (List.intersperse ",\n".toList (files.map jsonFile)).flatten ++ "\n  ]".toList

/-- The report as JSON. -/
def jsonReport (r : CheckResult) : Text :=
  "\x7b\n  \"unused\": ".toList ++ jsonFiles r.unused
    ++ ",\n  \"entries\": ".toList ++ Text.ofNat r.entries
    ++ ",\n  \"filesAnalyzed\": ".toList ++ Text.ofNat r.filesAnalyzed ++ "\n\x7d\n".toList

end Unreached
