import Unreached.Ignore.Glob
import Unreached.Text.Blank

/-!
# Rules of ignore files

* `Rule.ofLine?` : the rule that a line of an ignore file states;
* `rulesOf` : the rules of a file;
* `verdict?` : what rules say about a path, where the last that applies decides.
-/

namespace Unreached.Ignore

set_option autoImplicit false

/-- What a rule says about the paths it matches. -/
inductive Verdict where
  | ignored
  | kept
deriving DecidableEq, Repr

/-- A rule of an ignore file. -/
structure Rule where
  verdict : Verdict
  /-- Whether the rule is only about directories. -/
  onlyDirs : Bool
  glob : Glob

/-! ## Reading -/

/-- The line without the blank characters at its end, unless the last is escaped. -/
def trimLine (line : Text) : Text := if line.endsWith ['\\', ' '] then line else line.trimEnd

/-- The marks at the start of a line: the verdict, whether the pattern is tied to the directory of
the file, and the pattern. A backslash keeps an exclamation mark or a hash sign from being a
mark. -/
def readMarks : Text → Verdict × Bool × Text
  | '\\' :: '!' :: t => (.ignored, false, '!' :: t)
  | '\\' :: '#' :: t => (.ignored, false, '#' :: t)
  | '!' :: '/' :: t => (.kept, true, t)
  | '!' :: t => (.kept, false, t)
  | '/' :: t => (.ignored, true, t)
  | t => (.ignored, false, t)

/-- Whether the pattern ends with a slash, and the pattern without it and without a backslash before
it. -/
def dropLastSlash (pattern : Text) : Bool × Text :=
  match pattern.reverse with
  | '/' :: '\\' :: t => (true, t.reverse)
  | '/' :: t => (true, t.reverse)
  | _ => (false, pattern)

/-- The pattern in the form that is matched against whole paths: one without a slash may match in
any directory, and one that ends with all directories below another does not match that other. -/
def fullPattern (tied : Bool) (pattern : Text) : Text :=
  let stars := ['*', '*']
  let anywhere := !tied && !pattern.contains '/' && pattern ≠ stars
  let pattern := if anywhere then stars ++ '/' :: pattern else pattern
  if Text.endsWith pattern ('/' :: stars) then pattern ++ ['/', '*'] else pattern

/-- The rule of a line. Empty lines, comments and patterns that cannot be read state none. -/
def Rule.ofLine? (line : Text) : Option Rule :=
  let text := trimLine line
  if line.startsWith ['#'] || text.isEmpty then none
  else
    let (verdict, tied, pattern) := readMarks text
    let (onlyDirs, pattern) := dropLastSlash pattern
    (Glob.parse? (fullPattern tied pattern)).map fun glob => ⟨verdict, onlyDirs, glob⟩

/-- The text of a line of bytes without its line break. -/
def lineText? (line : Bytes) : Option Text :=
  (Bytes.text? line).map fun t =>
    if t.endsWith ['\r', '\n'] then t.dropLast.dropLast
    else if t.endsWith ['\n'] then t.dropLast
    else t

/-- The lines of a file up to the first that is not UTF-8. -/
def readableLines : List Bytes → List Text
  | [] => []
  | line :: lines =>
    match lineText? line with
    | none => []
    | some t => t :: readableLines lines

/-- The rules of a file. A byte order mark at its start does not count. -/
def rulesOf (content : Bytes) : List Rule :=
  match readableLines content.lines with
  | [] => []
  | first :: lines => (first.dropWhile (· = '\ufeff') :: lines).filterMap Rule.ofLine?

/-! ## Verdicts -/

/-- Whether a rule applies to a path, given from the directory of the rule's file. -/
def Rule.applies (rule : Rule) (path : Bytes) (isDir : Bool) : Bool :=
  (!rule.onlyDirs || isDir) && Glob.accepts rule.glob path

/-- What the last rule that applies says about a path. -/
def verdict? (rules : List Rule) (path : Bytes) (isDir : Bool) : Option Verdict :=
  (rules.reverse.find? (·.applies path isDir)).map (·.verdict)

end Unreached.Ignore
