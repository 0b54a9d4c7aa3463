import Unreached.Ignore.Rule
import Unreached.Tree.Basic

/-!
# Where ignore rules hold

The rules of a directory hold for all that lies below it.

* `Scope` : the rules that the files of one directory state;
* `Scope.ofDir` : the rules of a directory of a tree;
* `isIgnored` : whether the rules of the directories around a place drop it.

Rules in `.ignore` files count before those in `.gitignore` files, and those before the exclusions
that a repository keeps for itself; of each kind those of the deepest directory count first. Rules
of the last two kinds hold only in a repository, and not those from outside of the innermost one.
-/

namespace Unreached.Ignore

set_option autoImplicit false

/-- The rules of a directory. -/
structure Scope where
  /-- The directory. -/
  dir : Location
  /-- The rules of its `.ignore` file. -/
  ignore : List Rule := []
  /-- The rules of its `.gitignore` file. -/
  gitignore : List Rule := []
  /-- The rules that the repository at this place keeps for itself. -/
  exclude : List Rule := []
  /-- Whether it is the top of a repository. -/
  isRepository : Bool := false

section Reading
variable (tree : Tree) (cwd : Location)

/-- The rules of the file at a path, none if it cannot be read. -/
def rulesAt (path : Text) : List Rule :=
  match tree.read cwd path with
  | .ok content => rulesOf content
  | .error _ => []

/-- The first line of the file at a path. -/
def firstLine? (path : Text) : Option Text :=
  (tree.read cwd path).toOption.bind fun content => content.lines.head?.bind lineText?

/-- The directory that holds the settings of the repository at `dir`. A file in place of the
directory leads to it. -/
def repositoryDir? (dir : Text) : Option Text :=
  let git := Path.join dir ".git".toList
  match tree.stat cwd git with
  | .ok (.file _) => do
    let line ← firstLine? tree cwd git
    let own ← Text.after? "gitdir: ".toList line
    let common ← firstLine? tree cwd (Path.join own "commondir".toList)
    return if common.startsWith ['.'] then Path.join own common else common
  | _ => some git

/-- Whether the directory is the top of a repository. -/
def startsRepository (dir : Text) : Bool :=
  tree.exists? cwd (Path.join dir ".git".toList) || tree.exists? cwd (Path.join dir ".jj".toList)

/-- The rules of a directory. Unless `respect` is set only the exclusions of a repository count. -/
def Scope.ofDir (respect : Bool) (dir : Location) : Scope :=
  let path := dir.path
  { dir
    ignore := if respect then rulesAt tree cwd (Path.join path ".ignore".toList) else []
    gitignore := if respect then rulesAt tree cwd (Path.join path ".gitignore".toList) else []
    exclude := match repositoryDir? tree cwd path with
      | some own => rulesAt tree cwd (Path.join own "info/exclude".toList)
      | none => []
    isRepository := startsRepository tree cwd path }

end Reading

/-! ## Verdicts -/

/-- What the rules of a scope that `kind` selects say about a place below its directory. -/
def Scope.verdict? (kind : Scope → List Rule) (loc : Location) (isDir : Bool) (s : Scope) :
    Option Verdict :=
  Ignore.verdict? (kind s) (Text.bytes (Path.joined (loc.namesBelow s.dir))) isDir

/-- The scopes up to the first repository, which is included. -/
def innermostRepository : List Scope → List Scope
  | [] => []
  | s :: scopes => if s.isRepository then [s] else s :: innermostRepository scopes

/-- Whether scopes, the deepest first, drop a place. -/
def isIgnored (scopes : List Scope) (loc : Location) (isDir : Bool) : Bool :=
  let inRepository := if scopes.any (·.isRepository) then innermostRepository scopes else []
  ((scopes.findSome? (Scope.verdict? Scope.ignore loc isDir)).or
    ((inRepository.findSome? (Scope.verdict? Scope.gitignore loc isDir)).or
      (inRepository.findSome? (Scope.verdict? Scope.exclude loc isDir)))) = some .ignored

end Unreached.Ignore
