import Unreached.Run

/-!
# The command on this machine

`main` takes a picture of the files that a run can ask about, runs the command on it, and carries
out the moves that the run decided on. All decisions are those of `conclude`.
-/

namespace Unreached.Command

set_option autoImplicit false

/-! ## A picture of the files -/

/-- The location of an absolute path without links. -/
def locationOf (path : String) : Location := (Path.segments path.toList).reverse

/-- The path of a location. -/
def pathOf (loc : Location) : String := String.ofList loc.path

/-- The entries of a tree. -/
abbrev Entries := List (Location × Node)

/-- What is at a location. The content of a file is only read where `content` is set. A link is
given the place that it leads to in the end. -/
def observe (content : Bool) (loc : Location) : IO Entries := do
  let file := (← IO.currentDir) / pathOf loc
  try
    match (← file.symlinkMetadata).type with
    | .dir => return [(loc, .dir)]
    | .symlink => return [(loc, .link (← IO.FS.realPath file).toString.toList)]
    | _ =>
      return [(loc, .file (← if content then (·.toList) <$> IO.FS.readBinFile file else pure []))]
  catch _ => return []

/-- What is at the given locations. -/
def observeAll (content : Bool) (locs : List Location) : IO Entries :=
  return (← locs.mapM (observe content)).flatten

/-- The files that hold the rules of a directory, and the top of a repository. -/
def ruleNames : List Text := [".git", ".jj", ".ignore", ".gitignore"].map String.toList

/-- The place of a directory's own exclusions, and the directory that this is in. -/
def excludePlaces (dir : Location) : List Location :=
  let info := "info".toList :: ".git".toList :: dir
  [info, "exclude".toList :: info]

/-- The directories from one up to the root of all files, with their rules. -/
def observeUpward (dir : Location) : IO Entries := do
  let dirs := dir.upward
  let places := dirs.flatMap fun dir => ruleNames.map (· :: dir) ++ excludePlaces dir
  return (← observeAll true dirs) ++ (← observeAll true places)

/-- All that is below a directory, but for what lies in directories that no run enters. -/
partial def observeBelow (dir : Location) : IO Entries := do
  let names ← try pure ((← ((← IO.currentDir) / pathOf dir).readDir).toList.map (·.fileName.toList))
    catch _ => pure []
  let mut entries ← observeAll true (excludePlaces dir)
  for name in names do
    let found ← observe (isSourceName name || ruleNames.contains name) (name :: dir)
    entries := found ++ entries
    if found = [(name :: dir, .dir)] && !isSkippedDir [] name then
      entries := (← observeBelow (name :: dir)) ++ entries
  return entries

/-- The path without links of a file, or the path itself where there is none. -/
def realPath (path : Text) : IO Text := do
  let file := (← IO.currentDir) / String.ofList path
  try return (← IO.FS.realPath file).toString.toList catch _ => return file.toString.toList

/-- The files that a run with the given settings can ask about. -/
def picture (s : Settings) (cwd : Location) : IO Tree := do
  let around ← observeUpward cwd
  match s.root.orElse fun _ => repositoryRoot? ⟨around⟩ cwd with
  | none => return ⟨around⟩
  | some root =>
    let top := locationOf (String.ofList (← realPath root))
    let destination := locationOf (String.ofList (← realPath (Path.join root s.moveDir)))
    let tsconfig :=
      locationOf (String.ofList (← realPath (s.tsconfig.getD (Path.join root Alias.tsconfigName))))
    let entries := [← observeAll true tsconfig.upward, around, ← observeUpward top,
      ← observeAll true destination.upward, ← observeBelow destination, ← observeBelow top]
    return ⟨entries.flatten⟩

/-! ## The run -/

/-- Finds the unused files. With a timeout the number of files that may be expanded is raised until
there is an answer or the time has passed. -/
partial def checkInTime (host : Host) (tree : Tree) (s : Settings) (start checks : Nat) :
    IO (Except CheckError CheckResult) := do
  let limited := { host with deadline := fun seconds => .after (if seconds = 0 then 0 else checks) }
  match check limited tree s with
  | .error (.deadlineExceeded n) =>
    if start + 1000 * s.timeout.getD 0 ≤ (← IO.monoMsNow) then return .error (.deadlineExceeded n)
    else checkInTime host tree s start (2 * checks)
  | result => return result

/-- Reads bytes of the input up to the end of a line. -/
partial def readLine (input : IO.FS.Stream) (line : Bytes) : IO Bytes := do
  match (← input.read 1).toList with
  | [] => return line
  | bs =>
    let line := line ++ bs
    if bs = [Bytes.lineFeed] then return line else readLine input line

/-- Ends a run, after `printed` characters of its output were printed. A line of input is read
whenever the run asks for one. -/
partial def finish (conclude : Bytes → RunResult) (input : Bytes) (printed : Nat) :
    IO RunResult := do
  let result := conclude input
  let stdout ← IO.getStdout
  stdout.putStr (String.ofList (result.output.drop printed))
  stdout.flush
  if result.awaitsInput then
    let line ← readLine (← IO.getStdin) []
    if line.isEmpty then return result else finish conclude (input ++ line) result.output.length
  else return result

/-- Makes the directories and moves the files that a run decided on. -/
def carryOut (before : Tree) (result : RunResult) : IO Unit := do
  for (loc, node) in result.tree.entries do
    if node = .dir && (before.node? loc).isNone then IO.FS.createDirAll (pathOf loc)
  for (source, target) in result.moves do
    IO.FS.rename (String.ofList source) (String.ofList target)

/-- Whether output is coloured. -/
def wantsColor : IO Bool := do
  if let some force ← IO.getEnv "CLICOLOR_FORCE" then
    if force ≠ "0" then return true
  return (← IO.getEnv "NO_COLOR").isNone && (← (← IO.getStdout).isTty)

/-- Runs the command. -/
def main (args : List String) : IO UInt32 := do
  let start ← IO.monoMsNow
  let cwd := locationOf (← IO.currentDir).toString
  let result ← match Arguments.ofCommandLine (args.map String.toList) with
    | .error e => finish (fun _ => runUsage {} e) [] 0
    | .ok args =>
      let tree ← picture args.settings cwd
      let host : Host := { cwd, color := ← wantsColor }
      let found ← checkInTime host tree args.settings start 1024
      let host := { host with elapsed := (← IO.monoMsNow) - start }
      let result ← finish (fun input => conclude host tree args input found) [] 0
      carryOut tree result
      pure result
  (← IO.getStderr).putStr (String.ofList result.errors)
  return result.exit.toUInt32

end Unreached.Command

/-- The program. -/
def main (args : List String) : IO UInt32 := Unreached.Command.main args
