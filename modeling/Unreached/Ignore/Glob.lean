import Unreached.Text.Bytes

/-!
# Glob patterns

A glob is matched against the bytes of a path, whose separator is the slash.

* `Glob.parse?` : the pieces of a pattern text;
* `Glob.accepts` : whether a pattern matches a whole path.

In a pattern `?` is one byte and `*` any number of bytes other than the slash, `[…]` one byte of a
set, `{a,b}` one of several patterns, and `**` between slashes any number of directories. A
backslash takes the character after it as it is, and a bracket that nothing closes is a bracket.
-/

namespace Unreached

set_option autoImplicit false

/-- A piece of a glob. -/
inductive Piece where
  | byte (b : UInt8)
  /-- One byte that is no slash. -/
  | any
  /-- Bytes that are no slashes. -/
  | star
  /-- Directories at the start of a path, with the slash after them. -/
  | leadingDirs
  /-- A slash, or slashes with directories between them. -/
  | innerDirs
  /-- A slash with all that follows it. -/
  | trailingDirs
  /-- One byte in the ranges, or outside of them. -/
  | set (negated : Bool) (ranges : List (UInt8 × UInt8))
  /-- One of several globs, which are not empty. Without any the piece is the empty text. -/
  | oneOf (branches : List (List Piece))

/-- A pattern is the list of its pieces. -/
abbrev Glob := List Piece

namespace Glob

/-! ## Matching -/

/-- The slash. -/
def slash : UInt8 := 47

/-- What is left of `bs` after each of its parts at the start that hold no slash, the longest rest
first. -/
def afterNonSlashes : Bytes → List Bytes
  | [] => [[]]
  | b :: bs => (b :: bs) :: if b = slash then [] else afterNonSlashes bs

/-- What is left of `bs` after each of its slashes. -/
def afterSlashes : Bytes → List Bytes
  | [] => []
  | b :: bs => if b = slash then bs :: afterSlashes bs else afterSlashes bs

/-- Every rest of `bs`, itself included. -/
def tails : Bytes → List Bytes
  | [] => [[]]
  | b :: bs => (b :: bs) :: tails bs

/-- Keeps one of the rests of each length. -/
def distinct (rests : List Bytes) : List Bytes :=
  rests.foldl (fun kept bs => if kept.any (·.length = bs.length) then kept else bs :: kept) []

mutual

/-- What can be left of `bs` after a match of a piece at its start. -/
def restsOfPiece : Piece → Bytes → List Bytes
  | .byte b, bs => match bs with
    | c :: bs => if b = c then [bs] else []
    | [] => []
  | .any, bs => match bs with
    | c :: bs => if c = slash then [] else [bs]
    | [] => []
  | .star, bs => afterNonSlashes bs
  | .leadingDirs, bs => distinct (bs :: afterSlashes bs)
  | .innerDirs, bs => match bs with
    | c :: bs => if c = slash then distinct (bs :: afterSlashes bs) else []
    | [] => []
  | .trailingDirs, bs => match bs with
    | c :: bs => if c = slash then tails bs else []
    | [] => []
  | .set negated ranges, bs => match bs with
    | c :: bs => if (ranges.any fun (lo, hi) => lo ≤ c && c ≤ hi) = negated then [] else [bs]
    | [] => []
  | .oneOf branches, bs => if branches.isEmpty then [bs] else restsOfBranches branches bs

/-- What can be left of `bs` after a match of one of the globs at its start. -/
def restsOfBranches : List (List Piece) → Bytes → List Bytes
  | [], _ => []
  | branch :: branches, bs => restsOfPieces branch [bs] ++ restsOfBranches branches bs

/-- What can be left of the given rests after a match of the pieces at the start of one. -/
def restsOfPieces : List Piece → List Bytes → List Bytes
  | [], rests => rests
  | p :: pieces, rests => restsOfPieces pieces (distinct (rests.flatMap (restsOfPiece p)))

end

/-- Whether a glob matches a whole path. Directories alone match everything. -/
def accepts (glob : Glob) (path : Bytes) : Bool :=
  match glob with
  | [.leadingDirs] => true
  | glob => (restsOfPieces glob [path]).any (·.isEmpty)

/-! ## Parsing -/

/-- The pieces of a character. -/
def literal (c : Char) : List Piece := (String.utf8EncodeChar c).map .byte

/-- A set in the making: the ranges in reverse, and whether a hyphen has started one. -/
structure SetDraft where
  ranges : List (Char × Char) := []
  inRange : Bool := false

/-- The set with one more character. A range must not run backwards. -/
def SetDraft.add? (d : SetDraft) (c : Char) : Option SetDraft :=
  match d.inRange, d.ranges with
  | true, (lo, _) :: ranges => if c < lo then none else some ⟨(lo, c) :: ranges, false⟩
  | _, ranges => some ⟨(c, c) :: ranges, false⟩

/-- The ranges of a complete set. A hyphen at the end stands for itself. -/
def SetDraft.finish (d : SetDraft) : List (Char × Char) :=
  (if d.inRange then ('-', '-') :: d.ranges else d.ranges).reverse

/-- How a set ends. -/
inductive SetResult where
  /-- The text after the set, and its ranges. -/
  | closed (rest : Text) (ranges : List (Char × Char))
  | unclosed
  | backwards

/-- Reads a set up to its bracket. The bracket and the hyphen stand for themselves at the start. -/
def readSet : (first : Bool) → SetDraft → Text → SetResult
  | _, _, [] => .unclosed
  | first, d, c :: t =>
    if c = ']' && !first then .closed t d.finish
    else if c = '-' && !first && !d.inRange then readSet false { d with inRange := true } t
    else match d.add? c with
      | some d => readSet false d t
      | none => .backwards

/-- The byte ranges of a range of characters. A character of several bytes counts as each of its
bytes. -/
def byteRanges (lo hi : Char) : List (UInt8 × UInt8) :=
  if lo = hi then (String.utf8EncodeChar lo).map fun b => (b, b)
  else
    let los := String.utf8EncodeChar lo
    let his := String.utf8EncodeChar hi
    los.dropLast.map (fun b => (b, b)) ++ [(los.getLastD 0, his.headD 0)] ++
      his.tail.map fun b => (b, b)

/-- A pattern in the making. -/
structure Draft where
  /-- The open branches, the innermost first, with their pieces in reverse. -/
  branches : List (List Piece) := [[]]
  /-- The number of branches that were open where each open brace stands, the innermost first. -/
  braces : List Nat := []
  /-- Whether a bracket was found that nothing closes. -/
  unclosed : Bool := false

namespace Draft

/-- The pattern with more pieces at the end of its innermost branch. -/
def push (d : Draft) (pieces : List Piece) : Draft :=
  match d.branches with
  | [] => d
  | b :: bs => { d with branches := (pieces.reverse ++ b) :: bs }

/-- Whether the innermost branch is empty. -/
def atStart (d : Draft) : Bool := d.branches.head?.all (·.isEmpty)

/-- The pattern with the last piece of its innermost branch replaced. Directories at the start and
at the end stay. -/
def replaceLast (d : Draft) (piece : Piece) : Draft :=
  match d.branches with
  | (.leadingDirs :: _) :: _ | (.trailingDirs :: _) :: _ => d
  | (_ :: b) :: bs => { d with branches := (piece :: b) :: bs }
  | _ => d

/-- Whether a glob is the empty text. -/
def isVoid (glob : List Piece) : Bool := glob.all fun | .oneOf [] => true | _ => false

/-- Closes the innermost brace. -/
def close? (d : Draft) : Option Draft :=
  match d.braces with
  | [] => none
  | n :: braces =>
    let count := d.branches.length - n
    let alternatives := (d.branches.take count).reverse.map List.reverse
    some ({ d with branches := d.branches.drop count, braces }.push
      [.oneOf (alternatives.filter (!isVoid ·))])

end Draft

/-- What two stars mean, after the character `last?` and before the text `t`, and the text that
follows them. -/
def doubleStar (d : Draft) (last? : Option Char) (t : Text) : Draft × Text :=
  let plain := (d.push [.star, .star], t)
  if d.atStart then
    match t with
    | [] => (d.push [.leadingDirs], [])
    | '/' :: t => (d.push [.leadingDirs], t)
    | _ => plain
  else if last? ≠ some '/' &&
      (d.branches.length ≤ 1 || (last? ≠ some ',' && last? ≠ some '\x7b')) then
    plain
  else match t with
    | [] => (d.replaceLast .trailingDirs, [])
    | '/' :: t => (d.replaceLast .innerDirs, t)
    | c :: t =>
      if (c = ',' || c = '\x7d') && 2 ≤ d.branches.length then (d.replaceLast .trailingDirs, c :: t)
      else plain

/-- Reads a pattern after the character `last?`. The fuel bounds the number of steps, and the length
of the pattern is enough. -/
def parseFrom : (fuel : Nat) → Draft → (last? : Option Char) → Text → Option Draft
  | _, d, _, [] => some d
  | 0, _, _, _ :: _ => none
  | fuel + 1, d, last?, c :: t =>
    match c with
    | '?' => parseFrom fuel (d.push [.any]) (some c) t
    | '*' =>
      match t with
      | '*' :: t =>
        let (d, rest) := doubleStar d last? t
        parseFrom fuel d (some (if rest.length < t.length then '/' else '*')) rest
      | t => parseFrom fuel (d.push [.star]) (some c) t
    | '[' =>
      if d.unclosed then parseFrom fuel (d.push (literal c)) (some c) t
      else
        let (negated, body) := match t with
          | '!' :: t => (true, t)
          | '^' :: t => (true, t)
          | t => (false, t)
        match readSet true {} body with
        | .closed rest ranges =>
          parseFrom fuel (d.push [.set negated (ranges.flatMap fun (lo, hi) => byteRanges lo hi)])
            (some ']') rest
        | .unclosed => parseFrom fuel ({ d with unclosed := true }.push (literal c)) (some c) t
        | .backwards => none
    | '\x7b' =>
      parseFrom fuel
        { d with branches := [] :: d.branches, braces := d.branches.length :: d.braces } (some c) t
    | '\x7d' => d.close?.bind fun d => parseFrom fuel d (some c) t
    | ',' =>
      let d :=
        if d.braces.isEmpty then d.push (literal c) else { d with branches := [] :: d.branches }
      parseFrom fuel d (some c) t
    | '\\' =>
      match t with
      | [] => none
      | c :: t => parseFrom fuel (d.push (literal c)) (some c) t
    | c => parseFrom fuel (d.push (literal c)) (some c) t

/-- The pieces of a pattern. A brace that does not match and a backslash at the end are refused. -/
def parse? (t : Text) : Option Glob := do
  let d ← parseFrom t.length {} none t
  match d.branches with
  | [pieces] => some pieces.reverse
  | _ => none

end Glob

end Unreached
