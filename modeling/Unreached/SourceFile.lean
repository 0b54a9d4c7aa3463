import Unreached.Path.Segments

/-!
# Source files

A source file is known by its name and by its path below the project root.
-/

namespace Unreached

set_option autoImplicit false

/-- The extensions of source files. -/
def sourceExtensions : List Text := ["js", "ts", "jsx", "tsx"].map String.toList

/-- A source file of the project. -/
structure SourceFile where
  /-- The file name with its extension. -/
  name : Text
  /-- The path from the project root, which starts with a slash. -/
  path : Text
deriving DecidableEq, Repr

namespace SourceFile

/-- The file at `path`. -/
def ofPath (path : Text) : SourceFile := ⟨Path.namePart path, path⟩

/-- The path without its extension. -/
def stem (file : SourceFile) : Text := Path.stem file.path

end SourceFile

end Unreached
