import Unreached.Inventory

/-!
# Entry points and exclusions

Files that the routing conventions load need no import: `isEntryPoint` tells them by their path.
`isExcluded` tells the files that are never reported: tooling configuration, names without a dot,
and build output.
-/

namespace Unreached

set_option autoImplicit false

/-- The ends of the paths of routing entry points. -/
def entrySuffixes : List Text :=
  ["root.tsx", "index.tsx", "layout.tsx", "index.ts", "layout.ts"].map String.toList

/-- The texts that make a `.tsx` path a variant of a route. -/
def variantMarkers : List Text := ["index@", "layout-", "plugin-"].map String.toList

/-- The names of framework and tooling files, which are loaded by convention. -/
def conventionalNames : List Text :=
  ["entry.express.tsx", "entry.ssr.tsx", "entry.dev.tsx", "entry.preview.tsx", "service-worker.ts",
    "router-head.tsx", "tailwind.config.ts", "tailwind.config.js", "vite.config.ts",
    "vite.config.js", "postcss.config.js"].map String.toList

/-- The directories of build output, below the root. -/
def outputDirs : List Text := ["/dist/", "/server/"].map String.toList

/-- Whether a path is an entry point by the routing conventions or by one of the extra markers. An
empty marker marks nothing. -/
def isEntryPoint (markers : List Text) (path : Text) : Bool :=
  entrySuffixes.any path.endsWith
    || (path.endsWith ".tsx".toList && variantMarkers.any path.includes)
    || markers.any fun m => !m.isEmpty && path.includes m

/-- Whether a file is never reported. -/
def isExcluded (file : SourceFile) : Bool :=
  conventionalNames.contains file.name || !file.name.contains '.' ||
    outputDirs.any file.path.startsWith

/-- The entry points of an inventory, in its order. -/
def Inventory.entryPoints (inv : Inventory) (markers : List Text) : List SourceFile :=
  inv.files.filter fun f => isEntryPoint markers f.path

/-- The files of an inventory that can be reported. -/
def Inventory.candidates (inv : Inventory) : Inventory := inv.filter fun f => !isExcluded f

end Unreached
