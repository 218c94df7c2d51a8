import OpacityMigration.FileSystem.Path
import OpacityMigration.Json.Basic

/-!
# Configurations

A configuration says which tree to work on, which extensions its files have, and the names of
directories that are not entered. `Draft` is a configuration in which keys may be missing, and
`Draft.fill` takes those from another configuration.
-/

namespace OpacityMigration

/-- Where to look and which files to touch. -/
structure Config where
  root : Path
  extensions : List String
  skipDirs : List String
deriving DecidableEq, Repr

/-- A configuration in which any key may be missing. -/
structure Config.Draft where
  root : Option Path
  extensions : Option (List String)
  skipDirs : Option (List String)
deriving DecidableEq, Repr

namespace Config

/-- The configuration without a configuration file: `lib` and its `dart` files. -/
def standard : Config where
  root := .ofString "lib"
  extensions := ["dart"]
  skipDirs := []

/-- The draft in which no key is missing. -/
def draft (c : Config) : Draft :=
  ⟨some c.root, some c.extensions, some c.skipDirs⟩

/-- The configuration as a JSON value. The root has to be text. -/
def toJson (c : Config) : Json :=
  .object
    [("root", .string c.root.display),
      ("extensions", .array (c.extensions.map Json.string)),
      ("skipDirs", .array (c.skipDirs.map Json.string))]

namespace Draft

/-- The draft in which every key is missing. -/
def empty : Draft :=
  ⟨none, none, none⟩

/-- The keys of `d`, and those of `base` where `d` has none. -/
def fill (d : Draft) (base : Config) : Config where
  root := d.root.getD base.root
  extensions := d.extensions.getD base.extensions
  skipDirs := d.skipDirs.getD base.skipDirs

end Draft

end Config

end OpacityMigration
