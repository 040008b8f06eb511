/-
A document on a disk, named by the path of its root file.
-/
import Sectioning.Inclusion.Expansion
import Sectioning.Inclusion.Search

namespace Sectioning

structure Project where
  /-- The path of the root file. -/
  path : String
  /-- The extensions that the names of included files may lack. -/
  extensions : List String
  /-- Whether inclusions are followed. -/
  follow : Bool

namespace Project

/-- Where the files that the project includes are looked for. -/
def search (p : Project) (disk : Disk) : Search :=
  .ofRoot disk p.path p.extensions

/-- The build of a root file that has been read. -/
def buildFrom (p : Project) (disk : Disk) (root : Buffer) : Except Error Build :=
  (p.search disk).library.build p.follow (.ofBuffer root)

/-- Reads the root file and builds the outline. -/
def build (p : Project) (disk : Disk) : Except Error Build :=
  match disk.openBuffer p.path with
  | .error e => .error e
  | .ok root => p.buildFrom disk root

end Project

namespace Build

/-- The paths of all files that a build has read. -/
def watchedPaths (b : Build) : List String :=
  b.sources.map (·.name)

end Build
end Sectioning
