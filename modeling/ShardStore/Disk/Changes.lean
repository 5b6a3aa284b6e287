import ShardStore.Disk
/-!
# Disk — what has changed

The steps that turn one disk into a later one, for a disk that was worked
on in memory. A file is written beside its place and then moved onto it,
so that its place never holds a part of it. No step makes a link, and the
disk that was worked on need not hold any: what a real link leads to can
stand in its place.
-/

namespace ShardStore

namespace Location

/-- The absolute path of a location. -/
def path (location : Location) : String :=
  "/" ++ "/".intercalate location

end Location

namespace Entry

/-- The steps that make an entry at a path. -/
def steps (path : String) : Entry → List DiskStep
  | directory => [.makeDirectories path]
  | file content => [.writeFile (path ++ ".tmp") content, .renameFile (path ++ ".tmp") path]

end Entry

namespace Node

/-- The steps that make what is at a location itself, if there are any. -/
def steps (path : String) : Node → List DiskStep
  | entry found => found.steps path
  | link _ => []

end Node

namespace Disk

/-- The steps that make what `later` has and `disk` has not. A directory
comes before what is in it. -/
def changesTo (disk later : Disk) : List DiskStep :=
  later.nodes.toList.flatMap fun (location, node) =>
    if disk.nodes[location]? = some node then [] else node.steps (Location.path location)

end Disk

end ShardStore
