import ShardStore.Failure
/-!
# Disk — paths

A path is a text with a slash between its steps. It is absolute when a
slash leads it. Empty steps and single dots say nothing, except at the
end, where they ask for a directory. Slashes after a final dot do not hide
it. A path or a step that is too long, or a path that is empty or holds a
NUL, names nothing.
-/

namespace ShardStore

/-- What the end of a path asks of the thing it names. -/
inductive PathEnd where
  /-- The last step itself. -/
  | step
  /-- Slashes after the last step. -/
  | slash
  /-- A single dot, perhaps with slashes after it. -/
  | dot
deriving DecidableEq, Repr

/-- A path, taken apart. -/
structure Path where
  absolute : Bool
  steps : List String
  ending : PathEnd
deriving DecidableEq, Repr

namespace Path

/-- The path of a name in a directory. An absolute name stands alone, and
so does a name in the directory without a name. -/
def join (directory name : String) : String :=
  if name.toList.head? = some '/' then name
  else if directory.toList.isEmpty then name
  else if directory.toList.getLast? = some '/' then directory ++ name
  else directory ++ "/" ++ name

/-- The number of bytes from which on a path is too long. -/
def maxLength : Nat := 4096

/-- The steps between the slashes of a path, empty ones included. -/
def pieces (path : String) : List String :=
  (path.toList.splitOn '/').map String.ofList

/-- Takes a path apart. -/
def parse (path : String) : Except DiskError Path :=
  if '\x00' ∈ path.toList then .error .invalidName
  else if path.toList.isEmpty then .error .notFound
  else if maxLength ≤ path.utf8ByteSize then .error .nameTooLong
  else
    let steps := pieces path
    .ok {
      absolute := path.toList.head? = some '/'
      steps := steps.filter fun step => step != "" && step != "."
      ending :=
        if (steps.filter (· != "")).getLast? = some "." then .dot
        else if steps.getLast? = some "" then .slash
        else .step }

end Path

end ShardStore
