import Tabular.Text.Content

/-!
# Files and directories

A tree of files as a list of places, with a place from which paths lead that do not start at the root. A
path leads through directories: an empty name or `.` stays where it is, `..` goes back, and every step
has to start from a directory.
-/

namespace Tabular

open Text

inductive Entry where
  | directory
  | file (content : Content)
deriving DecidableEq

abbrev Place := List String

/-- The places below the root where something stands. -/
structure Files where
  entries : List (Place × Entry) := []
  /-- Where a path begins that does not begin at the root. -/
  home : Place := []
deriving DecidableEq

namespace Files

/-- What stands at a place. The root is a directory. -/
def at? (f : Files) : Place → Option Entry
  | [] => some .directory
  | p => f.entries.lookup p

def isDirectory (f : Files) (p : Place) : Bool :=
  f.at? p == some .directory

def step? (f : Files) (p : Place) (name : String) : Option Place :=
  if !f.isDirectory p then none
  else if name = "" ∨ name = "." then some p
  else if name = ".." then some p.dropLast
  else if name.contains '\x00' then none
  else some (p ++ [name])

/-- Where a path begins: at the root if it starts with a slash. -/
def start (f : Files) (path : String) : Place :=
  if path.startsWith "/" then [] else f.home

/-- The place that a path leads to, where something may stand or not. The empty path leads nowhere. -/
def place? (f : Files) (path : String) : Option Place :=
  if path = "" then none else (path.splitOn "/").foldlM f.step? (f.start path)

/-- The place that the names in a path lead to, whatever stands on the way. -/
def placeByName (f : Files) (path : String) : Place :=
  (path.splitOn "/").foldl
    (fun p name =>
      if name = "" ∨ name = "." then p else if name = ".." then p.dropLast else p ++ [name])
    (f.start path)

def open? (f : Files) (path : String) : Option Entry :=
  (f.place? path).bind f.at?

def put (f : Files) (p : Place) (e : Entry) : Files :=
  { f with entries := f.entries.filter (·.1 ≠ p) ++ [(p, e)] }

/-- Writes a file where none is or over another one, but not over a directory. -/
def write? (f : Files) (path : String) (content : Content) : Option Files := do
  let p ← f.place? path
  if f.isDirectory p then none else return f.put p (.file content)

/-- Makes the directories that lead to a place, and the place itself. -/
def makeDirectories (f : Files) (p : Place) : Files :=
  ((List.range p.length).map fun n => p.take (n + 1)).foldl
    (fun f p => if f.isDirectory p then f else f.put p .directory) f

def plant (f : Files) (p : Place) : Entry → Files
  | .directory => f.makeDirectories p
  | e => (f.makeDirectories p.dropLast).put p e

def names (f : Files) (p : Place) : List String :=
  f.entries.filterMap fun (q, _) => if q ≠ [] ∧ q.dropLast = p then q.getLast? else none

def filesIn (f : Files) (p : Place) : List (String × Content) :=
  ((f.names p).mergeSort (fun a b => !decide (b < a))).filterMap fun name =>
    match f.at? (p ++ [name]) with
    | some (.file content) => some (name, content)
    | _ => none

end Files

end Tabular
