import Tabular.CommandLine

/-!
# The program

Looks at the files that a command names, carries the command out and writes what has changed.
-/

namespace Tabular.CommandLine

open Text

/-- Adds the file at a path to the known files, if there is one. -/
def lookAtFile (files : Files) (p : Place) (path : String) : IO Files := do
  try
    let bytes ← IO.FS.readBinFile path
    return files.plant p (.file (Content.ofBytes bytes.toList))
  catch _ => return files

/-- Adds the directory at a path to the known files, if there is one, and what is in it if wanted. -/
def lookAtDirectory (files : Files) (withFiles : Bool) (path : String) : IO Files := do
  let p := files.placeByName path
  try
    let found ← ((← IO.currentDir) / path).readDir
    let files := files.plant p .directory
    if withFiles then
      found.foldlM (fun files e => lookAtFile files (p ++ [e.fileName]) e.path.toString) files
    else return files
  catch _ => return files

def lookAt (files : Files) (path : String) : IO Files := do
  lookAtDirectory (← lookAtFile files (files.placeByName path) path) true path

def directoryOf (path : String) : String :=
  match (path.splitOn "/").reverse with
  | _ :: name :: names => "/".intercalate (names.reverse ++ [name]) ++ "/"
  | _ => "."

/-- The known files that a command may look at. -/
def survey (files : Files) : Command → IO Files
  | .check catalog _ => lookAt files catalog
  | .ddl catalog => lookAt files catalog
  | .migrate _ db catalog => do
    let files ← lookAtDirectory (← lookAt files catalog) false (directoryOf db)
    lookAt files db

/-- Writes the database of a command if it has changed. -/
def store (before after : Files) : Command → IO Unit
  | .migrate _ db _ => do
    let p := before.placeByName db
    match after.at? p with
    | some (.file content) =>
      if before.at? p ≠ some (.file content) then IO.FS.writeFile db ((Content.text? content).getD "")
    | _ => pure ()
  | _ => pure ()

end Tabular.CommandLine

open Tabular Tabular.CommandLine in
def main (words : List String) : IO UInt32 := do
  let here ← IO.currentDir
  let home := (here.toString.splitOn "/").filter (· ≠ "")
  let files := ({ home := home } : Files).makeDirectories home
  let files ← match Request.ofWords words with
    | .run c => survey files c
    | _ => pure files
  let outcome := CommandLine.run files words
  match Request.ofWords words with
  | .run c => store files outcome.files c
  | _ => pure ()
  IO.print outcome.stdout
  IO.eprint outcome.stderr
  return UInt32.ofNat outcome.code
