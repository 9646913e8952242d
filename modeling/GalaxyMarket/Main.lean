import GalaxyMarket.Report

/-!
# The program

Prints the price report on the data directory that is named on the command line, or on the built-in
galaxy.
-/

namespace GalaxyMarket

/-- The names of all files that a data directory may hold. -/
def dataFileNames : List String :=
  ["commodities", "factions", "systems", "economy"].flatMap fun base =>
    Format.all.map fun format => base ++ "." ++ format.extension

/-- What there is at a path. -/
def readFile? (path : String) : IO (Option File) := do
  try
    return some (.ofBytes (← IO.FS.readBinFile path))
  catch
    | .noFileOrDirectory .. => return none
    | _ => return some .unreadable

/-- Reads a data directory. -/
def readFolder (path : String) : IO Folder := do
  let mut entries : List (String × File) := []
  for name in dataFileNames do
    if let some file ← readFile? (path ++ "/" ++ name) then
      entries := (name, file) :: entries
  return { path, entries }

end GalaxyMarket

/-- Prints the report. -/
def main (args : List String) : IO UInt32 := do
  let folder? ← args.head?.mapM GalaxyMarket.readFolder
  let outcome := GalaxyMarket.Report.run folder?
  for line in outcome.lines do
    IO.println line
  if let some complaint := outcome.complaint? then
    IO.eprintln complaint
  return outcome.exitCode
