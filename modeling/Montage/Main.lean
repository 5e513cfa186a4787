import Montage.CommandLine.Run
import Montage.Imaging.Standard
import Montage.Picture.Pixmap

/-!
# The command line

Reads the environment and the files that the arguments name, runs the program, and writes the files
and the output that the run ends with.
-/

namespace Montage.CommandLine

/-- The paths that an argument may name: itself, what stands behind an equals sign, and the folders
on the way there. -/
def pathsIn (arg : String) : List (List String) :=
  [arg, "=".intercalate ((arg.splitOn "=").drop 1)].flatMap fun path =>
    let parts := path.splitOn "/"
    let starts := (List.range parts.length).map fun n => "/".intercalate (parts.take (n + 1))
    (starts.map Path.normalize).filter fun names => !names.isEmpty

/-- What lies on the disk under a path. -/
def readEntry (names : List String) : IO (Option Entry) := do
  let path := Path.text names
  try
    let bytes ← IO.FS.readBinFile path
    match Pixmap.read? bytes with
    | some file => return some (.image [] (.done file.decode))
    | none => return some (.text ((String.fromUTF8? bytes).getD ""))
  catch
    | .noFileOrDirectory _ _ _ => return none
    | _ => return some .folder

/-- The files that the arguments name. -/
def readFolder (args : List String) : IO Folder := do
  let paths := (args.flatMap pathsIn).eraseDups
  let entries ← paths.mapM fun names => do
    return (← readEntry names).map fun entry => (names, entry)
  return entries.filterMap id

/-- The settings of the environment, with the records that tell what was ignored. -/
def readSettings : IO (Noted Settings) := do
  let values ← Settings.variables.mapM fun name => do
    return (name, ← IO.getEnv name)
  return Settings.load fun name => (values.lookup name).join

/-- How the program itself is carried out. -/
def host : Host :=
  ⟨.older, []⟩

/-- Writes the bytes of a run. -/
def writeOutput (bytes : List UInt8) : IO Unit := do
  let stdout ← IO.getStdout
  stdout.write ⟨bytes.toArray⟩
  stdout.flush

/-- Writes the text files that a run has made or changed. -/
def writeFiles (before after : Folder) : IO Unit :=
  List.forM after fun (names, entry) => do
    match entry with
    | .text contents =>
      if before.entry? names ≠ some entry then
        IO.FS.writeFile (Path.text names) contents
    | _ => return

end Montage.CommandLine

attribute [local instance] Montage.Imaging.standard

open Montage CommandLine in
/-- Runs the program on the arguments of the process. -/
def main (args : List String) : IO UInt32 := do
  let (settings, notes) ← readSettings
  for note in notes do
    IO.eprintln note.message
  let files ← readFolder args
  -- The bytes are written when they are known; where that fails, the run has failed.
  let ending := host.run settings files args (.direct [])
  let ending ←
    try
      writeOutput ending.sent
      pure ending
    catch error =>
      let fault : DeviceFault := ⟨"OSError", toString error⟩
      pure (host.run settings files args (.direct [.refuses fault]))
  IO.eprint ending.desk.console
  writeFiles files ending.desk.files
  return ending.code.toUInt32
