import Montage.Picture.Folder

/-!
# Where records go

A logger has a level and hands the records that reach it to its sinks: the console, and often a
file. A `Desk` is what a run can write to: the console, the files, and the logger that is set up
now. Setting up a logger again replaces its sinks.
-/

namespace Montage

namespace Log

/-- What a sink writes to. -/
inductive Target where
  /-- The console. -/
  | console
  /-- A file, under its path cut into names. -/
  | file (names : List String)
  deriving DecidableEq, Repr

/-- A sink takes the records from its level upwards. -/
structure Sink where
  /-- What it writes to. -/
  target : Target
  /-- The lowest level that it takes. -/
  level : Int
  deriving DecidableEq, Repr

/-- A logger. -/
structure Logger where
  /-- The lowest level that it takes, zero for that of the program as a whole. -/
  level : Int
  /-- Its sinks. -/
  sinks : List Sink
  deriving DecidableEq, Repr

/-- The lowest level that a logger takes. The program as a whole takes warnings. -/
def Logger.threshold (l : Logger) : Int :=
  if l.level = 0 then warning else l.level

/-- Where a record is written. -/
def Logger.targets (l : Logger) (level : Int) : List Target :=
  if level < l.threshold then []
  else (l.sinks.filter fun s => s.level ≤ level).map (·.target)

end Log

/-- What a run can write to. -/
structure Desk where
  /-- The files. -/
  files : Folder
  /-- The text on the console. -/
  console : String
  /-- The logger. -/
  logger : Log.Logger

namespace Desk

/-- A desk with nothing on the console and no logger. -/
def fresh (files : Folder) : Desk :=
  ⟨files, "", ⟨0, []⟩⟩

/-- Writes to the console. -/
def print (d : Desk) (text : String) : Desk :=
  { d with console := d.console ++ text }

/-- Writes to a target. -/
def write (d : Desk) (text : String) : Log.Target → Desk
  | .console => d.print text
  | .file names => { d with files := d.files.appendText names text }

/-- Hands a record to the logger. -/
def log (d : Desk) (r : Log.Record) : Desk :=
  (d.logger.targets r.level).foldl (fun d target => d.write r.entry target) d

/-- Sets up the logger with a level, and with a file where a path is given that is not empty. -/
def setUp (d : Desk) (level : Int) (path : Option String) : Except PathFault Desk := do
  let console : Log.Sink := ⟨.console, level⟩
  let path := path.getD ""
  if path = "" then
    let ready := { d with logger := ⟨level, [console]⟩ }
    return ready.log (Event.started level).record
  let (names, files) ← d.files.createText path
  let ready := { d with files, logger := ⟨level, [console, ⟨.file names, level⟩]⟩ }
  return ready.log (Event.started level).record

end Desk

end Montage
