/-!
# Log records

A record has a channel, a level and a message. Levels are whole numbers, some of which have names; a
record passes a threshold when its level is not below it.
-/

namespace Montage.Log

/-- The level of records about single steps. -/
def debug : Int := 10

/-- The level of records about results. -/
def info : Int := 20

/-- The level of records about things that were ignored. -/
def warning : Int := 30

/-- The levels that have names; where one level has two names, the first is the one that is
shown. -/
def levelNames : List (String × Int) :=
  [("CRITICAL", 50), ("FATAL", 50), ("ERROR", 40), ("WARNING", warning), ("WARN", warning),
    ("INFO", info), ("DEBUG", debug), ("NOTSET", 0)]

/-- The level with a name. -/
def levelOfName? (name : String) : Option Int :=
  (levelNames.find? (·.1 == name)).map (·.2)

/-- The name of a level. -/
def levelName (level : Int) : String :=
  match levelNames.find? (·.2 == level) with
  | some (name, _) => name
  | none => s!"Level {level}"

/-- One record. -/
structure Record where
  /-- The part of the program that the record comes from. -/
  channel : String
  /-- The level. -/
  level : Int
  /-- The message. -/
  message : String
  /-- Lines that follow the message in a log, each with its line end. -/
  attachment : String
  deriving DecidableEq, Repr

/-- A record on one line. -/
def Record.summary (r : Record) : String :=
  r.channel ++ " " ++ levelName r.level ++ " " ++ r.message

/-- A record as it stands in a log; the time of day is left out. -/
def Record.entry (r : Record) : String :=
  r.channel ++ " - " ++ levelName r.level ++ " - " ++ r.message ++ "\n" ++ r.attachment

end Montage.Log
