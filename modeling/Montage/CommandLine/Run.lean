import Montage.CommandLine.Arguments
import Montage.CommandLine.Output
import Montage.Compose
import Montage.Log.Sink

/-!
# A run of the program

A run takes the arguments of a command line and ends with what has come to its output, the desk with
the console and the files, and the fault that it failed with, if any. Most faults are reported on
the console in one line; the others break the run off. The output is written once, when the result
is complete. The exit code is 0 for success and 1 for a fault, and 120 where bytes were still held
back when the run was over and were refused then.
-/

namespace Montage.CommandLine

/-- The lines of the help. -/
def helpLines : List String :=
  ["usage: imfx [-h] [-v] [--log-file LOG_FILE] [--tree]",
    "            expression image [image ...]",
    "",
    "Compose images with a one-line expression, e.g.",
    "'0.fl(640x480).gb(150).pi(1.ft(200x200))'.",
    "",
    "positional arguments:",
    "  expression           composition expression",
    "  image                input images, referenced as 0, 1, ... 9",
    "",
    "options:",
    "  -h, --help           show this help message and exit",
    "  -v, --verbose        log debug output to stderr",
    "  --log-file LOG_FILE  also write the log to this file",
    "  --tree               print the encoded expression to stderr"]

/-- The help. -/
def helpText : String :=
  String.join (helpLines.map (· ++ "\n"))

/-- Why a run fails. -/
inductive RunFault where
  /-- The arguments are refused. -/
  | usage (fault : UsageFault)
  /-- The file for the records cannot be written. -/
  | logFile (path : String) (fault : PathFault)
  /-- No image could be composed. -/
  | composition (failure : Failure)
  /-- The help cannot be written. -/
  | help (fault : DeviceFault)
  /-- The result cannot be written. -/
  | output (fault : OutputFault)

namespace RunFault

/-- Whether a fault is reported in one line; any other fault breaks the run off. -/
def isReported : RunFault → Bool
  | usage _ => true
  | logFile _ _ => false
  | composition failure => failure.isReported
  | help _ => false
  | output .missing => false
  | output (.refused _) => true

/-- The text of a fault. -/
def message : RunFault → String
  | usage fault => "error: " ++ fault.message ++ " (usage: imfx <expression> <image>...)"
  | logFile path fault => fault.reason path
  | composition failure => failure.message
  | help fault => fault.reason
  | output .missing => "'NoneType' object has no attribute 'buffer'"
  | output (.refused fault) => "cannot write result: " ++ fault.reason

/-- The lines that tell where a run broke off. -/
def trace (f : RunFault) : String :=
  "Traceback (most recent call last):\n" ++ f.message ++ "\n"

/-- What the console shows of a fault. -/
def diagnostic (f : RunFault) : String :=
  if f.isReported then "imfx: " ++ f.message ++ "\n" else f.trace

end RunFault

/-- What the console shows of bytes that a device has refused when the run was over. -/
def DeviceFault.notice (fault : DeviceFault) : String :=
  "Exception ignored in: <_io.TextIOWrapper name='<stdout>' mode='w' encoding='utf-8'>\n" ++
    fault.kind ++ ": " ++ fault.reason ++ "\n"

/-- What carries a run out. -/
structure Host where
  /-- How it reads the arguments. -/
  dialect : Dialect
  /-- Its attempts to hand on what the output still holds when the run is over; for each of them,
  whether a failure is reported. -/
  attempts : List Bool
  deriving DecidableEq, Repr

/-- The end of a run. -/
structure Ending where
  /-- Why the run failed, if it did. -/
  fault : Option RunFault
  /-- The bytes that have come to the device. -/
  sent : List UInt8
  /-- The reports that bytes were refused when the run was over. -/
  lost : List DeviceFault
  /-- The console and the files. -/
  desk : Desk

/-- The exit code, zero for success. -/
def Ending.code (e : Ending) : Nat :=
  if !e.lost.isEmpty then 120 else if e.fault.isNone then 0 else 1

/-- Writes down a message. -/
def tell (d : Desk) : Message → Desk
  | .event e => d.log e.record
  | .shown text => d.print text

/-- Notes that no image could be composed, unless that breaks the run off. -/
def noteFailure (d : Desk) (f : RunFault) : Desk :=
  if f.isReported then d.log (Event.abandoned f.trace).record else d

namespace Host

variable (host : Host)

/-- Ends a run. -/
def leave (d : Desk) (fault : Option RunFault) (queue : Queue) : Ending :=
  let settled := queue.settle host.attempts
  let desk := settled.1.foldl (fun d fault => d.print fault.notice) d
  ⟨fault, settled.2.device.taken, settled.1, desk⟩

/-- Ends a run with a fault. -/
def abandon (d : Desk) (fault : RunFault) (queue : Queue) : Ending :=
  host.leave (d.print fault.diagnostic) (some fault) queue

/-- Ends a run with the help. Without an output the console shows it. -/
def giveHelp (d : Desk) (output : Output) : Ending :=
  match output.writeText helpText with
  | (none, queue) => host.leave d none queue
  | (some .missing, queue) => host.leave (d.print helpText) none queue
  | (some (.refused fault), queue) =>
    if host.dialect.dropsHelp then host.leave d none queue else host.abandon d (.help fault) queue

variable [Imaging]

/-- Ends a run with a result or with the reason why there is none. -/
def conclude (d : Desk) (output : Output) : Except Failure EncodedImage → Ending
  | .ok image =>
    match output.write (Imaging.bytes image) with
    | (none, queue) => host.leave d none queue
    | (some fault, queue) => host.abandon d (.output fault) queue
  | .error failure =>
    let fault := RunFault.composition failure
    host.abandon (noteFailure d fault) fault output.start

/-- Runs the program. -/
def run (s : Settings) (files : Folder) (args : List String) (output : Output) : Ending :=
  let desk := Desk.fresh files
  match Request.ofArgs host.dialect args with
  | .error fault => host.abandon desk (.usage fault) output.start
  | .ok .help => host.giveHelp desk output
  | .ok (.compose expression images verbose tree logFile) =>
    match desk.setUp (if verbose then Log.debug else s.logLevel) logFile with
    | .error fault => host.abandon desk (.logFile (logFile.getD "") fault) output.start
    | .ok desk =>
      let told := compose s desk.files expression images tree s.outputFormat
      host.conclude (told.messages.foldl tell desk) output told.result

end Host

end Montage.CommandLine
