import Montage.Expression.Compile
import Montage.Log.Event
import Montage.Text.Uppercase

/-!
# Settings

The limits and formats of the program. Each has a value of its own that a variable of the
environment can replace; a variable that does not hold what is asked for is ignored, and that is
noted. The main statement, `readPositive_pos`, says that a limit read from the environment is
positive.
-/

namespace Montage

/-- The limits and formats of the program. -/
structure Settings where
  /-- The most words of a compiled expression. -/
  bufferCapacity : Int
  /-- How many overlays may be open at a time. -/
  maxDepth : Int
  /-- The largest number in an expression. -/
  maxNumber : Int
  /-- The most pixels of a picture. -/
  maxPixels : Int
  /-- The formats that a result can be written in. -/
  formats : List String
  /-- The format that a result is written in. -/
  outputFormat : String
  /-- The level from which on records are kept. -/
  logLevel : Int
  deriving DecidableEq, Repr

/-- The formats that keep every sample. -/
def losslessFormats : List String :=
  ["PNG", "TIFF", "BMP"]

/-- The settings where the environment is silent. -/
def Settings.standard : Settings where
  bufferCapacity := 1024
  maxDepth := 64
  maxNumber := 2147483647
  maxPixels := 268435456
  formats := losslessFormats
  outputFormat := "PNG"
  logLevel := Log.warning

/-- The limits of an expression on so many images. -/
def Settings.limits (s : Settings) (imageCount : Option Int) : Limits :=
  ⟨imageCount, s.maxDepth, s.maxNumber⟩

/-- Compiles a text within the settings, and tells what happened. -/
def Settings.compile (s : Settings) (text : String) (imageCount : Option Int) :
    Except Fault Encoded × Array Event :=
  let done := Montage.compile ⟨text, s.limits imageCount⟩ s.bufferCapacity
  let events := #[.compiling text] ++ done.journal.map .changed
  match done.result with
  | .ok encoded => (.ok encoded, events.push (.compiled text encoded.words.size))
  | .error fault => (.error fault, events)

/-! ## Reading the environment -/

/-- A value, and what was noted while it was read. -/
abbrev Noted (α : Type) := α × List Event

/-- Whether a variable is unset or holds nothing but blanks. -/
def unsetOrBlank : Option String → Bool
  | none => true
  | some raw => Text.isAllBlank raw

/-- A positive whole number from a variable. -/
def readPositive (name : String) (raw : Option String) (default : Int) : Noted Int :=
  let text := raw.getD ""
  if unsetOrBlank raw then (default, [])
  else match Numeral.readInteger? text with
    | none => (default, [.ignored name text (.notAnInteger default)])
    | some n =>
      if n ≤ 0 then (default, [.ignored name text (.notPositive default)])
      else (n, [])

/-- One of several choices from a variable, in upper case. -/
def readChoice (name : String) (raw : Option String) (default : String) (choices : List String) :
    Noted String :=
  let text := raw.getD ""
  if unsetOrBlank raw then (default, [])
  else
    let value := Text.uppercase (Text.strip text)
    if choices.contains value then (value, [])
    else (default, [.ignored name text (.noChoice choices default)])

/-- A log level from a variable that holds its name. -/
def readLevel (name : String) (raw : Option String) (default : Int) : Noted Int :=
  let text := raw.getD ""
  if text = "" then (default, [])
  else match Log.levelOfName? (Text.uppercase (Text.strip text)) with
    | some level => (level, [])
    | none => (default, [.ignored name text .unknownLevel])

/-- The variables of the environment that are read. -/
def Settings.variables : List String :=
  ["IMFX_BUFFER_CAPACITY", "IMFX_MAX_NESTING_DEPTH", "IMFX_MAX_NUMBER", "IMFX_MAX_IMAGE_PIXELS",
    "IMFX_OUTPUT_FORMAT", "IMFX_LOG_LEVEL"]

/-- The settings of an environment. -/
def Settings.load (env : String → Option String) : Noted Settings :=
  let own := Settings.standard
  let number (name : String) (default : Int) := readPositive name (env name) default
  let (bufferCapacity, notes₁) := number "IMFX_BUFFER_CAPACITY" own.bufferCapacity
  let (maxDepth, notes₂) := number "IMFX_MAX_NESTING_DEPTH" own.maxDepth
  let (maxNumber, notes₃) := number "IMFX_MAX_NUMBER" own.maxNumber
  let (maxPixels, notes₄) := number "IMFX_MAX_IMAGE_PIXELS" own.maxPixels
  let formatName := "IMFX_OUTPUT_FORMAT"
  let (outputFormat, notes₅) := readChoice formatName (env formatName) own.outputFormat own.formats
  let levelName := "IMFX_LOG_LEVEL"
  let (logLevel, notes₆) := readLevel levelName (env levelName) own.logLevel
  ({ own with bufferCapacity, maxDepth, maxNumber, maxPixels, outputFormat, logLevel },
    notes₁ ++ notes₂ ++ notes₃ ++ notes₄ ++ notes₅ ++ notes₆)

/-- A number read from the environment is positive if the value that it replaces is. -/
theorem readPositive_pos {name : String} {raw : Option String} {default : Int} (h : 0 < default) :
    0 < (readPositive name raw default).1 := by
  unfold readPositive
  dsimp only
  split
  · exact h
  · split
    · exact h
    · split
      · exact h
      · omega

end Montage
