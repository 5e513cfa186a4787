import Montage.Buffer
import Montage.Log.Record
import Montage.Number.Decimal
import Montage.Text.Quoted

/-!
# What is worth a record

The things that happen while an expression is compiled and run. `Event.record` says which channel
and which level each of them has, and puts it into words. The time that a step takes is no part of
the result, and its record shows an `N` instead.
-/

namespace Montage

/-- Why a setting is ignored. -/
inductive Ignored where
  /-- It is no whole number; the value used instead. -/
  | notAnInteger (default : Int)
  /-- It is zero or negative; the value used instead. -/
  | notPositive (default : Int)
  /-- It is none of the choices; the value used instead. -/
  | noChoice (choices : List String) (default : String)
  /-- It names no log level. -/
  | unknownLevel
  deriving DecidableEq, Repr

/-- The text of a reason. -/
def Ignored.message : Ignored → String
  | notAnInteger default => s!"not an integer, using {default}."
  | notPositive default => s!"must be positive, using {default}."
  | noChoice choices default =>
    "expected one of " ++ ", ".intercalate choices ++ s!", using {default}."
  | unknownLevel => "unknown logging level."

/-- Something that is worth a record. -/
inductive Event where
  /-- A text is about to be compiled. -/
  | compiling (text : String)
  /-- A text was compiled. -/
  | compiled (text : String) (count : Nat)
  /-- A buffer was changed. -/
  | changed (change : Buffer.Change)
  /-- A picture was scaled. -/
  | resized (width height : Nat) (factor : Binary64) (newWidth newHeight : Nat)
  /-- A picture was drawn where it does not meet the one below. -/
  | drawnOutside
  /-- An image file was read. -/
  | loaded (path : String) (width height : Nat) (mode : String)
  /-- A step has ended; the label names it. -/
  | timed (label : String)
  /-- An image file is about to be read. -/
  | loading (index : Nat) (path : String)
  /-- The result has a size. -/
  | finished (width height : Nat)
  /-- No result could be made; the reason is attached. -/
  | abandoned (attachment : String)
  /-- Records are kept from now on, from a level upwards. -/
  | started (level : Int)
  /-- A setting of the environment is ignored. -/
  | ignored (name raw : String) (reason : Ignored)
  deriving DecidableEq, Repr

namespace Event

/-- The part of the program that an event belongs to. -/
def channel : Event → String
  | compiling _ => "imfx.lang.parser"
  | compiled _ _ => "imfx.lang.parser"
  | changed _ => "imfx.model.buffer"
  | resized _ _ _ _ _ => "imfx.backend.imaging"
  | drawnOutside => "imfx.backend.imaging"
  | loaded _ _ _ _ => "imfx.backend.imaging"
  | timed _ => "imfx.dev"
  | loading _ _ => "imfx.main"
  | finished _ _ => "imfx.main"
  | abandoned _ => "imfx.main"
  | started _ => "imfx"
  | ignored _ _ _ => "imfx.config"

/-- The level of an event. -/
def level : Event → Int
  | finished _ _ => Log.info
  | ignored _ _ _ => Log.warning
  | _ => Log.debug

/-- An event in words. -/
def message : Event → String
  | compiling text => "Parsing expression " ++ Text.quote text
  | compiled text count => "Encoded " ++ Text.quote text ++ s!" into {count} words."
  | changed change => change.message
  | resized w h factor newW newH =>
    s!"Resized {w}x{h} by " ++ Decimal.fixed 4 factor ++ s!" to {newW}x{newH}."
  | drawnOutside => "Overlay lies completely outside the base image."
  | loaded path w h mode => s!"Loaded {path} ({w}x{h}, mode {mode})."
  | timed label => label ++ ": Nµs"
  | loading index path => s!"Loading image {index} from {path}"
  | finished w h => s!"Result is {w}x{h}."
  | abandoned _ => "Composition failed."
  | started level => "Logging initialized at level " ++ Log.levelName level ++ "."
  | ignored name raw reason =>
    "Ignoring " ++ name ++ "=" ++ Text.quote raw ++ ": " ++ reason.message

/-- What follows the message of an event in a log. -/
def attachment : Event → String
  | abandoned text => text
  | _ => ""

/-- The record of an event. -/
def record (e : Event) : Log.Record :=
  ⟨e.channel, e.level, e.message, e.attachment⟩

end Event

end Montage
