import Montage.Expression.Render
import Montage.Picture.Encode
import Montage.Picture.Folder
import Montage.Settings
import Montage.Studio

/-!
# Composing an image

The whole way from the text of an expression and the paths of images to the encoded result. The text
is compiled before any image is read, and nothing is encoded before all else has succeeded. What
happens on the way is told as `Message`s: records, and text that is shown right away.
-/

namespace Montage

/-- Something told on the way. -/
inductive Message where
  /-- An event. -/
  | event (event : Event)
  /-- Text for the console. -/
  | shown (text : String)

/-- Why an image could not be composed. -/
inductive Failure where
  /-- The text could not be compiled. -/
  | compile (fault : Fault)
  /-- An image could not be read. -/
  | load (fault : LoadFault)
  /-- An operation failed. -/
  | evaluate (fault : EvalFault Raster.Fault)
  /-- The result could not be encoded. -/
  | encode (fault : EncodeFault)

/-- The text of a fault of compiling. A rejection that cannot be described is a fault of its own. -/
def Fault.message : Fault → String
  | rejected r =>
    match r.describe with
    | .ok _ => r.message
    | .error fault => fault.message
  | buffer f => f.message
  | missingWord f => f.message "list"
  | numeral f => f.message

/-- The text of a fault in words. -/
def WordFault.message : WordFault → String
  | malformed fault => fault.message.toOption.getD ""
  | numeral fault => fault.message

/-- The text of a fault of evaluating. -/
def EvalFault.message : EvalFault Raster.Fault → String
  | words fault => fault.message
  | operation error => error.message

/-- The text of a failure. -/
def Failure.message : Failure → String
  | compile fault => fault.message
  | load fault => fault.message
  | evaluate fault => fault.message
  | encode fault => fault.message

/-- Whether a failure is the user's to mend. The others mean that the program is at odds with itself
or with its settings. -/
def Failure.isReported : Failure → Bool
  | compile (.rejected r) => r.describe.isOk
  | compile _ => false
  | load (.broken _) => false
  | load _ => true
  | evaluate (.operation (.tooLarge _ _ _)) => true
  | evaluate _ => false
  | encode _ => true

/-- A result, and all that was told. -/
structure Telling (α : Type) where
  /-- The result. -/
  result : α
  /-- What was told, first told first. -/
  messages : List Message

/-- The words of a compiled expression and its drawing, where they are wanted. -/
def drawing (wanted : Bool) (words : List Int) : Except WordFault (List Message) := do
  if !wanted then return []
  let tree ← Words.render words
  return [.shown ("----- RAW\n" ++ Words.dump words ++ "\n----- TREE\n" ++ tree ++ "\n")]

/-- Remarks for the console. -/
def showRemarks (remarks : List String) : List Message :=
  remarks.map fun remark => .shown (remark ++ "\n")

/-- Reads the images under several paths, the first of which has the number `index`. A remark that
was printed before is not printed again. -/
def loadAll (files : Folder) (printed : List String) :
    Nat → List String → Telling (Except LoadFault (List Raster))
  | _, [] => ⟨.ok [], []⟩
  | index, path :: rest =>
    let (remarks, result) := files.load path
    let fresh := remarks.filter (!printed.contains ·)
    let start := Message.event (.loading index path) :: showRemarks fresh
    match result with
    | .error fault => ⟨.error fault, start⟩
    | .ok decoded =>
      let others := loadAll files (printed ++ fresh) (index + 1) rest
      let event := Event.loaded path decoded.image.width decoded.image.height decoded.mode
      ⟨others.result.map (decoded.image :: ·), start ++ .event event :: others.messages⟩

variable [Imaging]

/-- Evaluates a compiled expression on images of their own. -/
def evaluateOn (limit : Int) (images : List Raster) (words : List Int) :
    Telling (Except (EvalFault Raster.Fault) Raster) :=
  let studio : Studio := ⟨images.toArray, #[]⟩
  let places := Array.range images.length
  let (result, after) := (Studio.evaluate limit places words).run studio
  ⟨result.map after.picture, after.events.toList.map .event⟩

/-- Evaluates a compiled expression and encodes the result. -/
def finish (s : Settings) (format : String) (images : List Raster) (words : List Int) :
    Telling (Except Failure EncodedImage) :=
  let evaluated := evaluateOn s.maxPixels images words
  match evaluated.result with
  | .error fault => ⟨.error (.evaluate fault), evaluated.messages⟩
  | .ok image =>
    let size := Message.event (.finished image.width image.height)
    ⟨(image.encode s.formats format).mapError .encode, evaluated.messages ++ [size]⟩

/-- Composes an image. -/
def compose (s : Settings) (files : Folder) (expression : String) (paths : List String)
    (showTree : Bool) (format : String) : Telling (Except Failure EncodedImage) :=
  let (compiled, events) := s.compile expression (some paths.length)
  let told := events.toList.map Message.event
  match compiled with
  | .error fault => ⟨.error (.compile fault), told⟩
  | .ok encoded =>
    let words := encoded.words.toList
    match drawing showTree words with
    | .error fault => ⟨.error (.evaluate (.words fault)), told⟩
    | .ok tree =>
      let loaded := loadAll files [] 0 paths
      let told := told ++ tree ++ loaded.messages
      match loaded.result with
      | .error fault => ⟨.error (.load fault), told⟩
      | .ok images =>
        let done := finish s format images words
        ⟨done.result, told ++ done.messages⟩

end Montage
