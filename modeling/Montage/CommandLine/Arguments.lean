import Montage.Text.DecimalDigit
import Montage.Text.Quoted

/-!
# Command-line arguments

The arguments name an expression and one or more images, and may hold options. Options and other
arguments mix freely. A long option may be cut short as long as it stays unambiguous, and may hold
its value behind an equals sign; short options may be run together. Two dashes end the options.
What looks like a negative number or holds a blank is no option.

Each argument is first told apart by `classify`, then `Draft.take` goes through them in order. A
run of plain arguments between two options fills the places that are still open: the expression
takes one, the images take the rest of their run. In a few points there is more than one custom; a
`Dialect` says which is followed.
-/

namespace Montage.CommandLine

/-- The options. -/
inductive Switch where
  /-- Show the help. -/
  | help
  /-- Show the records of all single steps. -/
  | verbose
  /-- Keep the records in a file. -/
  | logFile
  /-- Show the compiled expression. -/
  | tree
  deriving DecidableEq, Repr

namespace Switch

/-- The options in the order of the help. -/
def all : List Switch :=
  [help, verbose, logFile, tree]

/-- The names of an option. -/
def names : Switch → List String
  | help => ["-h", "--help"]
  | verbose => ["-v", "--verbose"]
  | logFile => ["--log-file"]
  | tree => ["--tree"]

/-- Whether an option has a value. -/
def takesValue : Switch → Bool
  | logFile => true
  | _ => false

/-- How messages name an option. -/
def label (s : Switch) : String :=
  "/".intercalate s.names

/-- All names with their options. -/
def table : List (String × Switch) :=
  all.flatMap fun s => s.names.map fun name => (name, s)

/-- The option with a name. -/
def ofName? (name : String) : Option Switch :=
  (table.find? (·.1 == name)).map (·.2)

end Switch

/-- The customs in which readers of arguments differ. -/
structure Dialect where
  /-- Short options that are run together may end with letters that are no options. Those are left
  over then, and an equals sign among them is refused. -/
  leavesLetters : Bool
  /-- Two dashes may be the value of an option. -/
  keepsDashes : Bool
  /-- Help that cannot be written is given up without a word. -/
  dropsHelp : Bool
  deriving DecidableEq, Repr

/-- The customs of older readers. -/
def Dialect.older : Dialect :=
  ⟨false, false, false⟩

/-- The customs of newer readers. -/
def Dialect.newer : Dialect :=
  ⟨true, true, true⟩

/-- Why the arguments are refused. -/
inductive UsageFault where
  /-- A shortened option may stand for several. -/
  | ambiguous (arg : String) (names : List String)
  /-- An option lacks its value. -/
  | expectedValue (switch : Switch)
  /-- An option that has no value is given one. -/
  | ignoredValue (switch : Switch) (value : String)
  /-- Arguments are missing. -/
  | missing (names : List String)
  /-- Arguments are left over. -/
  | unrecognized (args : List String)
  deriving DecidableEq, Repr

/-- The text of a fault. -/
def UsageFault.message : UsageFault → String
  | ambiguous arg names =>
    "ambiguous option: " ++ arg ++ " could match " ++ ", ".intercalate names
  | expectedValue s => "argument " ++ s.label ++ ": expected one argument"
  | ignoredValue s value =>
    "argument " ++ s.label ++ ": ignored explicit argument " ++ Text.quote value
  | missing names => "the following arguments are required: " ++ ", ".intercalate names
  | unrecognized args => "unrecognized arguments: " ++ " ".intercalate args

/-! ## Telling arguments apart -/

/-- A value that stands in the same argument as its option. -/
structure Attached where
  /-- Whether an equals sign stands before it. -/
  equals : Bool
  /-- Its characters. -/
  value : List Char
  deriving DecidableEq, Repr

/-- What an argument is. -/
inductive Piece where
  /-- No option. -/
  | plain
  /-- The two dashes that end the options. -/
  | terminator
  /-- An option by one of its names, with the value that stands in the same argument. -/
  | option (switch : Switch) (name : String) (attached : Option Attached)
  /-- It looks like an option, but there is no such option. -/
  | unknown
  deriving DecidableEq, Repr

/-- An argument cut at its first equals sign. -/
def cutAtEquals (arg : List Char) : String × Option Attached :=
  (String.ofList (arg.takeWhile (· != '=')), (arg.dropWhile (· != '=')).tail?.map (⟨true, ·⟩))

/-- The options that an argument may stand for, though it is not the name of any. -/
def candidates (arg : List Char) : List (Switch × String × Option Attached) :=
  match arg with
  | '-' :: '-' :: _ =>
    let (start, attached) := cutAtEquals arg
    (Switch.table.filter (·.1.startsWith start)).map fun (name, s) => (s, name, attached)
  | '-' :: c :: value =>
    Switch.table.filterMap fun (name, s) =>
      if name = String.ofList ['-', c] then some (s, name, some ⟨false, value⟩)
      else if name.startsWith (String.ofList arg) then some (s, name, none)
      else none
  | _ => []

/-- Whether a text is a run of digits of any script. -/
def isDigitRun (s : List Char) : Bool :=
  !s.isEmpty && s.all fun c => (Text.digitValue? c).isSome

/-- Whether an argument looks like a negative number: a dash, digits, and perhaps a point before the
last of them. A line end may follow. -/
def isNegativeNumber : List Char → Bool
  | '-' :: s =>
    let body := if s.getLast? = some '\n' then s.dropLast else s
    isDigitRun body || match body.dropWhile fun c => (Text.digitValue? c).isSome with
      | '.' :: fraction => isDigitRun fraction
      | _ => false
  | _ => false

/-- What an argument is, unless that is ambiguous. -/
def classify (arg : String) : Except UsageFault Piece :=
  let cs := arg.toList
  let (name, attached) := cutAtEquals cs
  if cs.head? != some '-' then .ok .plain
  else match Switch.ofName? arg with
    | some s => .ok (.option s arg none)
    | none =>
      if cs.length = 1 then .ok .plain
      else match attached, Switch.ofName? name with
        | some a, some s => .ok (.option s name (some a))
        | _, _ =>
          match candidates cs with
          | [(s, full, value)] => .ok (.option s full value)
          | [] =>
            if isNegativeNumber cs || cs.contains ' ' then .ok .plain else .ok .unknown
          | several => .error (.ambiguous arg (several.map (·.2.1)))

/-- What all arguments are; after two dashes none is an option. -/
def classifyAll : List String → Except UsageFault (List (String × Piece))
  | [] => .ok []
  | arg :: rest =>
    if arg = "--" then .ok ((arg, .terminator) :: rest.map fun a => (a, .plain))
    else do
      let piece ← classify arg
      let pieces ← classifyAll rest
      return (arg, piece) :: pieces

/-! ## Going through the arguments -/

/-- What is known after some arguments. -/
structure Draft where
  /-- The expression. -/
  expression : Option String
  /-- The images. -/
  images : Option (List String)
  /-- Whether the records of all single steps are shown. -/
  verbose : Bool
  /-- Whether the compiled expression is shown. -/
  tree : Bool
  /-- The file that records are kept in. -/
  logFile : Option String
  /-- Whether the last option waits for its value. -/
  awaiting : Bool
  /-- Whether help was asked for. -/
  help : Bool
  /-- The plain arguments since the last option, and whether each ends the options. -/
  run : List (String × Bool)
  /-- The arguments that have no place. -/
  extras : List String

namespace Draft

/-- Nothing is known. -/
def start : Draft :=
  ⟨none, none, false, false, none, false, false, [], []⟩

/-- Hands the images a run of arguments, without the first two dashes among them. -/
def takeImages (d : Draft) (args : List String) : Draft :=
  { d with images := some (args.erase "--") }

/-- Hands the expression a run that holds one plain argument. -/
def takeExpression (d : Draft) (args : List String) : Draft :=
  { d with expression := (args.erase "--").head? }

/-- Hands the current run to the places that are still open. -/
def closeRun (d : Draft) : Draft :=
  let args := d.run.map (·.1)
  let plain := (d.run.filter fun a => !a.2).length
  let closed := { d with run := [] }
  match d.expression, d.images with
  | none, _ =>
    if plain = 0 then { closed with extras := d.extras ++ args }
    else if plain = 1 then closed.takeExpression args
    else
      let before := d.run.takeWhile (·.2)
      let rest := d.run.dropWhile (·.2)
      let after := (rest.drop 1).takeWhile (·.2)
      let own := before.length + 1 + after.length
      (closed.takeExpression (args.take own)).takeImages (args.drop own)
  | some _, none =>
    if plain = 0 then { closed with extras := d.extras ++ args } else closed.takeImages args
  | some _, some _ => { closed with extras := d.extras ++ args }

/-- Carries out an option without a value. -/
def set (d : Draft) : Switch → Draft
  | .help => { d with help := true }
  | .verbose => { d with verbose := true }
  | .logFile => d
  | .tree => { d with tree := true }

/-- Carries out an option and the short options that are run together with it, all of them or
none. -/
def setShort (dialect : Dialect) (d : Draft) (s : Switch) : List Char → Except UsageFault Draft
  | [] => .ok (d.set s)
  | c :: rest =>
    match Switch.ofName? (String.ofList ['-', c]) with
    | some next =>
      if dialect.leavesLetters && rest.head? == some '=' then
        .error (.ignoredValue next (String.ofList rest.tail))
      else setShort dialect (d.set s) next rest
    | none =>
      if dialect.leavesLetters && c != '-' then
        .ok { d.set s with extras := d.extras ++ [String.ofList ('-' :: c :: rest)] }
      else .error (.ignoredValue s (String.ofList (c :: rest)))

/-- Keeps the records in a file. -/
def keepLog (dialect : Dialect) (d : Draft) (name : String) : Draft :=
  let isValue := dialect.keepsDashes || name != "--"
  { d with logFile := if isValue then some name else none, awaiting := false }

/-- Takes an option. -/
def takeOption (dialect : Dialect) (d : Draft) (s : Switch) (name : String) :
    Option Attached → Except UsageFault Draft
  | none => .ok (if s.takesValue then { d with awaiting := true } else d.set s)
  | some ⟨equals, value⟩ =>
    if s.takesValue then .ok (d.keepLog dialect (String.ofList value))
    else if name.startsWith "--" || value.isEmpty || dialect.leavesLetters && equals then
      .error (.ignoredValue s (String.ofList value))
    else d.setShort dialect s value

/-- Takes one argument. Once help was asked for, nothing else matters. -/
def take (dialect : Dialect) (d : Draft) : String × Piece → Except UsageFault Draft
  | (arg, piece) =>
    if d.help then .ok d
    else if d.awaiting then
      match piece with
      | .plain => .ok (d.keepLog dialect arg)
      | _ => .error (.expectedValue .logFile)
    else match piece with
      | .plain => .ok { d with run := d.run ++ [(arg, false)] }
      | .terminator => .ok { d with run := d.run ++ [(arg, true)] }
      | .unknown =>
        let closed := d.closeRun
        .ok { closed with extras := closed.extras ++ [arg] }
      | .option s name attached => d.closeRun.takeOption dialect s name attached

end Draft

/-- What the arguments ask for. -/
inductive Request where
  /-- To show the help. -/
  | help
  /-- To compose an image. -/
  | compose (expression : String) (images : List String) (verbose tree : Bool)
      (logFile : Option String)
  deriving DecidableEq, Repr

/-- The names of the arguments that are still missing. -/
def Draft.missing (d : Draft) : List String :=
  (if d.expression.isNone then ["expression"] else []) ++
    (if d.images.isNone then ["image"] else [])

/-- What is asked for when all arguments were taken. -/
def Draft.finish (d : Draft) : Except UsageFault Request :=
  if d.help then .ok .help
  else if d.awaiting then .error (.expectedValue .logFile)
  else
    let d := d.closeRun
    match d.expression, d.images with
    | some expression, some images =>
      if d.extras.isEmpty then .ok (.compose expression images d.verbose d.tree d.logFile)
      else .error (.unrecognized d.extras)
    | _, _ => .error (.missing d.missing)

/-- What the arguments of a command line ask for. -/
def Request.ofArgs (dialect : Dialect) (args : List String) : Except UsageFault Request := do
  let pieces ← classifyAll args
  let draft ← pieces.foldlM (Draft.take dialect) .start
  draft.finish

end Montage.CommandLine
