/-!
# The output of a run

The bytes that a run writes go to a device, some of them by way of a queue that holds them back
until it is full or told to hand them on. A device is known by its answers: each time that bytes are
handed to it, it takes them, or some of them, or refuses. What a queue still holds when the run is
over is handed on once more; a device that refuses it then can no longer change how the run went,
and is only reported.
-/

namespace Montage.CommandLine

/-! ## Devices -/

/-- Why a device refuses bytes. -/
structure DeviceFault where
  /-- The kind of fault. -/
  kind : String
  /-- What is wrong. -/
  reason : String
  deriving DecidableEq, Repr

/-- What a device answers when bytes are handed to it. -/
inductive DeviceAnswer where
  /-- It takes up to a number of them. -/
  | takes (most : Nat)
  /-- It takes none. -/
  | refuses (fault : DeviceFault)
  deriving DecidableEq, Repr

/-- A device. -/
structure Device where
  /-- The answers that it gives next. When all of them are given, it takes whatever comes. -/
  answers : List DeviceAnswer
  /-- The bytes that it has taken. -/
  taken : List UInt8
  deriving DecidableEq, Repr

/-- What has become of bytes that were handed to a device. -/
structure Handed where
  /-- Why the device has refused, if it has. -/
  fault : Option DeviceFault
  /-- The bytes that it has not taken. -/
  left : List UInt8
  /-- The device afterwards. -/
  device : Device
  deriving DecidableEq, Repr

namespace Device

/-- Hands bytes to a device once. -/
def hand (d : Device) (bytes : List UInt8) : Handed :=
  match d.answers with
  | [] => ⟨none, [], ⟨[], d.taken ++ bytes⟩⟩
  | .takes most :: answers => ⟨none, bytes.drop most, ⟨answers, d.taken ++ bytes.take most⟩⟩
  | .refuses fault :: answers => ⟨some fault, bytes, ⟨answers, d.taken⟩⟩

/-- Hands bytes on until there is room for those that are left, or they are refused. The device has
taken some bytes before. -/
def drainFrom (room : Nat) (taken bytes : List UInt8) : (answers : List DeviceAnswer) → Handed
  | [] => if bytes.length ≤ room then ⟨none, bytes, ⟨[], taken⟩⟩ else hand ⟨[], taken⟩ bytes
  | answer :: answers =>
    if bytes.length ≤ room then ⟨none, bytes, ⟨answer :: answers, taken⟩⟩
    else
      let handed := hand ⟨answer :: answers, taken⟩ bytes
      if handed.fault.isSome then handed
      else drainFrom room handed.device.taken handed.left answers

/-- Hands bytes on until there is room for those that are left, or they are refused. -/
def drain (room : Nat) (d : Device) (bytes : List UInt8) : Handed :=
  drainFrom room d.taken bytes d.answers

end Device

/-! ## Queues -/

/-- A device with a queue in front of it. -/
structure Queue where
  /-- How many bytes the queue can hold. -/
  size : Nat
  /-- A text of which nothing has come to the queue yet. -/
  text : List UInt8
  /-- The bytes that the queue holds. -/
  held : List UInt8
  /-- The device. -/
  device : Device
  deriving DecidableEq, Repr

namespace Queue

/-- Hands bytes to the device once, past the queue. -/
def pass (q : Queue) (bytes : List UInt8) : Option DeviceFault × Queue :=
  let handed := q.device.hand bytes
  (handed.fault, { q with device := handed.device })

/-- Brings bytes to an empty queue. As many are handed on as it has no room for; if they are
refused, the rest is dropped. -/
def write (q : Queue) (bytes : List UInt8) : Option DeviceFault × Queue :=
  let handed := q.device.drain q.size bytes
  let held := if handed.fault.isSome then [] else handed.left
  (handed.fault, { q with held, device := handed.device })

/-- Hands on all that the queue holds. What is refused stays in the queue. -/
def flush (q : Queue) : Option DeviceFault × Queue :=
  let handed := q.device.drain 0 q.held
  (handed.fault, { q with held := handed.left, device := handed.device })

/-- Brings bytes to an empty queue and hands them all on. -/
def send (q : Queue) (bytes : List UInt8) : Option DeviceFault × Queue :=
  match q.write bytes with
  | (none, q) => q.flush
  | refused => refused

/-- Hands on what has been held back, the text included. -/
def release (q : Queue) : Option DeviceFault × Queue :=
  if q.text.isEmpty then q.flush else { q with text := [] }.send q.text

/-- Hands on what has been held back, in several attempts. An attempt tells whether its failure is
reported, and the reported failures are answered. -/
def settle (q : Queue) : (attempts : List Bool) → List DeviceFault × Queue
  | [] => ([], q)
  | reported :: attempts =>
    let (fault, q) := q.release
    let (faults, q) := q.settle attempts
    (if reported then fault.toList ++ faults else faults, q)

end Queue

/-! ## Outputs -/

/-- Where the bytes of a run go. The device is given by its answers. -/
inductive Output where
  /-- Nowhere; there is no output. -/
  | missing
  /-- To a device. -/
  | direct (answers : List DeviceAnswer)
  /-- To a device with a queue in front of it, which holds no text back if a reader waits for it. -/
  | queued (size : Nat) (interactive : Bool) (answers : List DeviceAnswer)
  deriving DecidableEq, Repr

/-- Why bytes cannot be written. -/
inductive OutputFault where
  /-- There is no output. -/
  | missing
  /-- The device has refused them. -/
  | refused (fault : DeviceFault)
  deriving DecidableEq, Repr

namespace Output

/-- The answers of the device. -/
def answers : Output → List DeviceAnswer
  | missing => []
  | direct answers => answers
  | queued _ _ answers => answers

/-- The output before anything is written. -/
def start (output : Output) : Queue :=
  let size := match output with
    | queued size _ _ => size
    | _ => 0
  ⟨size, [], [], ⟨output.answers, []⟩⟩

/-- Writes bytes and hands them all on. Without a queue the device is asked just once, and what it
does not take then is lost. -/
def write (output : Output) (bytes : List UInt8) : Option OutputFault × Queue :=
  match output with
  | missing => (some .missing, output.start)
  | direct _ => (output.start.pass bytes).map (·.map .refused) id
  | queued _ _ _ => (output.start.send bytes).map (·.map .refused) id

/-- Writes a text, which may be held back. -/
def writeText (output : Output) (text : String) : Option OutputFault × Queue :=
  let bytes := text.toUTF8.data.toList
  match output with
  | queued _ false _ => (none, { output.start with text := bytes })
  | _ => output.write bytes

end Output

end Montage.CommandLine
