import Montage.CommandLine.Output
import Mathlib.Data.List.Infix

/-!
# What comes to the device

Bytes are handed on in their order and none is left out, so what a device has taken, with what is
left, is always what it had and what it was handed (`Handed.Sound`). A queue that is written once
therefore sends a start of what was written, and all of it unless the device refuses
(`Output.wrote_write`), and when the run is over nothing can follow but what it still holds
(`Queue.Sends.settle`).
-/

namespace Montage.CommandLine

variable {bytes taken : List UInt8} {room : Nat} {answers : List DeviceAnswer} {d : Device}

/-! ## Devices -/

/-- Bytes that were handed to a device: none is lost, and the device has refused only as one of its
answers says. -/
structure Handed.Sound (h : Handed) (d : Device) (bytes : List UInt8) : Prop where
  /-- What was taken comes before what is left. -/
  whole : h.device.taken ++ h.left = d.taken ++ bytes
  /-- The answers are given in their order. -/
  answers : h.device.answers <:+ d.answers
  /-- The device has refused as it answered. -/
  refuses : ∀ fault ∈ h.fault, .refuses fault ∈ d.answers

theorem Device.sound_hand (d : Device) (bytes : List UInt8) : (d.hand bytes).Sound d bytes := by
  obtain ⟨answers, taken⟩ := d
  cases answers with
  | nil => exact ⟨List.append_nil _, List.suffix_rfl, nofun⟩
  | cons answer answers =>
    cases answer with
    | takes most =>
      refine ⟨?_, List.suffix_cons _ _, nofun⟩
      rw [Device.hand, List.append_assoc, List.take_append_drop]
    | refuses fault =>
      refine ⟨rfl, List.suffix_cons _ _, fun other hother => ?_⟩
      obtain rfl := Option.some.inj hother
      exact List.mem_cons_self

/-- Bytes for which there is room are not handed on. -/
theorem Device.drain_of_le (d : Device) (h : bytes.length ≤ room) :
    d.drain room bytes = ⟨none, bytes, d⟩ := by
  obtain ⟨answers, taken⟩ := d
  cases answers <;> exact if_pos h

/-- What draining leaves: nothing is lost, and if the device has not refused, there is room. -/
theorem Device.sound_drainFrom : (drainFrom room taken bytes answers).Sound ⟨answers, taken⟩ bytes ∧
    ((drainFrom room taken bytes answers).fault = none →
      (drainFrom room taken bytes answers).left.length ≤ room) := by
  -- On the answers. Each of them is used up by handing on what the one before has left.
  induction answers generalizing taken bytes with
  | nil =>
    unfold drainFrom
    split
    · exact ⟨⟨rfl, List.suffix_rfl, nofun⟩, fun _ => ‹_›⟩
    · exact ⟨sound_hand _ _, fun _ => Nat.zero_le _⟩
  | cons answer answers ih =>
    unfold drainFrom
    split
    · exact ⟨⟨rfl, List.suffix_rfl, nofun⟩, fun _ => ‹_›⟩
    · have hhand := sound_hand ⟨answer :: answers, taken⟩ bytes
      cases answer with
      | refuses fault => exact ⟨hhand, nofun⟩
      | takes most =>
        obtain ⟨hsound, hroom⟩ := @ih (bytes.drop most) (taken ++ bytes.take most)
        refine ⟨⟨hsound.whole.trans hhand.whole, hsound.answers.trans hhand.answers, ?_⟩, hroom⟩
        exact fun fault hfault => List.mem_cons_of_mem _ (hsound.refuses fault hfault)

theorem Device.sound_drain (room : Nat) (d : Device) (bytes : List UInt8) :
    (d.drain room bytes).Sound d bytes ∧
      ((d.drain room bytes).fault = none → (d.drain room bytes).left.length ≤ room) :=
  sound_drainFrom

/-! ## Queues -/

namespace Queue

variable {q : Queue}

/-- A queue that holds nothing back. -/
structure Empty (q : Queue) : Prop where
  /-- No text. -/
  text : q.text = []
  /-- No bytes. -/
  held : q.held = []

/-- What a queue has sent and what it still holds is a start of some bytes. -/
structure Sends (q : Queue) (bytes : List UInt8) : Prop where
  /-- No text is held back. -/
  text : q.text = []
  /-- The bytes come in their order. -/
  whole : q.device.taken ++ q.held <+: bytes

/-- Without a text only the bytes are handed on. -/
theorem release_of_text (h : q.text = []) : q.release = q.flush := by
  unfold Queue.release
  rw [h]
  rfl

theorem Empty.release (h : q.Empty) : q.release = (none, q) := by
  have hdrain : q.device.drain 0 q.held = ⟨none, q.held, q.device⟩ := by
    rw [h.held]
    exact Device.drain_of_le _ (Nat.le_refl _)
  rw [release_of_text h.text, Queue.flush, hdrain]

/-- A queue that holds nothing back has nothing to hand on. -/
theorem Empty.settle (h : q.Empty) (attempts : List Bool) : q.settle attempts = ([], q) := by
  induction attempts with
  | nil => rfl
  | cons reported attempts ih =>
    rw [Queue.settle, h.release]
    dsimp only
    rw [ih]
    cases reported <;> rfl

/-- Handing on what a queue holds sends nothing else. -/
theorem Sends.flush (h : q.Sends bytes) : q.flush.2.Sends bytes := by
  have hwhole := (q.device.sound_drain 0 q.held).1.whole
  refine ⟨h.text, ?_⟩
  show (q.device.drain 0 q.held).device.taken ++ (q.device.drain 0 q.held).left <+: bytes
  rw [hwhole]
  exact h.whole

/-- Unless the device refuses, all that a queue holds is handed on. -/
theorem held_flush (h : q.flush.1 = none) :
    q.flush.2.held = [] ∧ q.flush.2.device.taken = q.device.taken ++ q.held := by
  obtain ⟨hsound, hroom⟩ := q.device.sound_drain 0 q.held
  have hleft : (q.device.drain 0 q.held).left = [] :=
    List.length_eq_zero_iff.1 (Nat.le_zero.1 (hroom h))
  have hwhole := hsound.whole
  rw [hleft, List.append_nil] at hwhole
  exact ⟨hleft, hwhole⟩

theorem Sends.settle (h : q.Sends bytes) (attempts : List Bool) :
    (q.settle attempts).2.Sends bytes := by
  induction attempts generalizing q with
  | nil => exact h
  | cons reported attempts ih =>
    rw [Queue.settle, release_of_text h.text]
    exact ih h.flush

/-- What comes of writing bytes: a start of them is sent, all of them if they go by way of the queue
and are not refused, and what refuses them is an answer of the device. -/
structure Wrote (start : Queue) (bytes : List UInt8) (wrote : Option DeviceFault × Queue) :
    Prop where
  /-- The queue sends a start of the bytes. -/
  sends : wrote.2.Sends bytes
  /-- Without a fault nothing is held back. -/
  empty : wrote.1 = none → wrote.2.Empty
  /-- The device has refused as it answered. -/
  refuses : ∀ fault ∈ wrote.1, .refuses fault ∈ start.device.answers

/-- Bytes that are refused while they are brought to the queue. -/
theorem send_of_refused {fault : DeviceFault}
    (h : (q.device.drain q.size bytes).fault = some fault) :
    q.send bytes =
      (some fault, { q with held := [], device := (q.device.drain q.size bytes).device }) := by
  simp [Queue.send, Queue.write, h]

/-- Bytes for which there is room in the queue in the end. -/
theorem send_of_taken (h : (q.device.drain q.size bytes).fault = none) :
    q.send bytes =
      { q with
        held := (q.device.drain q.size bytes).left
        device := (q.device.drain q.size bytes).device }.flush := by
  simp [Queue.send, Queue.write, h]

variable (hempty : q.Empty) (htaken : q.device.taken = [])
include hempty htaken

/-- The device is asked once, and what it does not take is lost. -/
theorem wrote_pass (bytes : List UInt8) : q.Wrote bytes (q.pass bytes) := by
  have hsound := q.device.sound_hand bytes
  have hwhole : (q.device.hand bytes).device.taken ++ (q.device.hand bytes).left = bytes := by
    rw [hsound.whole, htaken, List.nil_append]
  refine ⟨⟨hempty.text, ?_⟩, fun _ => ⟨hempty.text, hempty.held⟩, hsound.refuses⟩
  show (q.device.hand bytes).device.taken ++ q.held <+: bytes
  rw [hempty.held, List.append_nil]
  exact ⟨_, hwhole⟩

/-- Bytes that go by way of the queue are all sent, unless they are refused. -/
theorem wrote_send (bytes : List UInt8) : q.Wrote bytes (q.send bytes) ∧
    ((q.send bytes).1 = none → (q.send bytes).2.device.taken = bytes) := by
  obtain ⟨hsound, -⟩ := q.device.sound_drain q.size bytes
  have hwhole : (q.device.drain q.size bytes).device.taken ++ (q.device.drain q.size bytes).left =
      bytes := by
    rw [hsound.whole, htaken, List.nil_append]
  cases hfault : (q.device.drain q.size bytes).fault with
  | some fault =>
    rw [send_of_refused hfault]
    refine ⟨⟨⟨hempty.text, ?_⟩, nofun, fun other hother => ?_⟩, nofun⟩
    · rw [List.append_nil]
      exact ⟨_, hwhole⟩
    · exact hsound.refuses other (hfault.trans hother)
  | none =>
    rw [send_of_taken hfault]
    -- What the queue has room for is held until the flush hands it on.
    have hsends : Sends { q with
        held := (q.device.drain q.size bytes).left
        device := (q.device.drain q.size bytes).device } bytes :=
      ⟨hempty.text, [], (List.append_nil _).trans hwhole⟩
    refine ⟨⟨hsends.flush, fun hnone => ?_, fun fault hrefused => ?_⟩, fun hnone => ?_⟩
    · exact ⟨hempty.text, (held_flush hnone).1⟩
    · have hflush := (Device.sound_drain 0 _ _).1.refuses fault hrefused
      exact hsound.answers.subset hflush
    · rw [(held_flush hnone).2]
      exact hwhole

end Queue

/-! ## Outputs -/

namespace Output

variable {output : Output}

/-- An output that sends what it is given whole, unless bytes are refused: it has a queue, or its
device takes whatever comes. -/
def IsWhole : Output → Prop
  | missing => True
  | direct answers => answers = []
  | queued _ _ _ => True

theorem empty_start (output : Output) : output.start.Empty := by
  cases output <;> exact ⟨rfl, rfl⟩

theorem taken_start (output : Output) : output.start.device.taken = [] := by
  cases output <;> rfl

/-- What comes of writing bytes to an output. -/
structure Wrote (output : Output) (bytes : List UInt8) (wrote : Option OutputFault × Queue) :
    Prop where
  /-- A start of the bytes is sent. -/
  sends : wrote.2.Sends bytes
  /-- Without a fault nothing is held back. -/
  empty : wrote.1 = none → wrote.2.Empty
  /-- Without a fault an output that sends them whole has sent them all. -/
  whole : wrote.1 = none → output.IsWhole → wrote.2.device.taken = bytes
  /-- The device has refused as it answered. -/
  refuses : ∀ fault, wrote.1 = some (.refused fault) → .refuses fault ∈ output.answers
  /-- Without an output nothing is sent. -/
  missing : wrote.1 = some .missing → output = .missing ∧ wrote.2 = output.start

/-- What comes of a queue, as that of its output. -/
theorem wrote_of_queue {wrote : Option DeviceFault × Queue} (h : output.start.Wrote bytes wrote)
    (hwhole : wrote.1 = none → output.IsWhole → wrote.2.device.taken = bytes) :
    output.Wrote bytes (wrote.map (·.map .refused) id) := by
  have hnone (hfault : (wrote.map (·.map OutputFault.refused) id).1 = none) : wrote.1 = none :=
    Option.map_eq_none_iff.1 hfault
  refine ⟨h.sends, fun hfault => h.empty (hnone hfault), fun hfault => hwhole (hnone hfault),
    fun fault hfault => ?_, fun hfault => ?_⟩
  · obtain ⟨refused, hrefused, heq⟩ := Option.map_eq_some_iff.1 hfault
    obtain rfl := OutputFault.refused.inj heq
    exact h.refuses refused hrefused
  · obtain ⟨refused, -, heq⟩ := Option.map_eq_some_iff.1 hfault
    cases heq

/-- Writing sends a start of the bytes, all of them where the output sends them whole and no fault
is told. -/
theorem wrote_write (output : Output) (bytes : List UInt8) :
    output.Wrote bytes (output.write bytes) := by
  have hempty := output.empty_start
  have htaken := output.taken_start
  cases output with
  | missing => exact ⟨⟨rfl, List.nil_prefix⟩, nofun, nofun, nofun, fun _ => ⟨rfl, rfl⟩⟩
  | direct answers =>
    refine wrote_of_queue (Queue.wrote_pass hempty htaken bytes) fun _ hwhole => ?_
    obtain rfl : answers = [] := hwhole
    rfl
  | queued size interactive answers =>
    obtain ⟨hwrote, hall⟩ := Queue.wrote_send hempty htaken bytes
    exact wrote_of_queue hwrote fun hfault _ => hall hfault

/-- Where there is no output for a text, nothing is held back. -/
theorem start_of_writeText {text : String} (h : (output.writeText text).1 = some .missing) :
    (output.writeText text).2 = output.start := by
  cases output with
  | missing => rfl
  | direct answers => exact ((direct answers).wrote_write _).missing h |>.2
  | queued size interactive answers =>
    cases interactive with
    | false => cases h
    | true => exact ((queued size true answers).wrote_write _).missing h |>.2

end Output

end Montage.CommandLine
