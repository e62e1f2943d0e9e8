import EcuQuiet.Bytes
import EcuQuiet.Fault
import EcuQuiet.IsoTp.Settings

/-!
# Segmentation

A `Sender` hands out the frames of one message. A message that fits goes out as a single frame. A
longer one opens with a first frame and then waits for flow control; each permission to continue
covers a block of consecutive frames, which keep the separation time that came with it.
-/

namespace EcuQuiet.IsoTp

/-- The sending end of the transport, for one message. -/
inductive Sender
  /-- The whole message has been handed out. -/
  | finished
  /-- The rest of the message waits for flow control. -/
  | blocked (rest : Bytes) (sequence : Nat)
  /-- The rest of the message may go out: so many more frames, if there is a limit, each at least
  `gap` after the moment `since`. -/
  | sending (rest : Bytes) (sequence : Nat) (budget : Option Nat) (gap : Span) (since : Instant)
deriving DecidableEq

/-- What a flow control does to the sender. -/
inductive Permission
  /-- Nothing is waiting for one. -/
  | unexpected
  /-- The sender goes on. -/
  | granted (sender : Sender)
  /-- The sender has to wait for another one. -/
  | wait
  /-- The transfer is over. -/
  | refused (reason : DiagnosticError)
deriving DecidableEq

namespace Sender

/-- The first frame of a message, in frames of the given capacity, and what is left to send. A
single frame needs one byte for the length, a first frame two. -/
def start (capacity : Nat) (message : Bytes) : Bytes × Sender :=
  if message.length < capacity then
    (ofHalves 0 message.length :: message, finished)
  else
    (ofHalves 1 (message.length / 256) :: UInt8.ofNat message.length
        :: message.take (capacity - 2),
      blocked (message.drop (capacity - 2)) 1)

/-- What a flow control means to the sender. It has a status in the low half of its first byte,
then a block size and a separation time. -/
def permit (s : Sender) (frame : Bytes) (now : Instant) : Permission :=
  match s with
  | blocked rest sequence =>
    match frame with
    | head :: blockSize :: separation :: _ =>
      match lowHalf head with
      | 0 =>
        .granted (sending rest sequence (if blockSize = 0 then none else some blockSize.toNat)
          (separationTime separation) now)
      | 1 => .wait
      | 2 => .refused (.bus .bufferFull)
      | _ => .refused .wrongMessage
    | _ => .refused .invalidLength
  | _ => .unexpected

/-- The next consecutive frame, if one may be sent now, and the sender after it. -/
def next? (capacity : Nat) (now : Instant) (s : Sender) : Option (Bytes × Sender) :=
  match s with
  | sending rest sequence budget gap since =>
    if now - since < gap.nanos then none
    else
      let frame := ofHalves 2 sequence :: rest.take (capacity - 1)
      let later := rest.drop (capacity - 1)
      let sequence := (sequence + 1) % 16
      let after :=
        if later.isEmpty then finished
        else
          match budget.map (· - 1) with
          | some 0 => blocked later sequence
          | budget => sending later sequence budget gap now
      some (frame, after)
  | _ => none

/-- The bytes that are still to be sent. -/
def rest : Sender → Bytes
  | finished => []
  | blocked rest _ => rest
  | sending rest _ _ _ _ => rest

/-- All consecutive frames that may be sent now, each with the sender after it; at most `limit`. -/
def burstUpTo (capacity : Nat) (now : Instant) : Nat → Sender → List (Bytes × Sender)
  | 0, _ => []
  | limit + 1, s =>
    match s.next? capacity now with
    | none => []
    | some (frame, after) => (frame, after) :: burstUpTo capacity now limit after

/-- All consecutive frames that may be sent now, each with the sender after it. A frame takes at
least one byte of the rest, so there are at most as many frames as bytes. -/
def burst (capacity : Nat) (now : Instant) (s : Sender) : List (Bytes × Sender) :=
  burstUpTo capacity now s.rest.length s

end Sender

end EcuQuiet.IsoTp
