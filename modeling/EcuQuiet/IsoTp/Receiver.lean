import EcuQuiet.Bytes
import EcuQuiet.Note

/-!
# Reassembly

A `Receiver` turns the content of frames into messages. A message is a single frame, or a first
frame that declares its size followed by consecutive frames with ascending sequence numbers. The
receiver holds a message under assembly or nothing; a completed message, a fault, and every new
start leave no trace of what came before.
-/

namespace EcuQuiet.IsoTp

/-- A message of which frames are still to come. -/
structure Assembly where
  /-- The declared length. -/
  size : Nat
  /-- What has arrived. -/
  data : Bytes
  /-- The sequence number of the next consecutive frame. -/
  sequence : Nat := 1
  /-- Consecutive frames since our last flow control. -/
  sinceFlow : Nat := 0
deriving DecidableEq

/-- The receiving end of the transport. -/
structure Receiver where
  /-- Consecutive frames between two flow controls; zero for any number. -/
  blockSize : UInt8
  /-- The message under assembly, if there is one. -/
  assembly : Option Assembly := none
deriving DecidableEq

/-- Why a frame cannot be part of a message. -/
inductive FrameFault
  /-- A declared length that is zero or that the frame cannot have. -/
  | length
  /-- A consecutive frame out of turn. -/
  | sequence (expected got : Nat)
deriving DecidableEq

/-- The error with which a fault ends an exchange. -/
def FrameFault.error : FrameFault → DiagnosticError
  | length => .invalidLength
  | sequence _ _ => .wrongMessage

/-- What there is to say about a fault beyond that it is one. -/
def FrameFault.notes : FrameFault → List Note
  | length => []
  | sequence expected got => [.sequenceBroken expected got]

/-- What the receiver makes of a frame. -/
inductive Reception
  /-- There is nothing in it. -/
  | nothing
  /-- It is of no known kind. -/
  | unknown
  /-- A consecutive frame although no message is under assembly. -/
  | stray
  /-- A flow control, which concerns the sender. -/
  | flowControl
  /-- Part of a message, with more to come at once. -/
  | progress
  /-- Part of a message, the next of which comes after our flow control. -/
  | flowControlDue
  /-- The message is complete. -/
  | completed (message : Bytes)
  /-- The frame makes no sense, and the message is given up. -/
  | faulty (fault : FrameFault)
deriving DecidableEq

namespace Receiver

/-- The receiver without a message. -/
def fresh (r : Receiver) : Receiver := { r with assembly := none }

/-- A single frame. A length of zero in its first byte means that the length is in the second
one. -/
def single (r : Receiver) (frame : Bytes) : Receiver × Reception :=
  let (size, content) :=
    match frame with
    | [] => (0, [])
    | first :: rest =>
      if lowHalf first ≠ 0 then (lowHalf first, rest)
      else
        match rest with
        | [] => (0, [])
        | size :: rest => (size.toNat, rest)
  if 0 < size ∧ size ≤ content.length then (r.fresh, .completed (content.take size))
  else (r.fresh, .faulty .length)

/-- A first frame: twelve bits of length, then the beginning of the message. -/
def first (r : Receiver) (frame : Bytes) : Receiver × Reception :=
  match frame with
  | high :: low :: byte :: rest =>
    let size := lowHalf high * 256 + low.toNat
    if size = 0 then (r.fresh, .faulty .length)
    else
      ({ r with assembly := some { size, data := (byte :: rest).take size } }, .flowControlDue)
  | _ => (r.fresh, .faulty .length)

/-- A consecutive frame: a sequence number, then as much of the message as is still missing. -/
def consecutive (r : Receiver) (frame : Bytes) : Receiver × Reception :=
  match r.assembly, frame with
  | none, _ => (r, .stray)
  | some _, [] => (r, .nothing)
  | some a, head :: content =>
    if lowHalf head ≠ a.sequence then
      (r.fresh, .faulty (.sequence a.sequence (lowHalf head)))
    else
      let data := a.data ++ content.take (a.size - a.data.length)
      let sinceFlow := a.sinceFlow + 1
      if data.length = a.size then (r.fresh, .completed data)
      else
        let blockDone := r.blockSize ≠ 0 ∧ sinceFlow = r.blockSize.toNat
        let a := { a with
          data
          sequence := (a.sequence + 1) % 16
          sinceFlow := if blockDone then 0 else sinceFlow }
        ({ r with assembly := some a }, if blockDone then .flowControlDue else .progress)

/-- What the receiver makes of the content of a frame. The high half of its first byte tells its
kind. -/
def feed (r : Receiver) (frame : Bytes) : Receiver × Reception :=
  match frame with
  | [] => (r, .nothing)
  | head :: _ =>
    match highHalf head with
    | 0 => r.single frame
    | 1 => r.first frame
    | 2 => r.consecutive frame
    | 3 => (r, .flowControl)
    | _ => (r, .unknown)

end Receiver

end EcuQuiet.IsoTp
