import EcuQuiet.IsoTp.Receiver
import EcuQuiet.IsoTp.Sender
import EcuQuiet.Query
import EcuQuiet.Uds.NegativeResponse

/-!
# Conversations

A `Conversation` is what a query holds for one of its targets: the exchange under way and those
still to come, both ends of the transport, and the moment at which the target is given up. Frames
and the clock are its only inputs. What it wants done, frames to send and events to note, is a list
of `Output`s in the order in which they are to happen.
-/

namespace EcuQuiet.IsoTp

/-- Something a conversation wants done. -/
inductive Output
  | note (event : Note)
  | send (frame : Frame)
deriving DecidableEq

/-- How far a conversation has come. -/
inductive Status
  /-- The target is waited for. -/
  | waiting
  /-- The last response has come, or the reason why it never will. -/
  | answered (answer : Answer)
  /-- The target was silent for too long. -/
  | unanswered

/-- One target of a query. -/
structure Conversation where
  target : Target
  /-- The address the target answers on. -/
  address : UInt32
  /-- The exchange under way. -/
  current : Exchange
  /-- The exchanges that follow. -/
  later : List Exchange
  /-- When the target is given up. -/
  deadline : Instant
  /-- Past this no deadline moves. -/
  limit : Instant
  sender : Sender
  receiver : Receiver
  status : Status := .waiting

namespace Conversation

/-- Whether nothing more can change. -/
def isOver (s : Conversation) : Bool :=
  match s.status with
  | .waiting => false
  | _ => true

/-- The answer that a conversation came to, if it came to one. -/
def answer? (s : Conversation) : Option (Target × Answer) :=
  match s.status with
  | .answered a => some (s.target, a)
  | _ => none

/-- The conversation with its last word. -/
def conclude (s : Conversation) (a : Answer) : Conversation := { s with status := .answered a }

/-- Waits anew from `now`, but never past the limit. -/
def extend (s : Conversation) (now : Instant) (wait : Span) : Conversation :=
  { s with deadline := (Instant.after? now wait).elim s.limit (min · s.limit) }

variable (c : Settings) (q : Query)

/-- The conversation in which a target is first asked, and what asking it takes. -/
def begin (current : Exchange) (later : List Exchange) (now limit : Instant) (t : Target) :
    Conversation × List Output :=
  let (frame, sender) := Sender.start (capacity t) current.request
  ({ target := t
     address := responseAddress t.address c.responseOffset
     current
     later
     deadline := now + q.timeout.nanos
     limit
     sender
     receiver := { blockSize := c.blockSize } },
    [.note (.requesting t current.request), .send (c.frame q.bus t frame)])

/-- Takes in a whole response. A negative one ends the conversation unless the target only asks for
more time; an accepted one leads on to the next exchange, and the last of them is the answer. -/
def respond (now : Instant) (response : Bytes) (s : Conversation) : Conversation × List Output :=
  let heard : Output := .note (.responded s.target response)
  if response.head? = some Uds.negativeResponse then
    let code := response.getD 2 0
    if (Uds.NegativeResponse.ofByte code).isPending then
      (s.extend now c.pendingWait, [heard, .note (.busy s.target)])
    else
      (s.conclude (.error (.refused code (some (Uds.describe code)))),
        [heard, .note (.refused s.target code)])
  else if s.current.accepts response then
    match s.later with
    | [] => (s.conclude (.ok response), [heard])
    | next :: later =>
      let (frame, sender) := Sender.start (capacity s.target) next.request
      ({ s.extend now q.timeout with current := next, later, sender },
        [heard, .note (.requesting s.target next.request),
          .send (c.frame q.bus s.target frame)])
  else
    (s.conclude (.error .wrongMessage), [heard, .note (.unacceptable s.target response)])

/-- Takes in a flow control. -/
def permit (now : Instant) (content : Bytes) (s : Conversation) : Conversation × List Output :=
  match s.sender.permit content now with
  | .unexpected => (s, [.note (.unexpectedFlowControl content)])
  | .granted sender => ({ s.extend now q.timeout with sender }, [])
  | .wait => (s.extend now q.timeout, [.note .toldToWait])
  | .refused reason =>
    (s.conclude (.error reason), [.note (.flowControlRefused s.target reason)])

/-- Takes in the content of a frame from the target. -/
def hear (now : Instant) (content : Bytes) (s : Conversation) : Conversation × List Output :=
  let (receiver, reception) := s.receiver.feed content
  let s := { s with receiver }
  match reception with
  | .nothing => (s, [])
  | .unknown => (s, [.note (.unknownFrame content)])
  | .stray => (s, [.note (.strayConsecutive content)])
  | .flowControl => s.permit q now content
  | .progress => (s.extend now q.timeout, [])
  | .flowControlDue => (s.extend now q.timeout, [.send (c.frame q.bus s.target c.flowControl)])
  | .completed response => s.respond c q now response
  | .faulty fault =>
    (s.conclude (.error fault.error),
      fault.notes.map .note ++ [.note (.invalidFrame s.target content)])

/-- Takes in a frame of the queried bus. Frames on another address, frames without the target's
extra address byte, and frames after the end change nothing. -/
def receive (now : Instant) (f : Frame) (s : Conversation) : Conversation × List Output :=
  if !s.isOver && s.address = f.address then
    match s.target.content? f.data with
    | none => (s, [])
    | some content => s.hear c q now content
  else (s, [])

/-- What sending one consecutive frame takes: the last frame of a message, and the last one of a
block, are noted before they go out. -/
def consecutive (t : Target) (frame : Bytes) (after : Sender) : List Output :=
  match after with
  | .finished => [.note .transmitted, .send (c.frame q.bus t frame)]
  | .blocked _ _ => [.note .awaitingFlowControl, .send (c.frame q.bus t frame)]
  | .sending .. => [.send (c.frame q.bus t frame)]

/-- Sends all consecutive frames that may go out now. -/
def transmit (now : Instant) (s : Conversation) : Conversation × List Output :=
  let frames := s.sender.burst (capacity s.target) now
  let sender := (frames.getLast?.map (·.2)).getD s.sender
  ({ s with sender }, frames.flatMap fun (frame, after) => consecutive c q s.target frame after)

/-- What the clock alone brings about: consecutive frames, then giving up. -/
def tick (now : Instant) (s : Conversation) : Conversation × List Output :=
  if s.isOver then (s, [])
  else
    let (s, sent) := s.transmit c q now
    if s.deadline ≤ now then
      ({ s with status := .unanswered }, sent ++ [.note (.unanswered s.target)])
    else (s, sent)

end Conversation

end EcuQuiet.IsoTp
