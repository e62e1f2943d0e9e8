import EcuQuiet.Bus.Link
import EcuQuiet.IsoTp.Settings
import EcuQuiet.Uds.CommunicationControl

/-!
# Simulated units

A simulated unit answers requests from a table, obeys communication control, and transmits
periodic frames until it is silenced. It carries messages over frames by rules of its own: it
always fills frames up, asks for no pauses, and sends the frames of a block a millisecond apart.
What it wants to say waits in its outbox until its time has come.
-/

namespace EcuQuiet.Simulation

/-- A moment at which a frame appears on a bus. -/
abbrev Timed : Type := Instant × Frame

/-- A frame that a unit transmits again and again. -/
structure Periodic where
  address : UInt32
  period : Span
  data : Bytes
  positive : 0 < period.nanos
  /-- When it is transmitted next. -/
  due : Instant := 0
deriving DecidableEq

/-- A request of which frames are still to come. -/
structure Incoming where
  size : Nat
  data : Bytes
  sequence : Nat
deriving DecidableEq

/-- A response of which frames are still to be sent. -/
structure Outgoing where
  rest : Bytes
  sequence : Nat
deriving DecidableEq

/-- A unit on a simulated network. -/
structure Ecu where
  bus : UInt8
  /-- The address it takes requests on. -/
  address : UInt32
  subAddress : Option UInt8 := none
  /-- Responses by request; the first entry for a request counts. -/
  responses : List (Bytes × Bytes) := []
  periodic : List Periodic := []
  /-- How many further requests are dropped. -/
  ignoring : Nat := 0
  /-- For how long it goes on transmitting after it was silenced. -/
  silenceDelay : Span := .zero
  /-- Whether communication control has an effect. -/
  obeys : Bool := true
  /-- From when on its periodic frames are not transmitted. -/
  silencedAt : Option Instant := none
  outbox : List Timed := []
  incoming : Option Incoming := none
  outgoing : Option Outgoing := none
  /-- Every complete request, dropped ones included. -/
  requests : Array Bytes := #[]
deriving DecidableEq

namespace Ecu

/-- The time a unit takes to react to a request or to a first frame. -/
def reaction : Span := { nanos := 5000000 }

/-- The time between the frames of a block. -/
def spacing : Nat := 1000000

/-- Lets a unit give a response to a request; it replaces an earlier one. -/
def withResponse (e : Ecu) (request response : Bytes) : Ecu :=
  { e with responses := (request, response) :: e.responses }

/-- A unit that knows the default and the extended session and tester present. -/
def diagnostic (bus : UInt8) (address : UInt32) : Ecu where
  bus
  address
  responses := [([0x3E, 0x00], [0x7E, 0x00]), ([0x10, 0x01], [0x50, 0x01]),
    ([0x10, 0x03], [0x50, 0x03])]

/-- The endpoint that a tester addresses. -/
def target (e : Ecu) : Target where
  address := e.address
  subAddress := e.subAddress

/-- The unit with its periodic frames due from `now` on. -/
def attachedAt (e : Ecu) (now : Instant) : Ecu :=
  { e with periodic := e.periodic.map fun p => { p with due := now } }

/-- Whether the unit has stopped its periodic transmissions. -/
def isSilenced (e : Ecu) (now : Instant) : Bool := e.silencedAt.any (· ≤ now)

/-- The frame in which a unit sends transport content. -/
def frame (e : Ecu) (content : Bytes) : Frame where
  address := IsoTp.responseAddress e.address 0x08
  bus := e.bus
  data := IsoTp.pad (e.target.wrap content)

/-- Puts content into the outbox. -/
def queue (e : Ecu) (due : Instant) (content : Bytes) : Ecu :=
  { e with outbox := e.outbox ++ [(due, e.frame content)] }

/-- Starts a response: a single frame, or a first frame after which the rest waits for flow
control. -/
def respond (e : Ecu) (now : Instant) (response : Bytes) : Ecu :=
  let due := now + reaction.nanos
  let capacity := IsoTp.capacity e.target
  if response.length < capacity then
    e.queue due (ofHalves 0 response.length :: response)
  else
    { e.queue due (ofHalves 1 (response.length / 256) :: UInt8.ofNat response.length
        :: response.take (capacity - 2)) with
      outgoing := some { rest := response.drop (capacity - 2), sequence := 1 } }

/-- Carries out communication control. -/
def control (e : Ecu) (now : Instant) (r : Uds.ControlRequest) : Ecu :=
  let e :=
    if !e.obeys then e
    else if r.control.silences then { e with silencedAt := some (now + e.silenceDelay.nanos) }
    else { e with silencedAt := none }
  if r.suppressed then e
  else e.respond now [Uds.Service.communicationControl.response, r.control.byte]

/-- Takes in a complete request. -/
def handle (e : Ecu) (now : Instant) (request : Bytes) : Ecu × List Note :=
  let e := { e with requests := e.requests.push request }
  match e.ignoring with
  | ignoring + 1 => ({ e with ignoring }, [.unitIgnoring e.address request])
  | 0 =>
    match Uds.ControlRequest.ofBytes? request with
    | some r => (e.control now r, [])
    | none =>
      match e.responses.lookup request with
      | some response => (e.respond now response, [])
      | none => (e, [])

/-- Takes in a consecutive frame. -/
def consecutive (e : Ecu) (now : Instant) (head : UInt8) (content : Bytes) : Ecu × List Note :=
  match e.incoming with
  | none => (e, [])
  | some m =>
    if lowHalf head ≠ m.sequence then
      ({ e with incoming := none }, [.unitLostSequence e.address])
    else
      let data := m.data ++ content.take (m.size - m.data.length)
      if data.length = m.size then { e with incoming := none }.handle now data
      else
        ({ e with incoming := some { m with data, sequence := (m.sequence + 1) % 16 } }, [])

/-- Sends up to `left` consecutive frames of a response after the `sent` ones that this block holds
already, each a little later than the one before. What is left then waits for the next block. -/
def sendBlock (e : Ecu) (now : Instant) (o : Outgoing) : (left sent : Nat) → Ecu
  | 0, _ => { e with outgoing := if o.rest.isEmpty then none else some o }
  | left + 1, sent =>
    if o.rest.isEmpty then { e with outgoing := none }
    else
      let size := IsoTp.capacity e.target - 1
      (e.queue (now + (sent + 1) * spacing) (ofHalves 2 o.sequence :: o.rest.take size)).sendBlock
        now { rest := o.rest.drop size, sequence := (o.sequence + 1) % 16 } left (sent + 1)

/-- Takes in a flow control that says to go on. Without a block size the whole rest goes out, which
takes at most one frame for each of its bytes. -/
def proceed (e : Ecu) (now : Instant) (content : Bytes) : Ecu :=
  match e.outgoing with
  | none => e
  | some o =>
    let block := (content.headD 0).toNat
    e.sendBlock now o (if block = 0 then o.rest.length else block) 0

/-- Takes in transport content that is addressed to the unit. -/
def hear (e : Ecu) (now : Instant) (content : Bytes) : Ecu × List Note :=
  match content with
  | [] => (e, [])
  | head :: rest =>
    match highHalf head with
    | 0 =>
      if lowHalf head ≤ rest.length then e.handle now (rest.take (lowHalf head)) else (e, [])
    | 1 =>
      match rest with
      | low :: data@(_ :: _) =>
        let size := lowHalf head * 256 + low.toNat
        ({ e with incoming := some { size, data := data.take size, sequence := 1 } }.queue
          (now + reaction.nanos) [0x30, 0x00, 0x00], [])
      | _ => (e, [])
    | 2 => e.consecutive now head rest
    | 3 => (if head = 0x30 then e.proceed now rest else e, [])
    | _ => (e, [])

/-- Takes in a frame that was sent on the network. -/
def receive (e : Ecu) (now : Instant) (f : Frame) : Ecu × List Note :=
  if f.bus = e.bus ∧ f.address = e.address then
    match e.target.content? f.data with
    | none => (e, [])
    | some content => e.hear now content
  else (e, [])

end Ecu

namespace Periodic

/-- How often a frame has become due by `now` since it was last taken. -/
def count (p : Periodic) (now : Instant) : Nat :=
  if p.due ≤ now then (now - p.due) / p.period.nanos + 1 else 0

/-- The moments at which it became due. -/
def moments (p : Periodic) (now : Instant) : List Instant :=
  (List.range (p.count now)).map fun k => p.due + k * p.period.nanos

/-- The entry after those moments. -/
def past (p : Periodic) (now : Instant) : Periodic :=
  { p with due := p.due + p.count now * p.period.nanos }

end Periodic

namespace Ecu

/-- The periodic frames that became due by `now`, entry by entry; those due after the unit was
silenced are not transmitted. -/
def periodicFrames (e : Ecu) (now : Instant) : List Timed :=
  e.periodic.flatMap fun p =>
    ((p.moments now).filter fun t => e.silencedAt.all (t < ·)).map fun t =>
      (t, { address := p.address, bus := e.bus, data := p.data })

/-- Takes what has become due by `now`: periodic frames, then what waited in the outbox. -/
def poll (e : Ecu) (now : Instant) : Ecu × List Timed :=
  let (ready, waiting) := e.outbox.partition (·.1 ≤ now)
  ({ e with periodic := e.periodic.map (·.past now), outbox := waiting },
    e.periodicFrames now ++ ready)

end Ecu

end EcuQuiet.Simulation
