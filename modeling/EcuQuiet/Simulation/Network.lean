import EcuQuiet.Simulation.Ecu

/-!
# Simulated networks

A network of simulated units with a clock of its own. Time passes when the tester waits and by a
fixed span with every reading of the bus; a reading yields all that has become due by its end, in
the order of time. Sending takes no time, and sends can be made to fail.
-/

namespace EcuQuiet.Simulation

/-- Puts a frame into its place by time, before those of the same time. -/
def insertTimed (t : Timed) : List Timed → List Timed
  | [] => [t]
  | u :: rest => if t.1 ≤ u.1 then t :: u :: rest else u :: insertTimed t rest

/-- Frames in the order of time; those of the same time keep their order. -/
def inOrder (frames : List Timed) : List Timed := frames.foldr insertTimed []

/-- A network, its clock, and what the tester has sent. -/
structure Network where
  clock : Instant := 0
  /-- How long a reading takes. -/
  latency : Span := .ofMillis 10
  ecus : List Ecu := []
  /-- Frames that appear from elsewhere. -/
  scheduled : List Timed := []
  /-- Every frame given to a send, with its time, including those of failed sends. -/
  sent : Array Timed := #[]
  /-- How many of the next sends fail. -/
  faults : Nat := 0
  /-- How many sends there were. -/
  sends : Nat := 0
deriving DecidableEq

namespace Network

/-- The failure of a send that was made to fail. -/
def injectedFailure : BusError := .api "simulation" 0 "Injected send failure"

/-- Attaches a unit; its periodic frames start now. -/
def attach (n : Network) (e : Ecu) : Network :=
  { n with ecus := n.ecus ++ [e.attachedAt n.clock] }

/-- Makes a frame appear after a delay. -/
def schedule (n : Network) (delay : Span) (f : Frame) : Network :=
  { n with scheduled := n.scheduled ++ [(n.clock + delay.nanos, f)] }

/-- Makes the next sends fail. -/
def failNext (n : Network) (count : Nat) : Network := { n with faults := count }

/-- Lets time pass. -/
def advance (n : Network) (d : Span) : Network := { n with clock := n.clock + d.nanos }

/-- Takes in all that is due at the present time: what was scheduled, then what each unit has to
say, sorted by time; at the same time, that order stays. -/
def collect (n : Network) : Network × List Timed :=
  let (ready, waiting) := n.scheduled.partition (·.1 ≤ n.clock)
  let polled := n.ecus.map (·.poll n.clock)
  ({ n with scheduled := waiting, ecus := polled.map (·.1) },
    inOrder (ready ++ polled.flatMap (·.2)))

/-- One reading of the bus. -/
def receive (n : Network) : Reply Network (List Frame) :=
  let (n, due) := (n.advance n.latency).collect
  { result := .ok (due.map (·.2)), world := n }

/-- Shows a frame to every unit. -/
def deliver (now : Instant) (f : Frame) (ecus : List Ecu) : List Ecu × List Note :=
  let heard := ecus.map (·.receive now f)
  (heard.map (·.1), heard.flatMap (·.2))

/-- Shows frames to every unit, one frame after the other. -/
def deliverAll (now : Instant) : List Frame → List Ecu → List Ecu × List Note
  | [], ecus => (ecus, [])
  | f :: rest, ecus =>
    let (ecus, first) := deliver now f ecus
    let (ecus, further) := deliverAll now rest ecus
    (ecus, first ++ further)

/-- One send. The frames are recorded even if it fails; they reach the units only if it does not. -/
def send (frames : List Frame) (n : Network) : Reply Network Unit :=
  let n := { n with sends := n.sends + 1, sent := n.sent ++ frames.map (n.clock, ·) }
  match n.faults with
  | faults + 1 => { result := .error injectedFailure, world := { n with faults } }
  | 0 =>
    let (ecus, notes) := deliverAll n.clock frames n.ecus
    { result := .ok (), world := { n with ecus }, notes }

/-- The network as a tester uses it. -/
def link : Link Network where
  now n := (n.clock, n)
  sleep d n := n.advance d
  receive := receive
  send := send

/-- The payload of a frame that is a single frame without an extra address byte. -/
def singlePayload? (data : Bytes) : Option Bytes :=
  match data with
  | [] => none
  | head :: rest =>
    if highHalf head = 0 ∧ lowHalf head ≤ rest.length then some (rest.take (lowHalf head)) else none

/-- The payloads of the single frames that were sent to an address. -/
def sentPayloads (n : Network) (address : UInt32) : List Bytes :=
  n.sent.toList.filterMap fun (_, f) =>
    if f.address = address then singlePayload? f.data else none

end Network

end EcuQuiet.Simulation
