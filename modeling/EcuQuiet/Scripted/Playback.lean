import EcuQuiet.Bus.Link

/-!
# Scripted buses

A bus that follows a script: what each reading yields and how long it takes, and which sends fail.
The script does not depend on what is sent. When it has come to its end, readings take the idle
time and yield nothing, and sends succeed.
-/

namespace EcuQuiet.Scripted

/-- One reading of the script. -/
structure Reading where
  takes : Span
  result : Except BusError (List Frame)

/-- A scripted bus with its clock. -/
structure Playback where
  clock : Instant := 0
  /-- How long a reading takes after the end of the script. -/
  idle : Span := .ofMillis 10
  readings : List Reading := []
  /-- The failures of the coming sends; nothing for a send that succeeds. -/
  faults : List (Option BusError) := []
  /-- Every frame given to a send, with its time, including those of failed sends. -/
  sent : Array (Instant × Frame) := #[]

namespace Playback

/-- Lets time pass. -/
def advance (p : Playback) (d : Span) : Playback := { p with clock := p.clock + d.nanos }

/-- The next reading of the script. -/
def receive (p : Playback) : Reply Playback (List Frame) :=
  match p.readings with
  | [] => { result := .ok [], world := p.advance p.idle }
  | next :: readings => { result := next.result, world := { p with readings }.advance next.takes }

/-- The next send of the script. -/
def send (frames : List Frame) (p : Playback) : Reply Playback Unit :=
  let p := { p with sent := p.sent ++ frames.map (p.clock, ·) }
  match p.faults with
  | [] => { result := .ok (), world := p }
  | fault :: faults =>
    { result := fault.elim (.ok ()) .error, world := { p with faults } }

/-- The scripted bus as a tester uses it. -/
def link : Link Playback where
  now p := (p.clock, p)
  sleep d p := p.advance d
  receive := receive
  send := send

end Playback

end EcuQuiet.Scripted
