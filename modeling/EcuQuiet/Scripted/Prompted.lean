import EcuQuiet.Bus.Link

/-!
# Prompted buses

A bus on which every sent frame may prompt prepared replies, which the next reading yields at
once. Readings take a small fixed time, so that waiting for a reply that never comes ends.
-/

namespace EcuQuiet.Scripted

/-- A prepared reply and the beginning of the frames that prompt it. -/
structure Prompt where
  opening : Bytes
  reply : Frame
deriving DecidableEq

/-- A prompted bus with its clock. -/
structure Prompted where
  prompts : List Prompt
  /-- How long a reading takes. -/
  tick : Span := { nanos := 20000 }
  clock : Instant := 0
  /-- The replies that wait to be read. -/
  inbox : List Frame := []
  sent : Array Frame := #[]
deriving DecidableEq

namespace Prompted

/-- Records a frame and gets ready the replies that it prompts, in their order. -/
def take (p : Prompted) (f : Frame) : Prompted :=
  { p with
    sent := p.sent.push f
    inbox := p.inbox ++ (p.prompts.filter (·.opening.isPrefixOf f.data)).map (·.reply) }

/-- Lets time pass. -/
def advance (p : Prompted) (d : Span) : Prompted := { p with clock := p.clock + d.nanos }

/-- The prompted bus as a tester uses it. -/
def link : Link Prompted where
  now p := (p.clock, p)
  sleep d p := p.advance d
  receive p := { result := .ok p.inbox, world := { p with inbox := [] }.advance p.tick }
  send frames p := { result := .ok (), world := frames.foldl take p }

end Prompted

end EcuQuiet.Scripted
