import EcuQuiet.Frame
import EcuQuiet.Note
import EcuQuiet.Time

/-!
# Links

A `Link` is everything a tester needs of the world outside: a clock to read, a way to wait, and an
interface that receives batches of frames and sends frames. The world is a value of some type `σ`
that every operation may change. What such a world does is up to the link: the same tester runs
against a simulated network, a written script, or any other behaviour a theorem quantifies over.
-/

namespace EcuQuiet

/-- What an operation on the interface leaves behind: its result, the world afterwards, and what
was noted in the world meanwhile. -/
structure Reply (σ α : Type) where
  result : Except BusError α
  world : σ
  notes : List Note := []

/-- The world outside, as a tester uses it. -/
structure Link (σ : Type) where
  /-- Reads the clock. -/
  now : σ → Instant × σ
  /-- Lets time pass. -/
  sleep : Span → σ → σ
  /-- Reads the next batch of frames, from every bus of the interface. An empty batch is no
  failure. -/
  receive : σ → Reply σ (List Frame)
  /-- Sends frames, each on the bus it names. -/
  send : List Frame → σ → Reply σ Unit

end EcuQuiet
