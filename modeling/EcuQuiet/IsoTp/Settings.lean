import EcuQuiet.Frame
import EcuQuiet.Target
import EcuQuiet.Time

/-!
# Transport settings

The parameters of the transport that carries diagnostic messages over eight-byte frames, where a
unit answers, and how much of a message fits one frame.
-/

namespace EcuQuiet.IsoTp

/-- The parameters of the transport. -/
structure Settings where
  /-- How many consecutive frames we accept between two flow controls; zero for any number. -/
  blockSize : UInt8 := 8
  /-- The separation time we ask for. -/
  separation : UInt8 := 20
  /-- Whether every frame is filled up to eight bytes. -/
  padded : Bool := true
  /-- Distance from an 11-bit request address to the address of the answer. -/
  responseOffset : UInt32 := 0x08
  /-- Milliseconds that a busy unit is given for its real response. -/
  pendingMillis : UInt32 := 4000
  /-- Milliseconds after which no unit is waited for any longer, unless the query itself asks for
  more. -/
  totalMillis : UInt32 := 10000
deriving DecidableEq, Inhabited

/-- The bytes of a frame. -/
def frameSize : Nat := 8

/-- The byte that fills frames up. -/
def filler : UInt8 := 0xCC

/-- The longest message the transport carries. -/
def longestMessage : Nat := 4095

/-- The address a unit answers on. A 29-bit address has its two low bytes exchanged; to an 11-bit
address an offset is added, modulo the word. -/
def responseAddress (request offset : UInt32) : UInt32 :=
  if largestStandardAddress < request then
    (request &&& (0xFFFF0000 : UInt32)) ||| ((request <<< (8 : UInt32)) &&& (0xFF00 : UInt32))
      ||| ((request >>> (8 : UInt32)) &&& (0xFF : UInt32))
  else request + offset

/-- The separation time of a flow control byte: milliseconds up to 127, then a few steps of
100 microseconds; reserved bytes ask for the longest time. -/
def separationTime (b : UInt8) : Span :=
  if b ≤ 0x7F then Span.ofMillis b.toUInt32
  else if 0xF1 ≤ b ∧ b ≤ 0xF9 then
    { nanos := (b.toNat - 0xF0) * 100000, bounded := by have := b.toNat_lt; omega }
  else Span.ofMillis 0x7F

/-- The bytes of a frame that are left for the transport after the extra address byte. -/
def capacity (t : Target) : Nat := frameSize - t.subAddress.toList.length

/-- Content filled up to the size of a frame. -/
def pad (content : Bytes) : Bytes := content.rightpad frameSize filler

namespace Settings

/-- The frame that carries transport content to a target. -/
def frame (c : Settings) (bus : UInt8) (t : Target) (content : Bytes) : Frame where
  address := t.address
  bus
  data := if c.padded then pad (t.wrap content) else t.wrap content

/-- Our flow control: go on, with our block size and separation time. -/
def flowControl (c : Settings) : Bytes := [0x30, c.blockSize, c.separation]

/-- How much longer a busy unit is waited for. -/
def pendingWait (c : Settings) : Span := Span.ofMillis c.pendingMillis

/-- The longest that a query with the given timeout may last. -/
def longestWait (c : Settings) (timeout : Span) : Span := max timeout (Span.ofMillis c.totalMillis)

end Settings

end EcuQuiet.IsoTp
