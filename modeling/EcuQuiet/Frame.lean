import EcuQuiet.Bytes

/-!
# Frames

One raw frame of a vehicle network. An interface may serve several buses, so every frame carries
the number of the bus it was received from or is to be sent on.
-/

namespace EcuQuiet

/-- A raw frame: arbitration identifier, bus number and content. -/
structure Frame where
  address : UInt32
  bus : UInt8
  data : Bytes
deriving DecidableEq

/-- The largest 11-bit identifier. -/
def largestStandardAddress : UInt32 := 0x7FF

/-- Whether the identifier needs the 29-bit form. -/
def Frame.isExtended (f : Frame) : Bool := largestStandardAddress < f.address

end EcuQuiet
