import EcuQuiet.AddressSet
import EcuQuiet.Fault
import EcuQuiet.Frame
import EcuQuiet.Time

/-!
# Silence windows

A window watches the frames of one bus for a set of addresses. It is quiet once none of them has
been seen for the quiet span, and expired once its timeout is over; when it was opened counts as
the first sighting. A window that could not become quiet before it expires is not opened.
-/

namespace EcuQuiet.Silence

/-- How silence is told from a pause. -/
structure Settings where
  /-- For how long no watched frame may be seen. -/
  quiet : Span := .ofMillis 300
  /-- The pause between two readings of the bus. -/
  poll : Span := .ofMillis 20
deriving DecidableEq, Inhabited

/-- A watch over some addresses of a bus. -/
structure Window where
  addresses : AddressSet
  bus : UInt8
  quiet : Span
  timeout : Span
  opened : Instant
  /-- When a watched frame was last seen. -/
  lastSeen : Instant
deriving DecidableEq

namespace Window

/-- Opens a window, provided that its quiet span is shorter than its timeout. -/
def open? (bus : UInt8) (addresses : AddressSet) (timeout : Span) (settings : Settings)
    (now : Instant) : Except DiagnosticError Window :=
  if timeout ≤ settings.quiet then .error .invalidParameter
  else .ok { addresses, bus, quiet := settings.quiet, timeout, opened := now, lastSeen := now }

/-- Whether a batch holds a watched frame. -/
def sees (w : Window) (batch : List Frame) : Bool :=
  batch.any fun f => f.bus = w.bus && decide (f.address ∈ w.addresses)

/-- The window after a batch received at `now`. -/
def observe (w : Window) (batch : List Frame) (now : Instant) : Window :=
  if w.sees batch then { w with lastSeen := now } else w

/-- Whether no watched frame has been seen for the quiet span. -/
def isQuiet (w : Window) (now : Instant) : Bool := w.quiet.nanos ≤ now - w.lastSeen

/-- Whether the timeout is over. -/
def isExpired (w : Window) (now : Instant) : Bool := w.timeout.nanos ≤ now - w.opened

end Window

end EcuQuiet.Silence
