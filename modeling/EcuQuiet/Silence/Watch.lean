import EcuQuiet.Bus.Run
import EcuQuiet.Silence.Window

/-!
# Waiting for silence

The bus is read at intervals until a window over it is quiet or expired. Expiry is looked at before
a reading and quiet right after it, so a window that becomes quiet in its last reading counts as
quiet.
-/

namespace EcuQuiet.Silence

variable {σ : Type} (link : Link σ)

/-- One reading: whether the window has been decided, or the window to go on with. -/
def look (poll : Span) (w : Window) : Run σ (Window ⊕ Bool) := do
  let now ← link.clock
  if w.isExpired now then
    return .inr false
  else
    let batch ← link.batch
    let now ← link.clock
    let w := w.observe batch now
    if w.isQuiet now then
      return .inr true
    else
      link.pause poll
      return .inl w

/-- Whether some addresses of a bus fall silent within the timeout, found out in at most the given
number of readings. -/
def watch (rounds : Nat) (bus : UInt8) (addresses : AddressSet) (timeout : Span)
    (settings : Settings) : Run σ Bool := do
  Run.note (.awaitingSilence settings.quiet bus addresses)
  let now ← link.clock
  let w ← Run.ofExcept (Window.open? bus addresses timeout settings now)
  Run.loop (look link settings.poll) rounds w

end EcuQuiet.Silence
