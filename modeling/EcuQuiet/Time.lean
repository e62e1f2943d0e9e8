/-!
# Spans and instants

A `Span` is a length of time and an `Instant` a reading of a monotonic clock, both in whole
nanoseconds. Spans have 64-bit seconds; instants are unbounded numbers, and `Instant.after?` says
which of them a clock can still represent, so that a wait whose end lies beyond the clock's range
can be refused before it starts.
-/

namespace EcuQuiet

/-- A length of time in nanoseconds whose whole seconds fit 64 bits. -/
@[ext]
structure Span where
  nanos : Nat
  bounded : nanos < 18446744073709551616 * 1000000000 := by decide
deriving DecidableEq

namespace Span

instance : Inhabited Span := ⟨{ nanos := 0 }⟩

/-- No time at all. -/
def zero : Span := { nanos := 0 }

/-- The longest span. -/
def longest : Span := { nanos := 18446744073709551616 * 1000000000 - 1 }

/-- A span of milliseconds, as diagnostic settings count them. -/
def ofMillis (millis : UInt32) : Span where
  nanos := millis.toNat * 1000000
  bounded := by have := millis.toNat_lt; omega

/-- A span of 64-bit nanoseconds. -/
def ofNanos (nanos : UInt64) : Span where
  nanos := nanos.toNat
  bounded := by have := nanos.toNat_lt; omega

/-- Whole seconds and further nanoseconds; a billion of these and more carry into the seconds.
Gives nothing when the seconds then exceed 64 bits. -/
def ofParts? (seconds nanos : Nat) : Option Span :=
  if h : seconds * 1000000000 + nanos < 18446744073709551616 * 1000000000 then
    some { nanos := seconds * 1000000000 + nanos, bounded := h }
  else none

/-- The whole seconds of a span. -/
def seconds (d : Span) : Nat := d.nanos / 1000000000

/-- What a span has beyond its whole seconds. -/
def subsecond (d : Span) : Nat := d.nanos % 1000000000

instance : LE Span := ⟨fun a b => a.nanos ≤ b.nanos⟩
instance : LT Span := ⟨fun a b => a.nanos < b.nanos⟩
instance (a b : Span) : Decidable (a ≤ b) := inferInstanceAs (Decidable (a.nanos ≤ b.nanos))
instance (a b : Span) : Decidable (a < b) := inferInstanceAs (Decidable (a.nanos < b.nanos))

/-- The longer of two spans. -/
instance : Max Span := ⟨fun a b => if a ≤ b then b else a⟩

theorem le_iff {a b : Span} : a ≤ b ↔ a.nanos ≤ b.nanos := Iff.rfl

theorem lt_iff {a b : Span} : a < b ↔ a.nanos < b.nanos := Iff.rfl

theorem nanos_max (a b : Span) : (max a b).nanos = max a.nanos b.nanos := by
  show (if a ≤ b then b else a).nanos = _
  simp only [le_iff]
  split <;> omega

/-- The parts of a span give it back. -/
theorem ofParts?_parts (d : Span) : ofParts? d.seconds d.subsecond = some d := by
  have hd := d.bounded
  have hsum : d.seconds * 1000000000 + d.subsecond = d.nanos := by
    simp only [seconds, subsecond]; omega
  rw [ofParts?, dif_pos (by omega)]
  exact congrArg some (Span.ext hsum)

end Span

/-- A reading of a monotonic clock, in nanoseconds after the clock's origin. The time between two
readings is their truncated difference, which is zero when the second is the earlier one. -/
abbrev Instant := Nat

namespace Instant

/-- The last instant a clock with signed 64-bit seconds can show. The origin of such a clock is
not the start of its range, and one second is kept for it. -/
def latest : Instant := 9223372036854775807 * 1000000000 - 1

/-- The instant `wait` after `now`, if a clock can show it. -/
def after? (now : Instant) (wait : Span) : Option Instant :=
  if now + wait.nanos ≤ latest then some (now + wait.nanos) else none

theorem after?_eq_some_iff {now : Instant} {wait : Span} {t : Instant} :
    after? now wait = some t ↔ t = now + wait.nanos ∧ t ≤ latest := by
  rw [after?]
  split
  next h =>
    constructor
    · rintro ⟨rfl⟩; exact ⟨rfl, h⟩
    · rintro ⟨rfl, _⟩; rfl
  next h =>
    constructor
    · intro hnone; cases hnone
    · rintro ⟨rfl, hle⟩; exact absurd hle h

end Instant

end EcuQuiet
