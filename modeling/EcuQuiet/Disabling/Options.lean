import EcuQuiet.Silence.Window
import EcuQuiet.Target
import EcuQuiet.Uds.CommunicationControl

/-!
# Options of a disabling

What is to be disabled, how often it is tried, and how the effect is confirmed. Options under
which no attempt could end well, or under which one could last longer than an hour in one phase,
are not valid.
-/

namespace EcuQuiet.Disabling

/-- How long a unit is left to fall silent when nothing else is said. -/
def defaultDelay : Span := { nanos := 500000000 }

/-- The longest timeout or delay of any one phase. -/
def longestPhase : Span := { nanos := 3600000000000 }

/-- What to disable, and how. -/
structure Options where
  bus : UInt8 := 0
  target : Target := default
  /-- The raw communication control request. -/
  request : Bytes := Uds.ControlRequest.toBytes {}
  /-- How long an attempt waits for the extended session. -/
  timeout : Span := .ofMillis 100
  /-- How many attempts are made at most. -/
  retry : UInt32 := 10
  /-- The addresses the unit normally transmits on. If there are some, they are watched after the
  request until they fall silent. -/
  watched : Option AddressSet := none
  /-- How long they may take to fall silent. -/
  watchTimeout : Span := .ofMillis 1500
  /-- How long the unit is left alone if nothing is watched. -/
  delay : Option Span := none
  silence : Silence.Settings := {}
deriving DecidableEq, Inhabited

namespace Options

/-- The addresses to watch, if there is any. -/
def watchedAddresses (o : Options) : Option AddressSet :=
  o.watched.filter fun a => !a.isEmpty

/-- The timeouts and delays that are bounded. -/
def phases (o : Options) : List Span :=
  o.timeout :: o.watchTimeout :: o.delay.toList

/-- Refuses options that are not valid. -/
def validate (o : Options) : Except DiagnosticError Unit :=
  if o.request.isEmpty then .error .invalidParameter
  else if o.phases.any (longestPhase < ·) then .error .invalidParameter
  else if o.watchedAddresses.isSome && o.watchTimeout ≤ o.silence.quiet then
    .error .invalidParameter
  else .ok ()

end Options

end EcuQuiet.Disabling
