import EcuQuiet.Disabling.Options
import EcuQuiet.IsoTp.Engine
import EcuQuiet.Silence.Watch
import EcuQuiet.Uds.Confirmation

/-!
# Attempts to disable a unit

An attempt asks for the extended session, sends the communication control request without waiting
for a response, and then either watches the unit fall silent or leaves it some time. Whatever goes
wrong on the way ends the attempt, and the next one starts from the session request again.
-/

namespace EcuQuiet.Disabling

/-- How the last phase of a disabling ended. -/
inductive Silencing
  /-- No attempt came so far. -/
  | notReached
  /-- The unit fell silent. -/
  | confirmed
  /-- The unit was still transmitting when the watch ended. -/
  | timedOut
  /-- Nothing was watched; the unit was left alone for some time. -/
  | left (delay : Span)
deriving DecidableEq

/-- What came of a disabling. -/
structure Outcome where
  /-- Whether communication control was sent after the session was entered. -/
  disabled : Bool
  attempts : Nat
  silencing : Silencing
deriving DecidableEq

variable {σ : Type} (engine : Engine σ) (link : Link σ) (rounds : Nat) (o : Options)

/-- The query for the extended session. -/
def sessionQuery : Query where
  bus := o.bus
  targets := [o.target]
  exchanges := [Uds.extendedSession]
  timeout := o.timeout

/-- The query that sends communication control. -/
def controlQuery : Query where
  bus := o.bus
  targets := [o.target]
  exchanges := [Uds.communicationControl o.request]
  timeout := .zero

/-- Enters the extended session. -/
def enterSession : Run σ Unit := do
  let answers ← engine (sessionQuery o)
  let response ← Run.ofExcept ((answers.get? o.target).getD (.error .noResponse))
  let (verdict, notes) := Uds.confirm Uds.Service.sessionControl.request response
  Run.noteAll notes
  Run.ofExcept verdict

/-- Watches the unit fall silent, or leaves it some time. A unit that is still transmitting when
the watch ends counts as disabled all the same. -/
def awaitSilence : Run σ Silencing := do
  match o.watchedAddresses with
  | some addresses =>
    Run.note (.verifyingSilence addresses)
    if ← Silence.watch link rounds o.bus addresses o.watchTimeout o.silence then
      Run.note .silenceVerified
      return .confirmed
    else
      Run.note (.silenceNotVerified o.watchTimeout)
      return .timedOut
  | none =>
    let delay := o.delay.getD defaultDelay
    Run.note (.settling delay)
    link.pause delay
    return .left delay

/-- One attempt, from the session request to the confirmation of silence. -/
def attempt : Run σ Silencing := do
  enterSession engine o
  Run.note .sendingControl
  let _ ← engine (controlQuery o)
  Run.note .controlSent
  awaitSilence link rounds o

/-- The note on an attempt that failed. -/
def failureNote (target : Target) : DiagnosticError → Note
  | .noResponse => .attemptUnanswered target
  | reason => .attemptFailed reason

/-- Makes up to `left` further attempts after the `made` ones that failed. -/
def attempts (attempt : Run σ Silencing) (target : Target) :
    (left made : Nat) → Logged σ → Option (Outcome × Logged σ)
  | 0, made, w =>
    some ({ disabled := false, attempts := made, silencing := .notReached }, w.note .gaveUp)
  | left + 1, made, w =>
    match attempt w with
    | none => none
    | some (.ok silencing, w) =>
      some ({ disabled := true, attempts := made + 1, silencing }, w)
    | some (.error reason, w) =>
      attempts attempt target left (made + 1)
        ((w.note (failureNote target reason)).note (.retrying (made + 1)))

/-- Disables a unit. Options that are not valid are noted and nothing is attempted. -/
def run (w : Logged σ) : Option (Outcome × Logged σ) :=
  let w := w.note (.disabling o.target)
  match o.validate with
  | .error reason =>
    some ({ disabled := false, attempts := 0, silencing := .notReached },
      w.note (.optionsRejected reason))
  | .ok () => attempts (attempt engine link rounds o) o.target o.retry.toNat 0 w

/-- Disables a unit over the transport with its usual parameters. -/
def runOverFrames : Logged σ → Option (Outcome × Logged σ) :=
  run (IsoTp.engine {} link rounds) link rounds o

end EcuQuiet.Disabling
