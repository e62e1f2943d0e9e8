import EcuQuiet.Bytes

/-!
# Diagnostic services

The services that take a unit off its bus and keep it off, with their identifiers, and the
exchange: a request together with the beginning that an accepted response must have.
-/

namespace EcuQuiet

/-- A request and the beginning of the response that accepts it. An empty beginning accepts
whatever comes. -/
structure Exchange where
  request : Bytes
  expected : Bytes
deriving DecidableEq

/-- Whether a response has the expected beginning. -/
def Exchange.accepts (e : Exchange) (response : Bytes) : Bool :=
  e.expected.isPrefixOf response

theorem Exchange.accepts_iff {e : Exchange} {response : Bytes} :
    e.accepts response = true ↔ e.expected <+: response :=
  List.isPrefixOf_iff_prefix

namespace Uds

/-- The first byte of every negative response. -/
def negativeResponse : UInt8 := 0x7F

/-- A positive response opens with the identifier of the service plus this offset. -/
def positiveOffset : UInt8 := 0x40

/-- The bit of a sub-function byte that asks the unit not to confirm the request. -/
def suppressConfirmation : UInt8 := 0x80

/-- The services used here. -/
inductive Service
  | sessionControl
  | communicationControl
  | testerPresent
deriving DecidableEq

/-- The byte that opens a request. -/
def Service.request : Service → UInt8
  | .sessionControl => 0x10
  | .communicationControl => 0x28
  | .testerPresent => 0x3E

/-- The byte that opens a positive response. -/
def Service.response (s : Service) : UInt8 := s.request + positiveOffset

/-- The diagnostic sessions a unit can be asked to enter. -/
inductive DiagnosticSession
  | default
  | programming
  | extended
  | safetySystem
deriving DecidableEq

/-- The sub-function byte of a session. -/
def DiagnosticSession.byte : DiagnosticSession → UInt8
  | .default => 0x01
  | .programming => 0x02
  | .extended => 0x03
  | .safetySystem => 0x04

/-- Asks for a session; the unit confirms by naming it again. -/
def sessionExchange (session : DiagnosticSession) : Exchange where
  request := [Service.sessionControl.request, session.byte]
  expected := [Service.sessionControl.response, session.byte]

/-- Asks for the extended session, in which communication control is allowed. -/
def extendedSession : Exchange := sessionExchange .extended

/-- Tells a unit that its tester is still there. -/
def testerPresentRequest (suppressed : Bool) : Bytes :=
  [Service.testerPresent.request, if suppressed then suppressConfirmation else 0x00]

/-- Tells a unit that its tester is still there, and expects a confirmation unless it is
suppressed. -/
def testerPresent (suppressed : Bool) : Exchange where
  request := testerPresentRequest suppressed
  expected := if suppressed then [] else [Service.testerPresent.response, 0x00]

/-- Sends a raw communication control request. Nothing is expected, because the unit may go silent
before it can answer. -/
def communicationControl (request : Bytes) : Exchange where
  request
  expected := []

end Uds

end EcuQuiet
