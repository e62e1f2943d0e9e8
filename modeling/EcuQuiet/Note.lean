import EcuQuiet.AddressSet
import EcuQuiet.Fault
import EcuQuiet.Target

/-!
# Notes

A `Note` is one thing worth telling the reader of a log. Each constructor is an event, `level` says
how much it matters and `text` how it is worded; nothing else in the library decides on wording.
-/

namespace EcuQuiet

/-- How much a note matters; an error matters most. -/
inductive Level
  | error
  | warning
  | debug
deriving DecidableEq

namespace Level

/-- The place of a level; a reader of level `n` is shown the notes of levels up to `n`. -/
def rank : Level → Nat
  | error => 0
  | warning => 1
  | debug => 2

/-- The word a line of the log opens with. -/
def label : Level → String
  | error => "ERROR"
  | warning => "WARN"
  | debug => "DEBUG"

end Level

/-- One event worth telling. -/
inductive Note
  -- queries
  | requesting (target : Target) (request : Bytes)
  | notWaiting
  | timeoutOutOfRange (timeout : Span)
  | unknownFrame (data : Bytes)
  | strayConsecutive (data : Bytes)
  | sequenceBroken (expected got : Nat)
  | unexpectedFlowControl (data : Bytes)
  | toldToWait
  | transmitted
  | awaitingFlowControl
  | flowControlRefused (target : Target) (reason : DiagnosticError)
  | invalidFrame (target : Target) (data : Bytes)
  | responded (target : Target) (response : Bytes)
  | busy (target : Target)
  | refused (target : Target) (code : UInt8)
  | unacceptable (target : Target) (response : Bytes)
  | unanswered (target : Target)
  -- services
  | serviceMismatch (request response : UInt8)
  -- silence
  | awaitingSilence (quiet : Span) (bus : UInt8) (addresses : AddressSet)
  -- simulated units
  | unitLostSequence (address : UInt32)
  | unitIgnoring (address : UInt32) (request : Bytes)
  -- disabling
  | disabling (target : Target)
  | optionsRejected (reason : DiagnosticError)
  | sendingControl
  | controlSent
  | verifyingSilence (addresses : AddressSet)
  | silenceVerified
  | silenceNotVerified (timeout : Span)
  | settling (delay : Span)
  | attemptUnanswered (target : Target)
  | attemptFailed (reason : DiagnosticError)
  | retrying (attempt : Nat)
  | gaveUp
deriving DecidableEq

namespace Note

/-- How much an event matters. -/
def level : Note → Level
  | timeoutOutOfRange _ | sequenceBroken _ _ | flowControlRefused _ _ | invalidFrame _ _
  | unacceptable _ _ | serviceMismatch _ _ | optionsRejected _ | attemptFailed _ | retrying _
  | gaveUp => .error
  | refused _ _ | disabling _ | sendingControl | controlSent | verifyingSilence _
  | silenceVerified | silenceNotVerified _ | settling _ => .warning
  | requesting _ _ | notWaiting | unknownFrame _ | strayConsecutive _ | unexpectedFlowControl _
  | toldToWait | transmitted | awaitingFlowControl | responded _ _ | busy _ | unanswered _
  | awaitingSilence _ _ _ | unitLostSequence _ | unitIgnoring _ _ | attemptUnanswered _ => .debug

/-- What is said of an event. -/
def text : Note → String
  | requesting target request =>
    "Sending req to ECU " ++ target.text ++ ": " ++ Text.bytes request
  | notWaiting => "No need to poll ECU response"
  | timeoutOutOfRange timeout => "Query timeout of " ++ Text.span timeout ++ " is out of range"
  | unknownFrame data => "Ignoring frame with unknown PCI " ++ Text.bytes data
  | strayConsecutive data => "Consecutive frame without a first frame " ++ Text.bytes data
  | sequenceBroken expected got =>
    "ISO-TP sequence error. Expected " ++ toString expected ++ ", got " ++ toString got
  | unexpectedFlowControl data => "Unexpected flow control " ++ Text.bytes data
  | toldToWait => "ECU requested we wait before sending more frames"
  | transmitted => "Tx done!"
  | awaitingFlowControl => "Awaiting FC"
  | flowControlRefused target reason =>
    "Flow control error from ECU " ++ target.text ++ ": " ++ reason.message
  | invalidFrame target data =>
    "Invalid ISO-TP frame from ECU " ++ target.text ++ ": " ++ Text.bytes data
  | responded target response =>
    "ECU " ++ target.text ++ " Response: " ++ Text.bytes response
  | busy target => "ECU " ++ target.text ++ " is busy, awaiting response"
  | refused target code =>
    "ECU " ++ target.text ++ " Negative response 0x" ++ Text.hexByte code
  | unacceptable target response =>
    "iso-tp query bad response from ECU " ++ target.text ++ ": " ++ Text.bytes response
  | unanswered target => "No response from ECU " ++ target.text ++ " before timeout"
  | serviceMismatch request response =>
    "ECU SID mismatch. Request SID was 0x" ++ Text.hexByte request ++ ", response SID was 0x"
      ++ Text.hexByte response
  | awaitingSilence quiet bus addresses =>
    "Waiting " ++ Text.span quiet ++ " for silence on bus " ++ toString bus.toNat ++ " from "
      ++ Text.addresses addresses.toList
  | unitLostSequence address => "Sim ECU " ++ Text.address address ++ " sequence error"
  | unitIgnoring address request =>
    "Sim ECU " ++ Text.address address ++ " ignoring " ++ Text.bytes request
  | disabling target => "ecu disable " ++ target.text ++ " ..."
  | optionsRejected reason => "ecu disable options rejected: " ++ reason.message
  | sendingControl => "communication control disable tx/rx ..."
  | controlSent => "ecu disabled"
  | verifyingSilence addresses =>
    "verifying ECU silence on addrs " ++ Text.addresses addresses.toList ++ " ..."
  | silenceVerified => "ECU silence verified"
  | silenceNotVerified timeout =>
    "ECU silence verification timed out after " ++ Text.span timeout ++ ", proceeding anyway"
  | settling delay => "waiting " ++ Text.span delay ++ " for ECU to stop transmitting ..."
  | attemptUnanswered target => "No response from " ++ target.text
  | attemptFailed reason => "ecu disable exception: " ++ reason.message
  | retrying attempt => "ecu disable retry (" ++ toString attempt ++ ") ..."
  | gaveUp => "ecu disable failed"

/-- A line of the log. -/
def line (n : Note) : String := n.level.label ++ " " ++ n.text

/-- The lines a reader of some level is shown. -/
def lines (shown : Level) (notes : List Note) : List String :=
  (notes.filter fun n => n.level.rank ≤ shown.rank).map line

end Note

end EcuQuiet
