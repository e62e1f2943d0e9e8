import EcuQuiet.Text.Hex
import EcuQuiet.Text.Quoted

/-!
# What can go wrong

A `BusError` is a failure of the interface itself. A `DiagnosticError` is the reason why an
operation with a unit did not succeed; a failure of the interface is one of them. `message` is
the only place where their wording is decided.
-/

namespace EcuQuiet

/-- A failure of the bus interface. -/
inductive BusError
  | io (reason : String)
  | writeTimeout
  | readTimeout
  | bufferFull
  | unsupportedRequest
  | notOpen
  | unknownBus (bus : UInt8)
  | api (name : String) (code : UInt8) (description : String)
deriving DecidableEq

/-- What is said about a failure of the interface. -/
def BusError.message : BusError → String
  | io reason => "IO error: " ++ reason
  | writeTimeout => "timeout writing to channel"
  | readTimeout => "timeout reading from channel"
  | bufferFull => "channel's Transmit buffer is full"
  | unsupportedRequest => "unsupported channel request"
  | notOpen => "channel's interface is not open"
  | unknownBus bus => "bus " ++ toString bus.toNat ++ " does not exist on this interface"
  | api name code description =>
    "underlying " ++ name ++ " API error (" ++ toString code.toNat ++ "): " ++ description

/-- Why a diagnostic operation failed. -/
inductive DiagnosticError
  /-- The unit refused the request. -/
  | refused (code : UInt8) (definition : Option String)
  /-- The unit did not answer in time. -/
  | noResponse
  /-- The unit sent something that does not belong here. -/
  | wrongMessage
  /-- The unit sent a message whose length is wrong. -/
  | invalidLength
  /-- The operation was asked for with arguments it cannot work with. -/
  | invalidParameter
  /-- The interface failed. -/
  | bus (cause : BusError)
deriving DecidableEq

/-- What is said about a failed operation. -/
def DiagnosticError.message : DiagnosticError → String
  | refused code definition =>
    "ECU Negative response. Error 0x" ++ Text.hexByte code ++ ", definition: "
      ++ Text.optional definition
  | noResponse => "ECU did not respond to the request"
  | wrongMessage => "ECU response is out of order"
  | invalidLength => "ECU response size was not the correct length"
  | invalidParameter => "Diagnostic function parameter invalid"
  | bus _ => "Diagnostic server hardware channel error"

end EcuQuiet
