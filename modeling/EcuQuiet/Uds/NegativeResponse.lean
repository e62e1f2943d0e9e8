/-!
# Negative response codes

What a unit may give as the reason for refusing a request. Codes from 0x81 to 0xFE that are not
named on their own report a vehicle condition; every other unnamed code is reserved. The order is
that of the constructors, and codes of one constructor are ordered by their byte.
-/

namespace EcuQuiet.Uds

/-- The reason a request was refused. -/
inductive NegativeResponse
  | generalReject
  | serviceNotSupported
  | subFunctionNotSupported
  | badLengthOrFormat
  | busyRepeatRequest
  | conditionsNotCorrect
  | requestSequenceError
  | requestOutOfRange
  | securityAccessDenied
  | responsePending
  | subFunctionNotSupportedInActiveSession
  | serviceNotSupportedInActiveSession
  | vehicleSpeedTooHigh
  | vehicleCondition (code : UInt8)
  | reserved (code : UInt8)
deriving DecidableEq

namespace NegativeResponse

/-- The meaning of a code. -/
def ofByte (code : UInt8) : NegativeResponse :=
  if code = 0x10 then generalReject
  else if code = 0x11 then serviceNotSupported
  else if code = 0x12 then subFunctionNotSupported
  else if code = 0x13 then badLengthOrFormat
  else if code = 0x21 then busyRepeatRequest
  else if code = 0x22 then conditionsNotCorrect
  else if code = 0x24 then requestSequenceError
  else if code = 0x31 then requestOutOfRange
  else if code = 0x33 then securityAccessDenied
  else if code = 0x78 then responsePending
  else if code = 0x7E then subFunctionNotSupportedInActiveSession
  else if code = 0x7F then serviceNotSupportedInActiveSession
  else if code = 0x88 then vehicleSpeedTooHigh
  else if 0x81 ≤ code ∧ code ≤ 0xFE then vehicleCondition code
  else reserved code

/-- The name of a reason, without its byte. -/
def name : NegativeResponse → String
  | generalReject => "GeneralReject"
  | serviceNotSupported => "ServiceNotSupported"
  | subFunctionNotSupported => "SubFunctionNotSupported"
  | badLengthOrFormat => "IncorrectMessageLengthOrInvalidFormat"
  | busyRepeatRequest => "BusyRepeatRequest"
  | conditionsNotCorrect => "ConditionsNotCorrect"
  | requestSequenceError => "RequestSequenceError"
  | requestOutOfRange => "RequestOutOfRange"
  | securityAccessDenied => "SecurityAccessDenied"
  | responsePending => "RequestCorrectlyReceivedResponsePending"
  | subFunctionNotSupportedInActiveSession => "SubFunctionNotSupportedInActiveSession"
  | serviceNotSupportedInActiveSession => "ServiceNotSupportedInActiveSession"
  | vehicleSpeedTooHigh => "VehicleSpeedTooHigh"
  | vehicleCondition _ => "ConditionNotCorrect"
  | reserved _ => "IsoSAEReserved"

/-- The byte of a reason that stands for a whole range of codes. -/
def code? : NegativeResponse → Option UInt8
  | vehicleCondition code | reserved code => some code
  | _ => none

/-- The place of a reason in the order of reasons. -/
def rank : NegativeResponse → Nat
  | generalReject => 0
  | serviceNotSupported => 1
  | subFunctionNotSupported => 2
  | badLengthOrFormat => 3
  | busyRepeatRequest => 4
  | conditionsNotCorrect => 5
  | requestSequenceError => 6
  | requestOutOfRange => 7
  | securityAccessDenied => 8
  | responsePending => 9
  | subFunctionNotSupportedInActiveSession => 10
  | serviceNotSupportedInActiveSession => 11
  | vehicleSpeedTooHigh => 12
  | vehicleCondition code => 13 + code.toNat
  | reserved code => 13 + 256 + code.toNat

/-- Whether the unit is still at work and its real response will follow. -/
def isPending (r : NegativeResponse) : Bool := r = responsePending

end NegativeResponse

/-- The name of what a code means. -/
def describe (code : UInt8) : String := (NegativeResponse.ofByte code).name

end EcuQuiet.Uds
