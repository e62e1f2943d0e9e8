import EcuQuiet.Uds.Service

/-!
# Communication control requests

A communication control request says which paths of a unit are switched and for which class of
messages. Its encoding is three bytes long, and decoding looks at three bytes: what follows them
is not part of the request.
-/

namespace EcuQuiet.Uds

/-- What becomes of the normal receive and transmit paths. -/
inductive ControlType
  | enableBoth
  | stopTransmitting
  | stopReceiving
  | disableBoth
deriving DecidableEq

namespace ControlType

/-- The sub-function byte, confirmation not suppressed. -/
def byte : ControlType → UInt8
  | enableBoth => 0x00
  | stopTransmitting => 0x01
  | stopReceiving => 0x02
  | disableBoth => 0x03

/-- The control type of a byte, if it is one. -/
def ofByte? (b : UInt8) : Option ControlType :=
  if b = 0x00 then some enableBoth
  else if b = 0x01 then some stopTransmitting
  else if b = 0x02 then some stopReceiving
  else if b = 0x03 then some disableBoth
  else none

/-- The name under which settings are stored. -/
def name : ControlType → String
  | enableBoth => "EnableRxAndTx"
  | stopTransmitting => "EnableRxDisableTx"
  | stopReceiving => "DisableRxEnableTx"
  | disableBoth => "DisableRxAndTx"

/-- Every control type, in the order of their bytes. -/
def all : List ControlType := [enableBoth, stopTransmitting, stopReceiving, disableBoth]

/-- Whether the unit stops its normal transmissions. -/
def silences (c : ControlType) : Bool := c = stopTransmitting ∨ c = disableBoth

end ControlType

/-- The class of messages that is switched. -/
inductive CommunicationType
  | application
  | networkManagement
  | both
deriving DecidableEq

namespace CommunicationType

/-- The byte of a class of messages. -/
def byte : CommunicationType → UInt8
  | application => 0x01
  | networkManagement => 0x02
  | both => 0x03

/-- The class of messages of a byte, if it is one. -/
def ofByte? (b : UInt8) : Option CommunicationType :=
  if b = 0x01 then some application
  else if b = 0x02 then some networkManagement
  else if b = 0x03 then some both
  else none

/-- The name under which settings are stored. -/
def name : CommunicationType → String
  | application => "NormalCommunication"
  | networkManagement => "NetworkManagement"
  | both => "NormalAndNetworkManagement"

/-- Every class of messages, in the order of their bytes. -/
def all : List CommunicationType := [application, networkManagement, both]

end CommunicationType

/-- A communication control request. The default one silences and deafens a unit for application
messages and asks for no confirmation. -/
structure ControlRequest where
  control : ControlType := .disableBoth
  communication : CommunicationType := .application
  suppressed : Bool := true
deriving DecidableEq, Inhabited

namespace ControlRequest

/-- The encoding of a request. -/
def toBytes (r : ControlRequest) : Bytes :=
  [Service.communicationControl.request,
    if r.suppressed then r.control.byte ||| suppressConfirmation else r.control.byte,
    r.communication.byte]

/-- The request that a payload opens with, if it opens with one. -/
def ofBytes? : Bytes → Option ControlRequest
  | service :: subFunction :: communication :: _ =>
    if service = Service.communicationControl.request then do
      let control ← ControlType.ofByte? (subFunction &&& ~~~suppressConfirmation)
      let communication ← CommunicationType.ofByte? communication
      return { control, communication, suppressed := subFunction &&& suppressConfirmation != 0 }
    else none
  | _ => none

/-- What was encoded is decoded again. -/
theorem ofBytes?_toBytes (r : ControlRequest) : ofBytes? r.toBytes = some r := by
  obtain ⟨control, communication, suppressed⟩ := r
  cases control <;> cases communication <;> cases suppressed <;> rfl

end ControlRequest

end EcuQuiet.Uds
