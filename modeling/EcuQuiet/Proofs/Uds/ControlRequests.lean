import EcuQuiet.Simulation.Ecu
import Mathlib.Data.List.Basic

/-!
# Which payloads are communication control

Decoding accepts exactly what encoding produces, with anything behind it: a payload holds a request
if and only if the encoding of the request is how it begins. So no reserved byte slips through the
bit that asks for no confirmation, and no request is refused that could have been encoded. A
simulated unit obeys these payloads and looks all others up in its table.
-/

namespace EcuQuiet

namespace Uds

/-! ### The bytes of a request -/

namespace ControlType

theorem ofByte?_eq_some_iff {b : UInt8} {c : ControlType} : ofByte? b = some c ↔ b = c.byte := by
  unfold ofByte?
  constructor
  · intro h
    split_ifs at h with h0 h1 h2 h3
    all_goals
      cases h
      assumption
  · rintro rfl
    cases c <;> rfl

/-- The second byte of a request. -/
def subFunction (c : ControlType) (suppressed : Bool) : UInt8 :=
  if suppressed then c.byte ||| suppressConfirmation else c.byte

end ControlType

theorem CommunicationType.ofByte?_eq_some_iff {b : UInt8} {c : CommunicationType} :
    CommunicationType.ofByte? b = some c ↔ b = c.byte := by
  unfold ofByte?
  constructor
  · intro h
    split_ifs at h with h1 h2 h3
    all_goals
      cases h
      assumption
  · rintro rfl
    cases c <;> rfl

/-- The confirmation bit is set or not. -/
theorem and_suppressConfirmation (b : UInt8) :
    b &&& suppressConfirmation = 0 ∨ b &&& suppressConfirmation = suppressConfirmation := by
  have hbits : ∀ v : BitVec 8, v &&& 0x80#8 = 0#8 ∨ v &&& 0x80#8 = 0x80#8 := by decide
  simpa [suppressConfirmation, ← UInt8.toBitVec_inj] using hbits b.toBitVec

/-- A byte consists of its confirmation bit and the other bits. -/
theorem eq_or_suppressConfirmation (b : UInt8) :
    b = (b &&& ~~~suppressConfirmation) ||| (b &&& suppressConfirmation) := by
  have hbits : ∀ v : BitVec 8, v = (v &&& ~~~0x80#8) ||| (v &&& 0x80#8) := by decide
  simpa [suppressConfirmation, ← UInt8.toBitVec_inj] using hbits b.toBitVec

/-- A byte is a sub-function exactly if its two parts are. No control type has the bit itself, so
the parts do not get in each other's way. -/
theorem eq_subFunction_iff {b : UInt8} {c : ControlType} {suppressed : Bool} :
    b = c.subFunction suppressed ↔
      b &&& ~~~suppressConfirmation = c.byte ∧ (b &&& suppressConfirmation != 0) = suppressed := by
  constructor
  · rintro rfl
    cases c <;> cases suppressed <;> decide
  · rintro ⟨hcontrol, rfl⟩
    calc b = (b &&& ~~~suppressConfirmation) ||| (b &&& suppressConfirmation) :=
          eq_or_suppressConfirmation b
      _ = c.byte ||| (b &&& suppressConfirmation) := by rw [hcontrol]
      _ = c.subFunction (b &&& suppressConfirmation != 0) := by
          rcases and_suppressConfirmation b with hclear | hset
          · simp [hclear, ControlType.subFunction]
          · rw [hset]
            rfl

namespace ControlRequest

/-! ### Decoding and encoding -/

theorem toBytes_eq (r : ControlRequest) :
    r.toBytes = [Service.communicationControl.request, r.control.subFunction r.suppressed,
      r.communication.byte] := rfl

theorem length_toBytes (r : ControlRequest) : r.toBytes.length = 3 := rfl

/-- What decoding makes of three bytes, and of what follows them. -/
theorem ofBytes?_cons_eq_some_iff {service subFunction communication : UInt8} {rest : Bytes}
    {r : ControlRequest} :
    ofBytes? (service :: subFunction :: communication :: rest) = some r ↔
      service = Service.communicationControl.request ∧
        subFunction = r.control.subFunction r.suppressed ∧
        communication = r.communication.byte := by
  rw [eq_subFunction_iff, ← ControlType.ofByte?_eq_some_iff,
    ← CommunicationType.ofByte?_eq_some_iff, ofBytes?]
  split_ifs with hservice
  · simp only [Option.bind_eq_bind, Option.bind_eq_some_iff, Option.pure_def, Option.some.injEq]
    constructor
    · rintro ⟨control, hcontrol, communication, hcommunication, rfl⟩
      exact ⟨hservice, ⟨hcontrol, rfl⟩, hcommunication⟩
    · rintro ⟨-, ⟨hcontrol, hsuppressed⟩, hcommunication⟩
      exact ⟨r.control, hcontrol, r.communication, hcommunication, by rw [hsuppressed]⟩
  · simp [hservice]

/-- A payload holds a request exactly if it begins with its encoding. -/
theorem ofBytes?_eq_some_iff {p : Bytes} {r : ControlRequest} :
    ofBytes? p = some r ↔ r.toBytes <+: p := by
  rw [toBytes_eq]
  rcases p with _ | ⟨service, _ | ⟨subFunction, _ | ⟨communication, rest⟩⟩⟩
  · simp [ofBytes?]
  · simp [ofBytes?]
  · simp [ofBytes?]
  · rw [ofBytes?_cons_eq_some_iff]
    simp [eq_comm]

/-- What follows a request is no part of it: its encoding is the first three bytes. -/
theorem toBytes_eq_take {p : Bytes} {r : ControlRequest} (h : ofBytes? p = some r) :
    r.toBytes = p.take 3 := by
  have hbegins := List.prefix_iff_eq_take.mp (ofBytes?_eq_some_iff.mp h)
  rwa [length_toBytes] at hbegins

theorem isSome_ofBytes?_iff {p : Bytes} :
    (ofBytes? p).isSome = true ↔ ∃ r : ControlRequest, r.toBytes <+: p := by
  simp only [Option.isSome_iff_exists, ofBytes?_eq_some_iff]

theorem ofBytes?_eq_none_iff {p : Bytes} :
    ofBytes? p = none ↔ ∀ r : ControlRequest, ¬ r.toBytes <+: p := by
  simp only [Option.eq_none_iff_forall_not_mem, Option.mem_def, ofBytes?_eq_some_iff]

end ControlRequest

end Uds

namespace Simulation.Ecu

open Uds

/-! ### Units -/

/-- The unit with one more request on its record. -/
def recording (e : Ecu) (request : Bytes) : Ecu :=
  { e with requests := e.requests.push request }

/-- A unit that drops no requests obeys what begins with a communication control request. -/
theorem handle_controlled {e : Ecu} (hheeds : e.ignoring = 0) {r : ControlRequest}
    {request : Bytes} (h : r.toBytes <+: request) (now : Instant) :
    e.handle now request = ((e.recording request).control now r, []) := by
  simp only [handle, hheeds, ControlRequest.ofBytes?_eq_some_iff.mpr h, recording]

/-- All other requests it looks up in its table. -/
theorem handle_uncontrolled {e : Ecu} (hheeds : e.ignoring = 0) {request : Bytes}
    (h : ∀ r : ControlRequest, ¬ r.toBytes <+: request) (now : Instant) :
    e.handle now request = ((e.responses.lookup request).elim (e.recording request)
      ((e.recording request).respond now), []) := by
  simp only [handle, hheeds, ControlRequest.ofBytes?_eq_none_iff.mpr h, recording]
  cases e.responses.lookup request <;> rfl

end Simulation.Ecu

namespace Uds.ControlRequest

open Simulation (Ecu)

/-- Decoding accepts exactly what encoding produces. A payload holds a request if and only if it
begins with the encoding of the request, which is then its first three bytes; and a unit that drops
no requests obeys the payloads that begin with the encoding of some request, and no others. -/
theorem decodes_exactly (p : Bytes) :
    (∀ r : ControlRequest, ofBytes? p = some r ↔ r.toBytes <+: p) ∧
    (∀ r : ControlRequest, ofBytes? p = some r → r.toBytes = p.take 3) ∧
    ((ofBytes? p).isSome = true ↔ ∃ r : ControlRequest, r.toBytes <+: p) ∧
    ∀ (e : Ecu) (now : Instant), e.ignoring = 0 →
      (∀ r : ControlRequest, r.toBytes <+: p →
        e.handle now p = ((e.recording p).control now r, [])) ∧
      ((∀ r : ControlRequest, ¬ r.toBytes <+: p) →
        e.handle now p = ((e.responses.lookup p).elim (e.recording p)
          ((e.recording p).respond now), [])) := by
  refine ⟨fun r => ofBytes?_eq_some_iff, fun r => toBytes_eq_take, isSome_ofBytes?_iff,
    fun e now hheeds => ⟨fun r h => ?_, fun h => ?_⟩⟩
  · exact Ecu.handle_controlled hheeds h now
  · exact Ecu.handle_uncontrolled hheeds h now

/-- A request with something behind it, and one of a reserved kind. -/
theorem decodes_exactly_trailing :
    toBytes { control := .stopTransmitting, communication := .networkManagement } <+:
      [0x28, 0x81, 0x02, 0xFF] ∧
    ofBytes? [0x28, 0x81, 0x02, 0xFF] =
      some { control := .stopTransmitting, communication := .networkManagement } ∧
    (Ecu.diagnostic 0 0x7D0).handle 0 [0x28, 0x81, 0x02, 0xFF] =
      (((Ecu.diagnostic 0 0x7D0).recording [0x28, 0x81, 0x02, 0xFF]).control 0
        { control := .stopTransmitting, communication := .networkManagement }, []) ∧
    (Ecu.diagnostic 0 0x7D0).handle 0 [0x28, 0x85, 0x01] =
      ((Ecu.diagnostic 0 0x7D0).recording [0x28, 0x85, 0x01], []) := by
  have hbegins : toBytes { control := .stopTransmitting, communication := .networkManagement } <+:
      [0x28, 0x81, 0x02, 0xFF] := by decide
  have hreserved : ∀ r : ControlRequest, ¬ r.toBytes <+: [0x28, 0x85, 0x01] := by
    have hnone : ofBytes? [0x28, 0x85, 0x01] = none := by decide
    exact ofBytes?_eq_none_iff.mp hnone
  obtain ⟨hexact, -, -, hunit⟩ := decodes_exactly [0x28, 0x81, 0x02, 0xFF]
  obtain ⟨-, -, -, hreservedUnit⟩ := decodes_exactly [0x28, 0x85, 0x01]
  refine ⟨hbegins, (hexact _).mpr hbegins, ?_, ?_⟩
  · exact (hunit (Ecu.diagnostic 0 0x7D0) 0 rfl).1 _ hbegins
  · exact (hreservedUnit (Ecu.diagnostic 0 0x7D0) 0 rfl).2 hreserved

end Uds.ControlRequest

end EcuQuiet
