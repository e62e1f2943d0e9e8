import EcuQuiet.Disabling.Options
import EcuQuiet.IsoTp.Settings
import EcuQuiet.Stored.Value

/-!
# Stored settings

How spans, addresses, targets, requests and the settings of each part are written as structured
values. Every structure is written as a record with all its fields. It is read from a record with
other fields besides, or from a list with the fields in order; only the options of a disabling may
leave fields out, and a target its extra address byte. A span admits no other field.
-/

namespace EcuQuiet.Stored

/-- The names of the parts of a span. -/
def spanFields : List String := ["secs", "nanos"]

instance : Storable Span where
  write d := .record [("secs", .whole d.seconds), ("nanos", .whole d.subsecond)]
  read? v := do
    if let .record fields := v then
      guard (fields.all fun (name, _) => spanFields.contains name)
    match ← fields? spanFields 2 v with
    | [some seconds, some nanos] =>
      Span.ofParts? (← natural? 18446744073709551616 seconds) (← natural? 4294967296 nanos)
    | _ => none

instance : Storable AddressSet where
  write s := write s.toList
  read? v := (read? v).map AddressSet.ofList

instance : Storable Target where
  write t := .record [("address", write t.address), ("sub_address", write t.subAddress)]
  read? v := do
    match ← fields? ["address", "sub_address"] 2 v with
    | [address, sub] => return { address := ← required? address, subAddress := ← orElse? none sub }
    | _ => none

instance : Storable Silence.Settings where
  write s := .record [("quiet_duration", write s.quiet), ("poll_interval", write s.poll)]
  read? v := do
    match ← fields? ["quiet_duration", "poll_interval"] 2 v with
    | [quiet, poll] => return { quiet := ← required? quiet, poll := ← required? poll }
    | _ => none

instance : Storable IsoTp.Settings where
  write s := .record [
    ("block_size", write s.blockSize),
    ("st_min", write s.separation),
    ("pad_frame", write s.padded),
    ("rx_offset", write s.responseOffset),
    ("response_pending_timeout_ms", write s.pendingMillis),
    ("total_timeout_ms", write s.totalMillis)]
  read? v := do
    let names := ["block_size", "st_min", "pad_frame", "rx_offset",
      "response_pending_timeout_ms", "total_timeout_ms"]
    match ← fields? names 6 v with
    | [blockSize, separation, padded, offset, pending, total] => return {
        blockSize := ← required? blockSize
        separation := ← required? separation
        padded := ← required? padded
        responseOffset := ← required? offset
        pendingMillis := ← required? pending
        totalMillis := ← required? total }
    | _ => none

instance : Storable Uds.ControlType where
  write c := .text c.name
  read? := choice? Uds.ControlType.all Uds.ControlType.name

instance : Storable Uds.CommunicationType where
  write c := .text c.name
  read? := choice? Uds.CommunicationType.all Uds.CommunicationType.name

instance : Storable Uds.ControlRequest where
  write r := .record [
    ("control_type", write r.control),
    ("communication_type", write r.communication),
    ("suppress_positive_response", write r.suppressed)]
  read? v := do
    match ← fields? ["control_type", "communication_type", "suppress_positive_response"] 3 v with
    | [control, communication, suppressed] => return {
        control := ← required? control
        communication := ← required? communication
        suppressed := ← required? suppressed }
    | _ => none

instance : Storable Disabling.Options where
  write o := .record [
    ("bus", write o.bus),
    ("target", write o.target),
    ("com_cont_request", write o.request),
    ("timeout", write o.timeout),
    ("retry", write o.retry),
    ("verify_silence_addrs", write o.watched),
    ("verify_silence_timeout", write o.watchTimeout),
    ("post_disable_delay", write o.delay),
    ("silence", write o.silence)]
  read? v := do
    let names := ["bus", "target", "com_cont_request", "timeout", "retry",
      "verify_silence_addrs", "verify_silence_timeout", "post_disable_delay", "silence"]
    let usual : Disabling.Options := {}
    match ← fields? names 0 v with
    | [bus, target, request, timeout, retry, watched, watchTimeout, delay, silence] => return {
        bus := ← orElse? usual.bus bus
        target := ← orElse? usual.target target
        request := ← orElse? usual.request request
        timeout := ← orElse? usual.timeout timeout
        retry := ← orElse? usual.retry retry
        watched := ← orElse? usual.watched watched
        watchTimeout := ← orElse? usual.watchTimeout watchTimeout
        delay := ← orElse? usual.delay delay
        silence := ← orElse? usual.silence silence }
    | _ => none

end EcuQuiet.Stored
