import EcuQuiet.Stored.Settings
import Mathlib.Data.List.Basic

/-!
# Settings that are stored and read back

What was written is read again as it was, for every type of settings, from the numbers up to the
options of a disabling. Reading also takes values that are never written: addresses in any order and
more than once, spans whose nanoseconds are a second and more, options with fields left out. It
brings them into the form that is written, and does so once and for all.
-/

namespace EcuQuiet.Stored

/-- Settings that are read as they were written. -/
class Faithful (α : Type) [Storable α] : Prop where
  read?_write : ∀ a : α, read? (write a) = some a

/-- Settings that are never written as null, so that null can stand for their absence. -/
class Present (α : Type) [Storable α] : Prop where
  write_ne_null : ∀ a : α, write a ≠ .null

export Faithful (read?_write)

/-! ### Numbers, choices and lists -/

theorem natural?_whole {bound n : Nat} (h : n < bound) : natural? bound (.whole n) = some n := by
  have hrange : (0 : Int) ≤ n ∧ (n : Int) < bound := ⟨Int.natCast_nonneg n, Int.ofNat_lt.mpr h⟩
  simp only [natural?, if_pos hrange, Int.toNat_natCast]

instance : Faithful UInt8 where
  read?_write n := by
    show (natural? 256 (.whole n.toNat)).map UInt8.ofNat = some n
    rw [natural?_whole n.toNat_lt, Option.map_some, UInt8.ofNat_toNat]

instance : Faithful UInt32 where
  read?_write n := by
    show (natural? 4294967296 (.whole n.toNat)).map UInt32.ofNat = some n
    rw [natural?_whole n.toNat_lt, Option.map_some, UInt32.ofNat_toNat]

instance : Faithful Bool := ⟨fun _ => rfl⟩

instance : Present UInt8 := ⟨nofun⟩
instance : Present AddressSet := ⟨nofun⟩
instance : Present Span := ⟨nofun⟩

section

variable {α : Type} [Storable α] [Faithful α]

instance [Present α] : Faithful (Option α) where
  read?_write
    | none => rfl
    | some a => by
      have hpresent := Present.write_ne_null a
      have hread := read?_write a
      show read? (α := Option α) (write a) = some (some a)
      -- reading takes null for absence and hands everything else on
      cases hwrite : write a with
      | null => exact absurd hwrite hpresent
      | _ =>
        rw [hwrite] at hread
        exact congrArg (Option.map some) hread

theorem mapM_read?_write (l : List α) : (l.map write).mapM read? = some l := by
  induction l with
  | nil => rfl
  | cons a rest ih => simp [ih, read?_write]

instance : Faithful (List α) := ⟨mapM_read?_write⟩

end

/-! ### Records -/

section

variable {fields : List (String × Value)}

/-- Of fields with names of their own, each is found by its name. -/
theorem lookup_of_mem (hnames : (fields.map (·.1)).Nodup) {field : String × Value}
    (h : field ∈ fields) : fields.lookup field.1 = some field.2 := by
  induction fields with
  | nil => cases h
  | cons first rest ih =>
      rw [List.map_cons, List.nodup_cons] at hnames
      rcases List.mem_cons.mp h with rfl | hrest
      · exact List.lookup_cons_self
      · have hother : field.1 ≠ first.1 := fun heq =>
          hnames.1 (heq ▸ List.mem_map_of_mem hrest)
        rw [List.lookup_cons, beq_false_of_ne hother]
        exact ih hnames.2 hrest

/-- What is found by a name is what was kept. -/
theorem lookup_filter (kept : String → Bool) (name : String) :
    (fields.filter fun field => kept field.1).lookup name =
      if kept name then fields.lookup name else none := by
  induction fields with
  | nil => simp
  | cons field rest ih =>
      obtain ⟨other, v⟩ := field
      by_cases hname : name = other
      · subst hname
        by_cases hkept : kept name
        · simp [hkept]
        · simp [hkept, ih]
      · by_cases hkept : kept other
        · simp [List.lookup_cons, hkept, beq_false_of_ne hname, ih]
        · simp [List.lookup_cons, hkept, beq_false_of_ne hname, ih]

variable (fields)

/-- The fields of a record of which some are left out. -/
theorem fields?_filter (hnames : (fields.map (·.1)).Nodup) (kept : String → Bool) (fewest : Nat) :
    fields? (fields.map (·.1)) fewest (.record (fields.filter fun field => kept field.1)) =
      some (fields.map fun field => if kept field.1 then some field.2 else none) := by
  rw [fields?, List.map_map]
  refine congrArg some (List.map_congr_left fun field h => ?_)
  rw [Function.comp_apply, lookup_filter, lookup_of_mem hnames h]

theorem fields?_record (hnames : (fields.map (·.1)).Nodup) (fewest : Nat) :
    fields? (fields.map (·.1)) fewest (.record fields) =
      some (fields.map fun field => some field.2) := by
  simpa using fields?_filter fields hnames (fun _ => true) fewest

end

/-! ### Spans and addresses -/

theorem read?_parts {fields : List (String × Value)} {seconds nanos : Value}
    (hknown : (fields.all fun (name, _) => spanFields.contains name) = true)
    (h : fields? spanFields 2 (.record fields) = some [some seconds, some nanos]) :
    (read? (.record fields) : Option Span) =
      (do
        Span.ofParts? (← natural? 18446744073709551616 seconds)
          (← natural? 4294967296 nanos)) := by
  change Option.bind (guard ((fields.all fun (name, _) => spanFields.contains name) = true))
    (fun _ => (fields? spanFields 2 (.record fields)).bind _) = _
  rw [hknown, h]
  rfl

/-- A record of two counts is read as the span that they make up, with a billion nanoseconds and
more carried into the seconds. -/
theorem read?_span {seconds nanos : Nat} (hseconds : seconds < 18446744073709551616)
    (hnanos : nanos < 4294967296) :
    read? (.record [("secs", .whole seconds), ("nanos", .whole nanos)]) =
      Span.ofParts? seconds nanos := by
  have hknown : ([("secs", Value.whole seconds), ("nanos", Value.whole nanos)].all
      fun (name, _) => spanFields.contains name) = true := by simp [spanFields]
  have hfields := fields?_record
    [("secs", Value.whole seconds), ("nanos", Value.whole nanos)] (by simp) 2
  rw [read?_parts hknown hfields, natural?_whole hseconds, natural?_whole hnanos,
    Option.bind_eq_bind, Option.bind_some, Option.bind_some]

instance : Faithful Span where
  read?_write d := by
    have hbounded := d.bounded
    have hseconds : d.seconds < 18446744073709551616 := by
      rw [Span.seconds]
      omega
    have hnanos : d.subsecond < 4294967296 := by
      rw [Span.subsecond]
      omega
    exact (read?_span hseconds hnanos).trans d.ofParts?_parts

/-- Addresses are read in any order, and as often as they are given. -/
theorem read?_addresses (l : List UInt32) : read? (write l) = some (AddressSet.ofList l) :=
  congrArg (Option.map AddressSet.ofList) (read?_write l)

instance : Faithful AddressSet where
  read?_write s := by
    have hread := read?_addresses s.toList
    rwa [AddressSet.ofList_toList] at hread

/-! ### Structures -/

theorem read?_target {v address sub : Value}
    (h : fields? ["address", "sub_address"] 2 v = some [some address, some sub]) :
    (read? v : Option Target) =
      do return { address := ← read? address, subAddress := ← read? sub } := by
  change (fields? ["address", "sub_address"] 2 v).bind _ = _
  rw [h]
  rfl

instance : Faithful Target where
  read?_write t := by
    refine (read?_target (fields?_record
      [("address", write t.address), ("sub_address", write t.subAddress)] (by simp) 2)).trans ?_
    rw [read?_write, read?_write]
    rfl

theorem read?_silence {v quiet poll : Value}
    (h : fields? ["quiet_duration", "poll_interval"] 2 v = some [some quiet, some poll]) :
    (read? v : Option Silence.Settings) =
      do return { quiet := ← read? quiet, poll := ← read? poll } := by
  change (fields? ["quiet_duration", "poll_interval"] 2 v).bind _ = _
  rw [h]
  rfl

instance : Faithful Silence.Settings where
  read?_write s := by
    refine (read?_silence (fields?_record
      [("quiet_duration", write s.quiet), ("poll_interval", write s.poll)] (by simp) 2)).trans ?_
    rw [read?_write, read?_write]
    rfl

theorem read?_transport {v blockSize separation padded offset pending total : Value}
    (h : fields? ["block_size", "st_min", "pad_frame", "rx_offset",
        "response_pending_timeout_ms", "total_timeout_ms"] 6 v =
      some [some blockSize, some separation, some padded, some offset, some pending, some total]) :
    (read? v : Option IsoTp.Settings) = do
      return {
        blockSize := ← read? blockSize
        separation := ← read? separation
        padded := ← read? padded
        responseOffset := ← read? offset
        pendingMillis := ← read? pending
        totalMillis := ← read? total } := by
  change (fields? ["block_size", "st_min", "pad_frame", "rx_offset",
    "response_pending_timeout_ms", "total_timeout_ms"] 6 v).bind _ = _
  rw [h]
  rfl

instance : Faithful IsoTp.Settings where
  read?_write s := by
    refine (read?_transport (fields?_record
      [("block_size", write s.blockSize), ("st_min", write s.separation),
        ("pad_frame", write s.padded), ("rx_offset", write s.responseOffset),
        ("response_pending_timeout_ms", write s.pendingMillis),
        ("total_timeout_ms", write s.totalMillis)] (by simp) 6)).trans ?_
    simp only [read?_write]
    rfl

instance : Faithful Uds.ControlType where
  read?_write c := by cases c <;> decide

instance : Faithful Uds.CommunicationType where
  read?_write c := by cases c <;> decide

theorem read?_controlRequest {v control communication suppressed : Value}
    (h : fields? ["control_type", "communication_type", "suppress_positive_response"] 3 v =
      some [some control, some communication, some suppressed]) :
    (read? v : Option Uds.ControlRequest) = do
      return {
        control := ← read? control
        communication := ← read? communication
        suppressed := ← read? suppressed } := by
  change (fields? ["control_type", "communication_type", "suppress_positive_response"] 3 v).bind _
    = _
  rw [h]
  rfl

instance : Faithful Uds.ControlRequest where
  read?_write r := by
    refine (read?_controlRequest (fields?_record
      [("control_type", write r.control), ("communication_type", write r.communication),
        ("suppress_positive_response", write r.suppressed)] (by simp) 3)).trans ?_
    simp only [read?_write]
    rfl

/-! ### Options of a disabling -/

/-- The fields that options are written with. -/
def optionFields (o : Disabling.Options) : List (String × Value) :=
  [("bus", write o.bus), ("target", write o.target), ("com_cont_request", write o.request),
    ("timeout", write o.timeout), ("retry", write o.retry),
    ("verify_silence_addrs", write o.watched), ("verify_silence_timeout", write o.watchTimeout),
    ("post_disable_delay", write o.delay), ("silence", write o.silence)]

/-- Options with the usual values in the places of all fields that are not kept. -/
def keeping (kept : String → Bool) (o : Disabling.Options) : Disabling.Options :=
  let usual : Disabling.Options := {}
  { bus := if kept "bus" then o.bus else usual.bus
    target := if kept "target" then o.target else usual.target
    request := if kept "com_cont_request" then o.request else usual.request
    timeout := if kept "timeout" then o.timeout else usual.timeout
    retry := if kept "retry" then o.retry else usual.retry
    watched := if kept "verify_silence_addrs" then o.watched else usual.watched
    watchTimeout := if kept "verify_silence_timeout" then o.watchTimeout else usual.watchTimeout
    delay := if kept "post_disable_delay" then o.delay else usual.delay
    silence := if kept "silence" then o.silence else usual.silence }

theorem read?_options {v : Value}
    {bus target request timeout retry watched watchTimeout delay silence : Option Value}
    (h : fields? ["bus", "target", "com_cont_request", "timeout", "retry", "verify_silence_addrs",
        "verify_silence_timeout", "post_disable_delay", "silence"] 0 v =
      some [bus, target, request, timeout, retry, watched, watchTimeout, delay, silence]) :
    let usual : Disabling.Options := {}
    (read? v : Option Disabling.Options) = do
      return {
        bus := ← orElse? usual.bus bus
        target := ← orElse? usual.target target
        request := ← orElse? usual.request request
        timeout := ← orElse? usual.timeout timeout
        retry := ← orElse? usual.retry retry
        watched := ← orElse? usual.watched watched
        watchTimeout := ← orElse? usual.watchTimeout watchTimeout
        delay := ← orElse? usual.delay delay
        silence := ← orElse? usual.silence silence } := by
  change (fields? ["bus", "target", "com_cont_request", "timeout", "retry", "verify_silence_addrs",
    "verify_silence_timeout", "post_disable_delay", "silence"] 0 v).bind _ = _
  rw [h]
  rfl

theorem orElse?_kept {α : Type} [Storable α] [Faithful α] (missing a : α) (kept : Bool) :
    orElse? missing (if kept then some (write a) else none) =
      some (if kept then a else missing) := by
  cases kept with
  | false => rfl
  | true => exact read?_write a

/-- Options of which some fields are left out are read with the usual values in their places. -/
theorem read?_filter_optionFields (kept : String → Bool) (o : Disabling.Options) :
    read? (.record ((optionFields o).filter fun field => kept field.1)) =
      some (keeping kept o) := by
  refine (read?_options
    (fields?_filter (optionFields o) (by simp [optionFields]) kept 0)).trans ?_
  simp only [orElse?_kept]
  rfl

instance : Faithful Disabling.Options where
  read?_write o := by
    have hall : (optionFields o).filter (fun _ => true) = optionFields o :=
      List.filter_eq_self.mpr fun _ _ => rfl
    have hread := read?_filter_optionFields (fun _ => true) o
    rw [hall] at hread
    exact hread

/-! ### Coming to rest -/

/-- A type of settings whose values return from storage: they are read as they were written, and
whatever else is read as one of them is written, from then on, in a form that is read as the
same. -/
def Returns (α : Type) [Storable α] : Prop :=
  (∀ a : α, read? (write a) = some a) ∧
    ∀ v : Value, ((read? v : Option α).map write).bind read? = (read? v : Option α)

theorem Faithful.returns (α : Type) [Storable α] [Faithful α] : Returns α := by
  refine ⟨read?_write, fun v => ?_⟩
  cases (read? v : Option α) with
  | none => rfl
  | some a => exact read?_write a

theorem write_ofParts? (seconds nanos : Nat) :
    (Span.ofParts? seconds nanos).map write =
      if seconds + nanos / 1000000000 < 18446744073709551616 then
        some (.record [("secs", .whole ↑(seconds + nanos / 1000000000)),
          ("nanos", .whole ↑(nanos % 1000000000))])
      else none := by
  rw [Span.ofParts?]
  by_cases hfits : seconds * 1000000000 + nanos < 18446744073709551616 * 1000000000
  · have hseconds : (seconds * 1000000000 + nanos) / 1000000000 = seconds + nanos / 1000000000 := by
      omega
    have hnanos : (seconds * 1000000000 + nanos) % 1000000000 = nanos % 1000000000 := by
      omega
    rw [dif_pos hfits, if_pos (by omega), Option.map_some, ← hseconds, ← hnanos]
    rfl
  · rw [dif_neg hfits, if_neg (by omega)]
    rfl

/-- Stored settings return. Every value of every type of settings is read as it was written, and
every value that is read as settings comes to rest with the first time that these are written.
Addresses are read as the set that they make up, in whatever order and however often they are given;
nanoseconds are carried into the seconds, up to the longest span; and options of which some fields
are left out are read with the usual values in their places. -/
theorem settings_return :
    (Returns Disabling.Options ∧ Returns Target ∧ Returns Silence.Settings ∧
      Returns IsoTp.Settings ∧ Returns Uds.ControlRequest) ∧
    (∀ l : List UInt32, ∃ s : AddressSet, read? (write l) = some s ∧ ∀ a, a ∈ s ↔ a ∈ l) ∧
    (∀ (seconds : UInt64) (nanos : UInt32),
      (read? (.record [("secs", .whole seconds.toNat), ("nanos", .whole nanos.toNat)]) :
          Option Span).map write =
        if seconds.toNat + nanos.toNat / 1000000000 < 18446744073709551616 then
          some (.record [("secs", .whole ↑(seconds.toNat + nanos.toNat / 1000000000)),
            ("nanos", .whole ↑(nanos.toNat % 1000000000))])
        else none) ∧
    ∀ (kept : String → Bool) (o : Disabling.Options),
      read? (.record ((optionFields o).filter fun field => kept field.1)) =
        some (keeping kept o) := by
  refine ⟨⟨Faithful.returns _, Faithful.returns _, Faithful.returns _, Faithful.returns _,
    Faithful.returns _⟩, fun l => ?_, fun seconds nanos => ?_,
    read?_filter_optionFields⟩
  · exact ⟨.ofList l, read?_addresses l, fun a => AddressSet.mem_ofList⟩
  · rw [read?_span seconds.toNat_lt nanos.toNat_lt, write_ofParts?]

end EcuQuiet.Stored
