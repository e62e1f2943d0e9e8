import EcuQuiet.Proofs.IsoTp.Frames
import EcuQuiet.Proofs.Simulation.Alone
import EcuQuiet.Proofs.Simulation.Requests

/-!
# A unit in the course of one exchange

What a simulated unit that knows one response does with the frames of the request it answers: it
takes the request in, in one frame or in many, and says its response, in one frame or block by
block, each frame of a block a little later than the one before.
-/

namespace EcuQuiet.Simulation

open IsoTp

/-- The frame in which a unit says something. -/
def answer (bus : UInt8) (t : Target) (content : Bytes) : Frame where
  address := responseAddress t.address 0x08
  bus
  data := pad (t.wrap content)

/-- The unit behind a target, with one response and as far as it has come. -/
def unit (bus : UInt8) (t : Target) (r p : Bytes) (outbox : List Timed)
    (incoming : Option Incoming) (outgoing : Option Outgoing) (requests : Array Bytes) : Ecu where
  bus
  address := t.address
  subAddress := t.subAddress
  responses := [(r, p)]
  outbox
  incoming
  outgoing
  requests

/-- The next frames of a rest, `count` of them, the first of which is due at the given time. -/
def segments (bus : UInt8) (t : Target) : (count : Nat) → (due : Instant) → (sequence : Nat) →
    Bytes → List Timed
  | 0, _, _, _ => []
  | count + 1, due, sequence, rest =>
    (due, answer bus t (ofHalves 2 sequence :: rest.take (capacity t - 1))) ::
      segments bus t count (due + Ecu.spacing) ((sequence + 1) % 16) (rest.drop (capacity t - 1))

/-- What waits for the next flow control. -/
def unsent (rest : Bytes) (sequence : Nat) : Option Outgoing :=
  if rest.isEmpty then none else some { rest, sequence }

/-- What waits for the first flow control of a response. -/
def unsaid (t : Target) (message : Bytes) : Option Outgoing :=
  if message.length < capacity t then none
  else some { rest := message.drop (capacity t - 2), sequence := 1 }

/-- How many frames of a rest go out between two flow controls: as many as are needed, or as many
as are left of the block. -/
structure Block (blockSize : UInt8) (size : Nat) (rest : Bytes) (sinceFlow count : Nat) : Prop where
  pos : 0 < count
  needed : (count - 1) * size < rest.length
  whole : blockSize = 0 → rest.length ≤ count * size
  bounded : blockSize ≠ 0 → sinceFlow + count ≤ blockSize.toNat
  full : blockSize ≠ 0 → count * size < rest.length → sinceFlow + count = blockSize.toNat

theorem pred_mul_add {count size : Nat} (hcount : 0 < count) :
    (count - 1) * size + size = count * size := by
  rw [← Nat.succ_mul, Nat.succ_eq_add_one, Nat.sub_add_cancel hcount]

/-- After a frame that is not the last one of a block, the rest of the block remains. -/
theorem Block.next {blockSize : UInt8} {size : Nat} {rest : Bytes} {sinceFlow count : Nat}
    (h : Block blockSize size rest sinceFlow (count + 1)) (hpos : 0 < count) :
    Block blockSize size (rest.drop size) (sinceFlow + 1) count := by
  obtain ⟨-, hneeded, hwhole, hbounded, hfull⟩ := h
  have hcount := @pred_mul_add count size hpos
  rw [Nat.add_sub_cancel] at hneeded
  rw [Nat.succ_mul] at hwhole hfull
  refine ⟨hpos, ?_, ?_, ?_, ?_⟩
  · rw [List.length_drop]
    omega
  · intro hzero
    have hle := hwhole hzero
    rw [List.length_drop]
    omega
  · intro hne
    have hle := hbounded hne
    omega
  · intro hne hmore
    rw [List.length_drop] at hmore
    have heq := hfull hne (by omega)
    omega

/-- No frame follows the last one of a message. -/
theorem Block.last {blockSize : UInt8} {size : Nat} {rest : Bytes} {sinceFlow count : Nat}
    (h : Block blockSize size rest sinceFlow (count + 1)) (hlast : rest.length ≤ size) :
    count = 0 := by
  have hneeded := h.needed
  rw [Nat.add_sub_cancel] at hneeded
  by_contra hne
  have hle := Nat.le_mul_of_pos_left size (Nat.pos_of_ne_zero hne)
  omega

/-- A block that ends before its message is full. -/
theorem Block.ends {blockSize : UInt8} {size : Nat} {rest : Bytes} {sinceFlow : Nat}
    (h : Block blockSize size rest sinceFlow 1) (hmore : size < rest.length) :
    blockSize ≠ 0 ∧ sinceFlow + 1 = blockSize.toNat := by
  have hbounded : blockSize ≠ 0 := by
    intro hzero
    have hwhole := h.whole hzero
    omega
  exact ⟨hbounded, h.full hbounded (by omega)⟩

/-- Inside a block no flow control is due. -/
theorem Block.inside {blockSize : UInt8} {size : Nat} {rest : Bytes} {sinceFlow count : Nat}
    (h : Block blockSize size rest sinceFlow (count + 1)) (hpos : 0 < count) :
    ¬ (blockSize ≠ 0 ∧ sinceFlow + 1 = blockSize.toNat) := by
  rintro ⟨hbounded, hfull⟩
  have hle := h.bounded hbounded
  omega

/-- How many frames of a rest go out when so many of them may: all of these, or fewer when the rest
has come to its end. -/
structure Share (size left : Nat) (rest : Bytes) (count : Nat) : Prop where
  le : count ≤ left
  covers : count < left → rest.length ≤ count * size
  needed : 0 < count → (count - 1) * size < rest.length
  pos : 0 < left → rest ≠ [] → 0 < count

theorem Share.of_zero {size : Nat} (rest : Bytes) : Share size 0 rest 0 :=
  ⟨Nat.le_refl _, fun h => absurd h (Nat.lt_irrefl _), fun h => absurd h (Nat.lt_irrefl _),
    fun h => absurd h (Nat.lt_irrefl _)⟩

theorem Share.of_nil {size : Nat} (left : Nat) : Share size left [] 0 :=
  ⟨Nat.zero_le _, fun _ => Nat.zero_le _, fun h => absurd h (Nat.lt_irrefl _),
    fun _ h => absurd rfl h⟩

/-- One frame more than the share of what it leaves. -/
theorem Share.succ {size left count : Nat} {rest : Bytes} (hrest : rest ≠ [])
    (h : Share size left (rest.drop size) count) : Share size (left + 1) rest (count + 1) := by
  obtain ⟨hle, hcovers, hneeded, -⟩ := h
  rw [List.length_drop] at hcovers hneeded
  refine ⟨Nat.succ_le_succ hle, fun hlt => ?_, fun _ => ?_, fun _ _ => Nat.succ_pos _⟩
  · have hcovered := hcovers (Nat.lt_of_succ_lt_succ hlt)
    rw [Nat.succ_mul]
    omega
  · rw [Nat.add_sub_cancel]
    obtain rfl | hcount := Nat.eq_zero_or_pos count
    · rw [Nat.zero_mul]
      exact List.length_pos_of_ne_nil hrest
    · have hlt := hneeded hcount
      rw [← pred_mul_add hcount]
      omega

/-- After a flow control, the share of a rest is its next block. Without a block size, as many
frames may go out as there are bytes. -/
theorem Share.block {size count : Nat} {rest : Bytes} {blockSize : UInt8} (hsize : 0 < size)
    (hrest : rest ≠ [])
    (h : Share size (if blockSize.toNat = 0 then rest.length else blockSize.toNat) rest count) :
    Block blockSize size rest 0 count := by
  obtain ⟨hle, hcovers, hneeded, hpos⟩ := h
  by_cases hzero : blockSize.toNat = 0
  · rw [if_pos hzero] at hle hcovers hpos
    have hcount := hpos (List.length_pos_of_ne_nil hrest) hrest
    have hunbounded : blockSize = 0 := UInt8.toNat_inj.mp hzero
    refine ⟨hcount, hneeded hcount, fun _ => ?_, fun h => absurd hunbounded h,
      fun h => absurd hunbounded h⟩
    obtain hlt | heq := Nat.lt_or_eq_of_le hle
    · exact hcovers hlt
    · rw [heq]
      exact Nat.le_mul_of_pos_right _ hsize
  · rw [if_neg hzero] at hle hcovers hpos
    have hcount := hpos (Nat.pos_of_ne_zero hzero) hrest
    refine ⟨hcount, hneeded hcount, fun h => absurd (by rw [h]; rfl) hzero, fun _ => by omega,
      fun _ hmore => ?_⟩
    obtain hlt | heq := Nat.lt_or_eq_of_le hle
    · exact absurd (hcovers hlt) (Nat.not_le_of_lt hmore)
    · rw [Nat.zero_add, heq]

theorem due_le_of_mem_singleton {due : Instant} {f : Frame} {x : Timed} (hx : x ∈ [(due, f)]) :
    due ≤ x.1 := by
  obtain rfl := List.mem_singleton.mp hx
  exact Nat.le_refl _

section Segments

variable {bus : UInt8} {t : Target}

theorem due_le_of_mem_segments {count : Nat} {due : Instant} {sequence : Nat} {rest : Bytes}
    {x : Timed} (hx : x ∈ segments bus t count due sequence rest) : due ≤ x.1 := by
  induction count generalizing due sequence rest with
  | zero => exact absurd hx List.not_mem_nil
  | succ count ih =>
      obtain rfl | hrest := List.mem_cons.mp hx
      · exact Nat.le_refl _
      · exact Nat.le_trans (Nat.le_add_right _ _) (ih hrest)

theorem bus_of_mem_segments {count : Nat} {due : Instant} {sequence : Nat} {rest : Bytes}
    {x : Timed} (hx : x ∈ segments bus t count due sequence rest) : x.2.bus = bus := by
  induction count generalizing due sequence rest with
  | zero => exact absurd hx List.not_mem_nil
  | succ count ih =>
      obtain rfl | hrest := List.mem_cons.mp hx
      · rfl
      · exact ih hrest

theorem segments_pairwise (count : Nat) (due : Instant) (sequence : Nat) (rest : Bytes) :
    (segments bus t count due sequence rest).Pairwise (·.1 ≤ ·.1) := by
  induction count generalizing due sequence rest with
  | zero => exact .nil
  | succ count ih =>
      refine List.pairwise_cons.mpr ⟨fun x hx => ?_, ih _ _ _⟩
      exact Nat.le_trans (Nat.le_add_right _ _) (due_le_of_mem_segments hx)

end Segments

/-- Nothing of what is due later is ready. -/
theorem filter_eq_nil_of_later {frames : List Timed} {now : Instant}
    (h : ∀ x ∈ frames, now < x.1) : frames.filter (·.1 ≤ now) = [] :=
  List.filter_eq_nil_iff.mpr fun x hx hle => Nat.not_le_of_lt (h x hx) (of_decide_eq_true hle)

theorem filter_eq_self_of_later {frames : List Timed} {now : Instant}
    (h : ∀ x ∈ frames, now < x.1) : (frames.filter fun x => !decide (x.1 ≤ now)) = frames := by
  refine List.filter_eq_self.mpr fun x hx => ?_
  rw [decide_eq_false (Nat.not_le_of_lt (h x hx)), Bool.not_false]

section Unit

variable {bus : UInt8} {t : Target} {r p : Bytes} {outbox : List Timed}
  {incoming : Option Incoming} {outgoing : Option Outgoing} {requests : Array Bytes}

/-- A frame for the unit is heard, with its filling. -/
theorem receive_frame (c : Settings) (now : Instant) (content : Bytes) :
    (unit bus t r p outbox incoming outgoing requests).receive now (c.frame bus t content) =
      (unit bus t r p outbox incoming outgoing requests).hear now
        (content ++ c.filling t content) := Ecu.receive_of_frame _ now c content

theorem respond_unit (now : Instant) (message : Bytes) :
    (unit bus t r p [] incoming none requests).respond now message =
      unit bus t r p
        [(now + Ecu.reaction.nanos, answer bus t (Sender.start (capacity t) message).1)]
        incoming (unsaid t message) requests := by
  have hcapacity : capacity (unit bus t r p [] incoming none requests).target = capacity t := rfl
  rw [Ecu.respond, hcapacity, unsaid]
  obtain hshort | hlong := Nat.lt_or_ge message.length (capacity t)
  · rw [if_pos hshort, if_pos hshort, Sender.start_of_short hshort]
    rfl
  · rw [if_neg (Nat.not_lt.mpr hlong), if_neg (Nat.not_lt.mpr hlong),
      Sender.start_of_long hlong]
    rfl

/-- A unit starts the response to its request as soon as the request is complete. -/
theorem handle_unit (hr : Uds.ControlRequest.ofBytes? r = none) (now : Instant) :
    ((unit bus t r p [] none none #[]).handle now r).1 =
      unit bus t r p
        [(now + Ecu.reaction.nanos, answer bus t (Sender.start (capacity t) p).1)] none
        (unsaid t p) #[r] := by
  rw [← respond_unit]
  have hlookup : List.lookup r [(r, p)] = some p := List.lookup_cons_self
  unfold Ecu.handle unit
  simp only [hr, hlookup]
  rfl

/-- A request that fits one frame is answered at once. -/
theorem receive_single (c : Settings) (hr : Uds.ControlRequest.ofBytes? r = none)
    (hshort : r.length < capacity t) (now : Instant) :
    ((unit bus t r p [] none none #[]).receive now (c.startFrame bus t r)).1 =
      unit bus t r p
        [(now + Ecu.reaction.nanos, answer bus t (Sender.start (capacity t) p).1)] none
        (unsaid t p) #[r] := by
  have hcomplete := (unit bus t r p [] none none #[]).receive_short now c hshort
  rw [← handle_unit hr, ← hcomplete]
  rfl

/-- The first frame of a longer request opens its reassembly, and the unit asks for the rest. -/
theorem receive_first (c : Settings) (hlong : capacity t ≤ r.length)
    (hsize : r.length ≤ longestMessage) (now : Instant) :
    ((unit bus t r p [] none none #[]).receive now (c.startFrame bus t r)).1 =
      unit bus t r p [(now + Ecu.reaction.nanos, answer bus t [0x30, 0x00, 0x00])]
        (some { size := r.length, data := r.take (capacity t - 2), sequence := 1 }) none #[] := by
  have hcapacity := capacity_eq t
  obtain ⟨byte, more, hpart⟩ := List.exists_cons_of_ne_nil (take_ne_nil hlong)
  have hall : (byte :: more).take r.length = byte :: more := by
    rw [← hpart, List.take_take, Nat.min_eq_right (by omega)]
  rw [Settings.startFrame, Sender.start_of_long hlong, receive_frame, c.filling_first hlong,
    List.append_nil, hpart]
  simp only [Ecu.hear, highHalf_ofHalves, Nat.reduceMod, declared_length hsize, hall]
  rfl

/-- A consecutive frame in its turn adds the next part of the request; the last one has it
answered. -/
theorem receive_consecutive (c : Settings) (hr : Uds.ControlRequest.ofBytes? r = none)
    {data rest : Bytes} {sequence : Nat} (hmessage : r = data ++ rest) (hseq : sequence < 16)
    (now : Instant) :
    ((unit bus t r p [] (some { size := r.length, data, sequence }) none #[]).receive now
        (c.frame bus t (ofHalves 2 sequence :: rest.take (capacity t - 1)))).1 =
      if rest.length ≤ capacity t - 1 then
        unit bus t r p
          [(now + Ecu.reaction.nanos, answer bus t (Sender.start (capacity t) p).1)] none
          (unsaid t p) #[r]
      else
        unit bus t r p []
          (some { size := r.length, data := data ++ rest.take (capacity t - 1)
                  sequence := (sequence + 1) % 16 }) none #[] := by
  have hlow : lowHalf (ofHalves 2 sequence) = sequence := by
    rw [lowHalf_ofHalves, Nat.mod_eq_of_lt hseq]
  have hlength : r.length = data.length + rest.length := by
    rw [hmessage, List.length_append]
  have htaken : (rest.take (capacity t - 1) ++
      c.filling t (ofHalves 2 sequence :: rest.take (capacity t - 1))).take
        (r.length - data.length) = rest.take (capacity t - 1) := by
    rw [hlength, Nat.add_sub_cancel_left, take_filled (c.filling_consecutive sequence)]
  have hdone : (data ++ rest.take (capacity t - 1)).length = r.length ↔
      rest.length ≤ capacity t - 1 := by
    rw [List.length_append, List.length_take, hlength]
    omega
  rw [receive_frame]
  simp only [List.cons_append, Ecu.hear, highHalf_ofHalves, Nat.reduceMod, Ecu.consecutive, unit,
    hlow, ne_eq, not_true_eq_false, if_false, htaken, hdone]
  split
  next hle =>
    rw [List.take_of_length_le hle, ← hmessage]
    exact handle_unit hr now
  next => rfl

/-- All the frames that a sender hands out without a pause complete the request. -/
theorem receiveAll_burst (c : Settings) (hr : Uds.ControlRequest.ofBytes? r = none)
    {data rest : Bytes} {sequence : Nat} {since now : Instant} {limit : Nat}
    (hmessage : r = data ++ rest) (hrest : rest ≠ []) (hseq : sequence < 16)
    (hlimit : rest.length ≤ limit) :
    (unit bus t r p [] (some { size := r.length, data, sequence }) none #[]).receiveAll now
        ((Sender.burstUpTo (capacity t) now limit
          (.sending rest sequence none .zero since)).map fun (content, _) =>
            c.frame bus t content) =
      unit bus t r p
        [(now + Ecu.reaction.nanos, answer bus t (Sender.start (capacity t) p).1)] none
        (unsaid t p) #[r] := by
  have hcapacity := capacity_eq t
  have hpos : 0 < rest.length := List.length_pos_of_ne_nil hrest
  induction limit generalizing data rest sequence since with
  | zero => omega
  | succ limit ih =>
      rw [Sender.burstUpTo, Sender.next?_sending (Nat.zero_le _), List.map_cons,
        Ecu.receiveAll_cons, receive_consecutive c hr hmessage hseq, Sender.behind]
      by_cases hlast : rest.length ≤ capacity t - 1
      · have hempty : (rest.drop (capacity t - 1)).isEmpty := by
          rw [List.isEmpty_iff, List.drop_eq_nil_iff]
          exact hlast
        rw [if_pos hlast, if_pos hempty]
        cases limit <;> rfl
      · have hlater : rest.drop (capacity t - 1) ≠ [] := by
          rw [ne_eq, List.drop_eq_nil_iff]
          exact hlast
        have hmore : ¬ (rest.drop (capacity t - 1)).isEmpty := by
          rw [List.isEmpty_iff]
          exact hlater
        have hmessage' :
            r = (data ++ rest.take (capacity t - 1)) ++ rest.drop (capacity t - 1) := by
          rw [List.append_assoc, List.take_append_drop, hmessage]
        have hlength : (rest.drop (capacity t - 1)).length < rest.length := by
          rw [List.length_drop]
          omega
        rw [if_neg hlast, if_neg hmore]
        exact ih hmessage' hlater (Nat.mod_lt _ (by decide)) (by omega)
          (List.length_pos_of_ne_nil hlater)

/-- A unit that may send so many frames puts its share of the rest into the outbox, each frame a
little later than the one before. -/
theorem sendBlock_unit {rest : Bytes} {sequence : Nat} (hseq : sequence < 16) (now : Instant)
    (left sent : Nat) :
    ∃ count, Share (capacity t - 1) left rest count ∧
      (unit bus t r p outbox none outgoing requests).sendBlock now { rest, sequence } left sent =
        unit bus t r p
          (outbox ++ segments bus t count (now + (sent + 1) * Ecu.spacing) sequence rest) none
          (unsent (rest.drop (count * (capacity t - 1))) ((sequence + count) % 16)) requests := by
  induction left generalizing rest sequence sent outbox outgoing with
  | zero =>
      refine ⟨0, .of_zero rest, ?_⟩
      rw [Ecu.sendBlock, segments, List.append_nil, Nat.zero_mul, List.drop_zero, Nat.add_zero,
        Nat.mod_eq_of_lt hseq]
      rfl
  | succ left ih =>
      cases hrest : rest.isEmpty with
      | true =>
          obtain rfl := List.isEmpty_iff.mp hrest
          refine ⟨0, .of_nil (left + 1), ?_⟩
          rw [segments, List.append_nil, List.drop_nil]
          rfl
      | false =>
          have hne : rest ≠ [] := fun h => by rw [h] at hrest; cases hrest
          obtain ⟨count, hshare, hblock⟩ :=
            @ih (outbox ++ [(now + (sent + 1) * Ecu.spacing, answer bus t
              (ofHalves 2 sequence :: rest.take (capacity t - 1)))]) outgoing
              (rest.drop (capacity t - 1)) ((sequence + 1) % 16) (Nat.mod_lt _ (by decide))
              (sent + 1)
          -- the share of what the first frame leaves, one frame later
          have hdue : now + (sent + 1 + 1) * Ecu.spacing =
              now + (sent + 1) * Ecu.spacing + Ecu.spacing := by
            rw [Nat.succ_mul, ← Nat.add_assoc]
          have hnumber : ((sequence + 1) % 16 + count) % 16 = (sequence + (count + 1)) % 16 := by
            omega
          have hsize : capacity t - 1 + count * (capacity t - 1) =
              (count + 1) * (capacity t - 1) := by
            rw [Nat.succ_mul, Nat.add_comm]
          rw [hdue, List.drop_drop, hsize, hnumber, List.append_assoc] at hblock
          refine ⟨count + 1, hshare.succ hne, ?_⟩
          rw [Ecu.sendBlock, hrest]
          exact hblock

/-- Our flow control lets the next block out. -/
theorem receive_flowControl (c : Settings) {rest : Bytes} {sequence : Nat} (hrest : rest ≠ [])
    (hseq : sequence < 16) (now : Instant) :
    ∃ count, Block c.blockSize (capacity t - 1) rest 0 count ∧
      ((unit bus t r p [] none (some { rest, sequence }) requests).receive now
          (c.frame bus t c.flowControl)).1 =
        unit bus t r p (segments bus t count (now + Ecu.spacing) sequence rest) none
          (unsent (rest.drop (count * (capacity t - 1))) ((sequence + count) % 16)) requests := by
  have hcapacity := capacity_eq t
  have hproceed : ((unit bus t r p [] none (some { rest, sequence }) requests).receive now
      (c.frame bus t c.flowControl)).1 =
        (unit bus t r p [] none (some { rest, sequence }) requests).sendBlock now
          { rest, sequence }
          (if c.blockSize.toNat = 0 then rest.length else c.blockSize.toNat) 0 := by
    rw [receive_frame]
    rfl
  obtain ⟨count, hshare, hblock⟩ :=
    @sendBlock_unit bus t r p [] (some { rest, sequence }) requests rest sequence hseq now _ 0
  refine ⟨count, hshare.block (by omega) hrest, ?_⟩
  rw [hproceed, hblock, List.nil_append, Nat.zero_add, Nat.one_mul]

end Unit

end EcuQuiet.Simulation
