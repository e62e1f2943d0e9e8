import EcuQuiet.IsoTp.Receiver
import EcuQuiet.IsoTp.Sender
import Mathlib.Data.List.Basic

/-!
# What a receiver makes of well-formed frames

The frames that carry a message, as the receiving end takes them in: the content of a frame arrives
with its filling behind it, and each kind of frame moves the assembly by exactly the part of the
message it holds. The filling is never taken for a part of the message.
-/

namespace EcuQuiet.IsoTp

theorem capacity_eq (t : Target) : capacity t = 7 ∨ capacity t = 8 := by
  obtain ⟨_, _ | sub⟩ := t
  · exact Or.inr rfl
  · exact Or.inl rfl

/-- A first frame carries some of its message, and not all of it. -/
theorem take_ne_nil {t : Target} {message : Bytes} (hlong : capacity t ≤ message.length) :
    message.take (capacity t - 2) ≠ [] := by
  have hcapacity := capacity_eq t
  rw [ne_eq, List.take_eq_nil_iff, ← List.length_eq_zero_iff]
  omega

theorem drop_ne_nil {t : Target} {message : Bytes} (hlong : capacity t ≤ message.length) :
    message.drop (capacity t - 2) ≠ [] := by
  have hcapacity := capacity_eq t
  rw [ne_eq, List.drop_eq_nil_iff]
  omega

/-- The twelve bits of a declared length. -/
theorem declared_length {size : Nat} (hsize : size ≤ longestMessage) :
    lowHalf (ofHalves 1 (size / 256)) * 256 + (UInt8.ofNat size).toNat = size := by
  rw [lowHalf_ofHalves, UInt8.toNat_ofNat']
  simp only [longestMessage] at hsize
  omega

/-- What is still missing of a message is found in front of the filling. -/
theorem take_filled {rest fill : Bytes} {room : Nat} (hfill : room < rest.length → fill = []) :
    (rest.take room ++ fill).take rest.length = rest.take room := by
  obtain hle | hlt := Nat.lt_or_ge room rest.length
  · rw [hfill hle, List.append_nil]
    exact List.take_of_length_le (by rw [List.length_take]; omega)
  · rw [List.take_of_length_le hlt, List.take_left' rfl]

theorem length_wrap (t : Target) (content : Bytes) :
    (t.wrap content).length = frameSize - capacity t + content.length := by
  obtain ⟨_, _ | sub⟩ := t
  · simp [Target.wrap, capacity, frameSize]
  · simp [Target.wrap, capacity, frameSize]; omega

namespace Settings

/-- The filling behind some content in a frame for a target. -/
def filling (c : Settings) (t : Target) (content : Bytes) : Bytes :=
  if c.padded then List.replicate (capacity t - content.length) filler else []

/-- Full content leaves no room for filling. -/
theorem filling_of_full (c : Settings) {t : Target} {content : Bytes}
    (hfull : capacity t ≤ content.length) : c.filling t content = [] := by
  rw [filling, Nat.sub_eq_zero_of_le hfull, List.replicate_zero, ite_self]

/-- A first frame is full. -/
theorem filling_first (c : Settings) {t : Target} {message : Bytes}
    (hlong : capacity t ≤ message.length) :
    c.filling t (ofHalves 1 (message.length / 256) :: UInt8.ofNat message.length
      :: message.take (capacity t - 2)) = [] := by
  have hcapacity := capacity_eq t
  apply c.filling_of_full
  simp only [List.length_cons, List.length_take]
  omega

/-- Only the last of the consecutive frames leaves room. -/
theorem filling_consecutive (c : Settings) {t : Target} {rest : Bytes} (sequence : Nat)
    (hmore : capacity t - 1 < rest.length) :
    c.filling t (ofHalves 2 sequence :: rest.take (capacity t - 1)) = [] := by
  have hcapacity := capacity_eq t
  apply c.filling_of_full
  simp only [List.length_cons, List.length_take]
  omega

/-- The endpoint that a frame is for finds its content there, with the filling behind it. -/
theorem content?_frame (c : Settings) (bus : UInt8) (t : Target) (content : Bytes) :
    t.content? (c.frame bus t content).data = some (content ++ c.filling t content) := by
  rw [← Target.content?_wrap t (content ++ c.filling t content)]
  congr 1
  rw [frame, filling]
  dsimp only
  split
  next hpadded =>
    rw [pad, List.rightpad, length_wrap, Target.wrap, Target.wrap, List.append_assoc]
    congr 3
    obtain h | h := capacity_eq t <;> simp only [h, frameSize] <;> omega
  next => rw [List.append_nil]

/-- The frame in which a message starts. -/
def startFrame (c : Settings) (bus : UInt8) (t : Target) (message : Bytes) : Frame :=
  c.frame bus t (Sender.start (capacity t) message).1

theorem frame_injective (c : Settings) {bus : UInt8} {t : Target} {first second : Bytes}
    (h : c.frame bus t first = c.frame bus t second) :
    first ++ c.filling t first = second ++ c.filling t second := by
  have hfirst := c.content?_frame bus t first
  rw [h, c.content?_frame] at hfirst
  exact (Option.some.inj hfirst).symm

end Settings

namespace Sender

theorem start_of_short {size : Nat} {message : Bytes} (h : message.length < size) :
    start size message = (ofHalves 0 message.length :: message, finished) := by
  rw [start, if_pos h]

theorem start_of_long {size : Nat} {message : Bytes} (h : size ≤ message.length) :
    start size message =
      (ofHalves 1 (message.length / 256) :: UInt8.ofNat message.length
          :: message.take (size - 2),
        blocked (message.drop (size - 2)) 1) := by
  rw [start, if_neg (Nat.not_lt.mpr h)]

/-- The kind of a start frame is that of a single frame or of a first frame. -/
theorem start_kind (size : Nat) (message : Bytes) :
    ∃ kind length rest, (start size message).1 = ofHalves kind length :: rest ∧ kind < 2 := by
  obtain hshort | hlong := Nat.lt_or_ge message.length size
  · rw [start_of_short hshort]
    exact ⟨0, _, _, rfl, by decide⟩
  · rw [start_of_long hlong]
    exact ⟨1, _, _, rfl, by decide⟩

/-- A flow control that says to go on is granted to a sender that waits for one. -/
theorem permit_blocked (rest : Bytes) (sequence : Nat) (blockSize separation : UInt8)
    (now : Instant) :
    (blocked rest sequence).permit [0x30, blockSize, separation] now =
      .granted (sending rest sequence (if blockSize = 0 then none else some blockSize.toNat)
        (separationTime separation) now) := rfl

/-- The sender behind a consecutive frame. -/
def behind (size : Nat) (now : Instant) (rest : Bytes) (sequence : Nat) (budget : Option Nat)
    (gap : Span) : Sender :=
  if (rest.drop (size - 1)).isEmpty then finished
  else
    match budget.map (· - 1) with
    | some 0 => blocked (rest.drop (size - 1)) ((sequence + 1) % 16)
    | budget => sending (rest.drop (size - 1)) ((sequence + 1) % 16) budget gap now

theorem next?_sending {size : Nat} {now since : Instant} {rest : Bytes} {sequence : Nat}
    {budget : Option Nat} {gap : Span} (h : gap.nanos ≤ now - since) :
    (sending rest sequence budget gap since).next? size now =
      some (ofHalves 2 sequence :: rest.take (size - 1),
        behind size now rest sequence budget gap) := by
  rw [next?, if_neg (Nat.not_lt.mpr h)]
  rfl

/-- Only a sender that has been told to go on hands out a frame. -/
theorem next?_eq_some {size : Nat} {now : Instant} {s after : Sender} {content : Bytes}
    (h : s.next? size now = some (content, after)) :
    ∃ rest sequence budget gap since, s = sending rest sequence budget gap since ∧
      gap.nanos ≤ now - since ∧ content = ofHalves 2 sequence :: rest.take (size - 1) ∧
      after = behind size now rest sequence budget gap := by
  cases s with
  | finished => cases h
  | blocked rest sequence => cases h
  | sending rest sequence budget gap since =>
      by_cases hgap : gap.nanos ≤ now - since
      · rw [next?_sending hgap] at h
        cases h
        exact ⟨rest, sequence, budget, gap, since, rfl, hgap, rfl, rfl⟩
      · rw [next?, if_pos (Nat.lt_of_not_le hgap)] at h
        cases h

/-- A sender from which no frame comes now has an empty burst. -/
theorem burstUpTo_of_next? {size : Nat} {now : Instant} {s : Sender}
    (h : s.next? size now = none) (limit : Nat) : burstUpTo size now limit s = [] := by
  cases limit with
  | zero => rfl
  | succ limit => rw [burstUpTo, h]

/-- A sender that may go on without a pause hands out the whole rest. -/
theorem getLast?_burstUpTo {size : Nat} {now since : Instant} {rest : Bytes} {sequence : Nat}
    (hsize : 2 ≤ size) (hrest : rest ≠ []) {limit : Nat} (hlimit : rest.length ≤ limit) :
    ((burstUpTo size now limit (sending rest sequence none .zero since)).getLast?.map (·.2)) =
      some finished := by
  have hpos : 0 < rest.length := List.length_pos_of_ne_nil hrest
  induction limit generalizing rest sequence since with
  | zero => omega
  | succ limit ih =>
      rw [burstUpTo, next?_sending (Nat.zero_le _), behind]
      by_cases hempty : (rest.drop (size - 1)).isEmpty
      · rw [if_pos hempty]
        cases limit <;> rfl
      · have hlater : rest.drop (size - 1) ≠ [] := fun h => hempty (List.isEmpty_iff.mpr h)
        have hlength : (rest.drop (size - 1)).length < rest.length := by
          rw [List.length_drop]
          omega
        have hlast := @ih now (rest.drop (size - 1)) ((sequence + 1) % 16) hlater (by omega)
          (List.length_pos_of_ne_nil hlater)
        rw [if_neg hempty]
        dsimp only [Option.map_none]
        rw [List.getLast?_cons, Option.map_some]
        obtain ⟨x, hx, hfinished⟩ := Option.map_eq_some_iff.mp hlast
        rw [hx, Option.getD_some, hfinished]

end Sender

namespace Settings

theorem startFrame_ne_flowControl (c : Settings) (bus : UInt8) (t : Target) (message : Bytes) :
    c.startFrame bus t message ≠ c.frame bus t c.flowControl := by
  intro h
  obtain ⟨kind, length, rest, hstart, hkind⟩ := Sender.start_kind (capacity t) message
  have hcontent := c.frame_injective h
  rw [hstart, flowControl, List.cons_append, List.cons_append] at hcontent
  have hhead : highHalf (ofHalves kind length) = highHalf 0x30 := by
    rw [(List.cons.inj hcontent).1]
  rw [highHalf_ofHalves, Nat.mod_eq_of_lt (by omega), show highHalf 0x30 = 3 from rfl] at hhead
  omega

/-- Of all messages, a short one is the only one that starts with its frame. -/
theorem startFrame_eq_of_short (c : Settings) {bus : UInt8} {t : Target} {message short : Bytes}
    (hshort : short.length < capacity t)
    (h : c.startFrame bus t message = c.startFrame bus t short) : message = short := by
  have hcapacity := capacity_eq t
  have hcontent := c.frame_injective h
  rw [Sender.start_of_short hshort] at hcontent
  obtain hle | hlong := Nat.lt_or_ge message.length (capacity t)
  · rw [Sender.start_of_short hle, List.cons_append, List.cons_append] at hcontent
    obtain ⟨hhead, htail⟩ := List.cons.inj hcontent
    have hlength : lowHalf (ofHalves 0 message.length) = lowHalf (ofHalves 0 short.length) := by
      rw [hhead]
    rw [lowHalf_ofHalves, lowHalf_ofHalves, Nat.mod_eq_of_lt (by omega),
      Nat.mod_eq_of_lt (by omega)] at hlength
    exact (List.append_inj htail hlength).1
  · rw [Sender.start_of_long hlong, List.cons_append, List.cons_append] at hcontent
    have hkind : highHalf (ofHalves 1 (message.length / 256)) =
        highHalf (ofHalves 0 short.length) := by
      rw [(List.cons.inj hcontent).1]
    rw [highHalf_ofHalves, highHalf_ofHalves] at hkind
    omega

end Settings

namespace Receiver

variable {r : Receiver} {a : Assembly}

/-- A single frame completes its message, whatever was under assembly. -/
theorem feed_single (r : Receiver) {message fill : Bytes}
    (hpos : 1 ≤ message.length) (hshort : message.length ≤ 7) :
    r.feed (ofHalves 0 message.length :: message ++ fill) = (r.fresh, .completed message) := by
  have hlow : lowHalf (ofHalves 0 message.length) = message.length := by
    rw [lowHalf_ofHalves]; omega
  have hne : message.length ≠ 0 := by omega
  simp only [List.cons_append, feed, highHalf_ofHalves, Nat.zero_mod, single, hlow, ne_eq, hne,
    not_false_eq_true, if_true]
  rw [if_pos ⟨by omega, by simp⟩, List.take_left' rfl]

/-- A first frame opens an assembly with the part of the message that it holds, whatever was under
assembly. -/
theorem feed_first (r : Receiver) {size : Nat} {part : Bytes} (hpos : 1 ≤ size)
    (hlong : size ≤ longestMessage) (hpart : part ≠ []) :
    r.feed (ofHalves 1 (size / 256) :: UInt8.ofNat size :: part) =
      ({ r with assembly := some { size, data := part.take size } }, .flowControlDue) := by
  obtain ⟨byte, rest, rfl⟩ := List.exists_cons_of_ne_nil hpart
  have hsize := declared_length hlong
  have hne : size ≠ 0 := by omega
  simp only [feed, highHalf_ofHalves, Nat.reduceMod, first, hsize, hne, if_false]

/-- A consecutive frame in its turn adds the next part of the rest. It completes the message when
nothing is left, and otherwise the receiver asks for the next block exactly when this one is
full. -/
theorem feed_consecutive (ha : r.assembly = some a) {rest fill : Bytes} {room : Nat}
    (hseq : a.sequence < 16) (hsize : a.size = a.data.length + rest.length)
    (hfill : room < rest.length → fill = []) :
    r.feed (ofHalves 2 a.sequence :: rest.take room ++ fill) =
      if rest.length ≤ room then (r.fresh, .completed (a.data ++ rest))
      else if r.blockSize ≠ 0 ∧ a.sinceFlow + 1 = r.blockSize.toNat then
        ({ r with assembly := some { a with
            data := a.data ++ rest.take room
            sequence := (a.sequence + 1) % 16
            sinceFlow := 0 } }, .flowControlDue)
      else
        ({ r with assembly := some { a with
            data := a.data ++ rest.take room
            sequence := (a.sequence + 1) % 16
            sinceFlow := a.sinceFlow + 1 } }, .progress) := by
  have hlow : lowHalf (ofHalves 2 a.sequence) = a.sequence := by
    rw [lowHalf_ofHalves, Nat.mod_eq_of_lt hseq]
  have htaken : (rest.take room ++ fill).take (a.size - a.data.length) = rest.take room := by
    rw [hsize, Nat.add_sub_cancel_left, take_filled hfill]
  have hdone : (a.data ++ rest.take room).length = a.size ↔ rest.length ≤ room := by
    rw [List.length_append, List.length_take, hsize]; omega
  simp only [List.cons_append, feed, highHalf_ofHalves, Nat.reduceMod, consecutive, ha, hlow,
    ne_eq, not_true_eq_false, if_false, htaken, hdone]
  split
  next hle => rw [List.take_of_length_le hle]
  next => split <;> simp_all

end Receiver

end EcuQuiet.IsoTp
