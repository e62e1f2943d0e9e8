import EcuQuiet.IsoTp.Engine
import EcuQuiet.Proofs.IsoTp.Waiting

/-!
# The transport by positions

A conversation cuts its messages down as it goes: the rest of a request, what has come of a
response, the exchanges that follow. Here the same is kept by positions: a request with the place
that sending has reached, a response with its declared size, and the number of the exchange under
way. Positions can be wrong, so every index, every difference, every slice and every sum of a moment
and a span is checked, and nothing comes of one that fails. None of them does: what is kept by
positions tracks the conversation, step by step.
-/

namespace EcuQuiet.IsoTp.Indexed

/-! ### Checked operations -/

/-- A difference, unless it is negative. -/
def minus? (a b : Nat) : Option Nat := if b ≤ a then some (a - b) else none

/-- The next byte, unless there is none. -/
def succ? (b : UInt8) : Option UInt8 := if b.toNat + 1 < 256 then some (b + 1) else none

/-- The first byte of the consecutive frame that follows one with the given first byte. -/
def header? (header : UInt8) : Option UInt8 := if header = 0x2F then some 0x20 else succ? header

/-- The bytes between two places, unless these are out of order or out of range. -/
def slice? (bytes : Bytes) (first last : Nat) : Option Bytes :=
  if first ≤ last ∧ last ≤ bytes.length then some ((bytes.drop first).take (last - first)) else none

theorem minus?_of_le {a b : Nat} (h : b ≤ a) : minus? a b = some (a - b) := if_pos h

theorem slice?_of_le {bytes : Bytes} {first last : Nat} (horder : first ≤ last)
    (hinside : last ≤ bytes.length) :
    slice? bytes first last = some ((bytes.drop first).take (last - first)) :=
  if_pos ⟨horder, hinside⟩

/-- Up to so many bytes from some place on. -/
theorem slice?_min {bytes : Bytes} {first size last : Nat} (hfirst : first ≤ bytes.length)
    (hlast : last = first + min size (bytes.length - first)) :
    slice? bytes first last = some ((bytes.drop first).take size) := by
  rw [slice?_of_le (by omega) (by omega), hlast, Nat.add_sub_cancel_left, Option.some.injEq,
    List.take_eq_take_iff, List.length_drop]
  omega

/-- A checked computation comes to something that stands for the plain value, and says the same. -/
def Tracks {α β γ : Type} (R : α → β → Prop) (checked : Option (α × γ)) (plain : β × γ) : Prop :=
  ∃ a, checked = some (a, plain.2) ∧ R a plain.1

theorem Tracks.of_eq_some {α β γ : Type} {R : α → β → Prop} {checked : Option (α × γ)}
    {plain : β × γ} (h : Tracks R checked plain) {a : α} {c : γ} (ha : checked = some (a, c)) :
    R a plain.1 := by
  obtain ⟨_, hchecked, hstands⟩ := h
  rw [ha] at hchecked
  cases hchecked
  exact hstands

/-! ### Receiving -/

/-- The receiving end: what has come of a message, and how long it is to be. -/
structure Buffer where
  /-- Consecutive frames between two flow controls; zero for any number. -/
  blockSize : UInt8
  /-- Whether a message is under assembly. -/
  receiving : Bool := false
  /-- The number of the next consecutive frame. -/
  next : Nat := 1
  /-- Consecutive frames since our last flow control. -/
  received : Nat := 0
  /-- What has arrived. -/
  data : Bytes := []
  /-- The declared length. -/
  size : Nat := 0

namespace Buffer

/-- The buffer without a message. -/
def reset (b : Buffer) : Buffer := { blockSize := b.blockSize }

/-- The message in a single frame, which begins at some place and has a declared size. That it is
out of range is no failure but a fault of the frame. -/
def whole (b : Buffer) (frame : Bytes) (first size : Nat) : Buffer × Reception :=
  match slice? frame first (first + size) with
  | some message =>
    if 0 < size then (b.reset, .completed message) else (b.reset, .faulty .length)
  | none => (b.reset, .faulty .length)

/-- A single frame. -/
def single (b : Buffer) (frame : Bytes) : Option (Buffer × Reception) := do
  let head ← frame[0]?
  if lowHalf head = 0 then
    return b.whole frame 2 ((frame[1]?.map UInt8.toNat).getD 0)
  else
    return b.whole frame 1 (lowHalf head)

/-- A first frame. -/
def first (b : Buffer) (frame : Bytes) : Option (Buffer × Reception) := do
  if frame.length < 3 then
    return (b.reset, .faulty .length)
  else
    let high ← frame[0]?
    let low ← frame[1]?
    let size := lowHalf high * 256 + low.toNat
    if size = 0 then
      return (b.reset, .faulty .length)
    else
      let data ← slice? frame 2 (min frame.length (2 + size))
      return ({ b.reset with receiving := true, data, size }, .flowControlDue)

/-- A consecutive frame. -/
def consecutive (b : Buffer) (frame : Bytes) : Option (Buffer × Reception) := do
  if b.receiving = false then
    return (b, .stray)
  else
    let head ← frame[0]?
    if lowHalf head ≠ b.next then
      return (b.reset, .faulty (.sequence b.next (lowHalf head)))
    else
      let missing ← minus? b.size b.data.length
      let offered ← minus? frame.length 1
      let part ← slice? frame 1 (1 + min missing offered)
      let data := b.data ++ part
      if data.length = b.size then
        return (b.reset, .completed data)
      else if b.blockSize ≠ 0 ∧ b.received + 1 = b.blockSize.toNat then
        return ({ b with next := (b.next + 1) % 16, received := 0, data }, .flowControlDue)
      else
        return ({ b with next := (b.next + 1) % 16, received := b.received + 1, data }, .progress)

/-- What the buffer makes of the content of a frame. -/
def feed (b : Buffer) (frame : Bytes) : Option (Buffer × Reception) :=
  match frame with
  | [] => some (b, .nothing)
  | head :: _ =>
    match highHalf head with
    | 0 => b.single frame
    | 1 => b.first frame
    | 2 => b.consecutive frame
    | 3 => some (b, .flowControl)
    | _ => some (b, .unknown)

/-- A buffer stands for a receiver, and holds no more than the declared length. -/
inductive Holds : Buffer → Receiver → Prop
  | idle (blockSize : UInt8) : Holds { blockSize } { blockSize }
  | receiving {blockSize : UInt8} {next received size : Nat} {data : Bytes}
      (hdata : data.length ≤ size) :
      Holds { blockSize, receiving := true, next, received, data, size }
        { blockSize, assembly := some { size, data, sequence := next, sinceFlow := received } }

variable {b : Buffer} {r : Receiver}

theorem Holds.length_le (h : Holds b r) : b.data.length ≤ b.size := by
  cases h with
  | idle => exact Nat.le_refl 0
  | receiving hdata => exact hdata

theorem Holds.reset (h : Holds b r) : Holds b.reset r.fresh := by
  cases h with
  | idle blockSize => exact .idle blockSize
  | receiving => exact .idle _

theorem whole_tracks (h : Holds b r) {frame content : Bytes} {first size : Nat}
    (hcontent : frame.drop first = content) (hfirst : first ≤ frame.length) :
    Tracks Holds (some (b.whole frame first size))
      (if 0 < size ∧ size ≤ content.length then (r.fresh, Reception.completed (content.take size))
        else (r.fresh, .faulty .length)) := by
  have hlength : content.length = frame.length - first := by rw [← hcontent, List.length_drop]
  unfold whole
  by_cases hinside : size ≤ content.length
  · rw [slice?_of_le (Nat.le_add_right ..) (by omega), hcontent, Nat.add_sub_cancel_left]
    by_cases hpositive : 0 < size
    · simp only [hpositive, hinside, and_self, if_true]
      exact ⟨b.reset, rfl, h.reset⟩
    · simp only [hpositive, false_and, if_false]
      exact ⟨b.reset, rfl, h.reset⟩
  · have hnone : slice? frame first (first + size) = none := if_neg (by omega)
    simp only [hnone, hinside, and_false, if_false]
    exact ⟨b.reset, rfl, h.reset⟩

theorem single_tracks (h : Holds b r) (head : UInt8) (rest : Bytes) :
    Tracks Holds (b.single (head :: rest)) (r.single (head :: rest)) := by
  unfold single Receiver.single
  by_cases hlow : lowHalf head = 0
  · cases rest with
    | nil =>
        simp only [List.getElem?_cons_zero, Option.bind_eq_bind, Option.bind_some, hlow, ne_eq,
          not_true_eq_false, if_true, if_false]
        exact ⟨b.reset, rfl, h.reset⟩
    | cons size content =>
        simp only [List.getElem?_cons_zero, Option.bind_eq_bind, Option.bind_some, hlow, ne_eq,
          not_true_eq_false, if_true, if_false]
        exact whole_tracks h rfl (by simp)
  · simp only [List.getElem?_cons_zero, Option.bind_eq_bind, Option.bind_some, hlow, ne_eq,
      not_false_eq_true, if_true, if_false]
    exact whole_tracks h rfl (by simp)

theorem first_tracks (h : Holds b r) (frame : Bytes) :
    Tracks Holds (b.first frame) (r.first frame) := by
  have hreset : Tracks Holds (some (b.reset, Reception.faulty .length))
      (r.fresh, .faulty .length) := ⟨b.reset, rfl, h.reset⟩
  match frame with
  | [] | [_] | [_, _] => exact hreset
  | high :: low :: byte :: rest =>
      have hlong : ¬(high :: low :: byte :: rest).length < 3 := by simp
      unfold first Receiver.first
      simp only [hlong, if_false, List.getElem?_cons_zero, List.getElem?_cons_succ,
        Option.bind_eq_bind, Option.bind_some]
      generalize lowHalf high * 256 + low.toNat = size
      by_cases hsize : size = 0
      · simp only [hsize, if_true]
        exact hreset
      · have hslice : slice? (high :: low :: byte :: rest) 2
            (min (high :: low :: byte :: rest).length (2 + size)) =
              some ((byte :: rest).take size) :=
          slice?_min (by simp) (by simp only [List.length_cons]; omega)
        simp only [hsize, if_false, hslice, Option.bind_some]
        cases h with
        | idle | receiving => exact ⟨_, rfl, .receiving (List.length_take_le ..)⟩

theorem consecutive_tracks (h : Holds b r) (head : UInt8) (rest : Bytes) :
    Tracks Holds (b.consecutive (head :: rest)) (r.consecutive (head :: rest)) := by
  cases h with
  | idle blockSize => exact ⟨{ blockSize }, rfl, .idle blockSize⟩
  | @receiving blockSize next received size data hdata =>
      have hslice : slice? (head :: rest) 1 (1 + min (size - data.length) rest.length) =
          some (rest.take (size - data.length)) := slice?_min (by simp) rfl
      have hlength : (data ++ rest.take (size - data.length)).length ≤ size := by
        rw [List.length_append, List.length_take]
        omega
      unfold consecutive Receiver.consecutive
      simp only [Bool.true_eq_false, if_false, List.getElem?_cons_zero, Option.bind_eq_bind,
        Option.bind_some, minus?_of_le hdata, List.length_cons,
        minus?_of_le (Nat.le_add_left 1 rest.length), Nat.add_sub_cancel, hslice]
      split
      · exact ⟨_, rfl, .idle blockSize⟩
      · split
        · exact ⟨_, rfl, .idle blockSize⟩
        · split
          · exact ⟨_, rfl, .receiving hlength⟩
          · exact ⟨_, rfl, .receiving hlength⟩

/-- A buffer tracks its receiver, whatever frame it is fed. -/
theorem feed_tracks (h : Holds b r) (frame : Bytes) :
    Tracks Holds (b.feed frame) (r.feed frame) := by
  unfold feed Receiver.feed
  cases frame with
  | nil => exact ⟨b, rfl, h⟩
  | cons head rest =>
      dsimp only
      generalize highHalf head = kind
      match kind with
      | 0 => exact single_tracks h head rest
      | 1 => exact first_tracks h (head :: rest)
      | 2 => exact consecutive_tracks h head rest
      | 3 => exact ⟨b, rfl, h⟩
      | _ + 4 => exact ⟨b, rfl, h⟩

end Buffer

/-! ### Sending -/

/-- The sending end: a message and the place that sending has reached. -/
structure Transmission where
  message : Bytes
  position : Nat := 0
  /-- The first byte of the next consecutive frame. -/
  header : UInt8 := 0x21
  /-- Whether there are frames to come. -/
  sending : Bool := false
  /-- Whether these wait for a flow control. -/
  held : Bool := false
  /-- When the last frame or flow control was. -/
  since : Instant
  /-- Consecutive frames since the last flow control. -/
  inBlock : Nat := 0
  /-- The block size of the receiver; zero for no limit. -/
  blockSize : UInt8 := 0
  gap : Span := .zero

/-- What a flow control does. -/
inductive Verdict
  | unexpected
  | granted
  | wait
  | refused (reason : DiagnosticError)

namespace Transmission

/-- The first frame of the message. -/
def start (capacity : Nat) (x : Transmission) : Option (Transmission × Bytes) := do
  if x.message.length < capacity then
    return ({ x with position := x.message.length },
      ofHalves 0 x.message.length :: x.message)
  else
    let room ← minus? capacity 2
    let content ← slice? x.message 0 room
    return ({ x with
        position := room, header := 0x21, sending := true, held := true, inBlock := 0 },
      ofHalves 1 (x.message.length / 256) :: UInt8.ofNat x.message.length :: content)

/-- Takes in a flow control. -/
def permit (x : Transmission) (frame : Bytes) (now : Instant) :
    Option (Transmission × Verdict) := do
  if x.held = false then
    return (x, .unexpected)
  else if frame.length < 3 then
    return (x, .refused .invalidLength)
  else
    let head ← frame[0]?
    match lowHalf head with
    | 0 =>
      let blockSize ← frame[1]?
      let separation ← frame[2]?
      return ({ x with
        blockSize, gap := separationTime separation, held := false, inBlock := 0, since := now },
        .granted)
    | 1 => return (x, .wait)
    | 2 => return (x, .refused (.bus .bufferFull))
    | _ => return (x, .refused .wrongMessage)

/-- The transmission behind a consecutive frame with so many bytes of the message. -/
def behind (x : Transmission) (now : Instant) (size : Nat) (header : UInt8) : Transmission :=
  let x := { x with position := x.position + size, inBlock := x.inBlock + 1, since := now, header }
  if x.message.length ≤ x.position then { x with sending := false }
  else if x.blockSize ≠ 0 ∧ x.inBlock = x.blockSize.toNat then
    { x with held := true, inBlock := 0 }
  else x

/-- The next consecutive frame, if one may be sent now. -/
def next? (capacity : Nat) (now : Instant) (x : Transmission) :
    Option (Option (Bytes × Transmission)) := do
  if x.sending = false ∨ x.held = true then
    return none
  else if now - x.since < x.gap.nanos then
    return none
  else
    let room ← minus? capacity 1
    let left ← minus? x.message.length x.position
    let content ← slice? x.message x.position (x.position + min room left)
    let header ← header? x.header
    return some (x.header :: content, x.behind now (min room left) header)

/-- All consecutive frames that may be sent now; at most `limit`. -/
def burstUpTo (capacity : Nat) (now : Instant) :
    Nat → Transmission → Option (List (Bytes × Transmission))
  | 0, _ => some []
  | limit + 1, x => do
    match ← x.next? capacity now with
    | none => return []
    | some (frame, after) => return (frame, after) :: (← burstUpTo capacity now limit after)

/-- A transmission stands for a sender, and has not gone past the end of its message. -/
inductive Sends : Transmission → Sender → Prop
  | finished {x : Transmission} (hsending : x.sending = false) (hheld : x.held = false)
      (hposition : x.position = x.message.length) : Sends x .finished
  | blocked {x : Transmission} {sequence : Nat} (hsending : x.sending = true)
      (hheld : x.held = true) (hposition : x.position ≤ x.message.length)
      (hheader : x.header = ofHalves 2 sequence) (hsequence : sequence < 16) :
      Sends x (.blocked (x.message.drop x.position) sequence)
  | sending {x : Transmission} {sequence : Nat} {budget : Option Nat} (hsending : x.sending = true)
      (hheld : x.held = false) (hposition : x.position ≤ x.message.length)
      (hheader : x.header = ofHalves 2 sequence) (hsequence : sequence < 16)
      (hblock : x.blockSize ≠ 0 → x.inBlock < x.blockSize.toNat)
      (hbudget : budget =
        if x.blockSize = 0 then none else some (x.blockSize.toNat - x.inBlock)) :
      Sends x (.sending (x.message.drop x.position) sequence budget x.gap x.since)

variable {x : Transmission} {s : Sender} {now : Instant} {capacity : Nat}

theorem Sends.position_le (h : Sends x s) : x.position ≤ x.message.length := by
  cases h with
  | finished _ _ hposition => exact Nat.le_of_eq hposition
  | blocked _ _ hposition => exact hposition
  | sending _ _ hposition => exact hposition

/-- What is left behind the place that sending has reached is the rest. -/
theorem Sends.length_rest (h : Sends x s) : x.message.length - x.position = s.rest.length := by
  cases h with
  | finished _ _ hposition =>
      rw [hposition, Nat.sub_self]
      rfl
  | blocked | sending => exact List.length_drop.symm

theorem start_tracks (hcapacity : 2 ≤ capacity) (message : Bytes) (now : Instant) :
    ∃ x, start capacity { message, since := now } = some (x, (Sender.start capacity message).1) ∧
      Sends x (Sender.start capacity message).2 := by
  unfold start Sender.start
  dsimp only
  split
  next => exact ⟨_, rfl, .finished rfl rfl rfl⟩
  next hlong =>
    have hroom : capacity - 2 ≤ message.length := by omega
    rw [minus?_of_le hcapacity, Option.bind_eq_bind, Option.bind_some,
      slice?_of_le (Nat.zero_le _) hroom]
    exact ⟨_, rfl, .blocked rfl rfl hroom rfl (by decide)⟩

theorem permit_unexpected (hheld : x.held = false) (frame : Bytes) :
    x.permit frame now = some (x, .unexpected) := by
  unfold permit
  rw [if_pos hheld]
  rfl

/-- What a transmission makes of a flow control is what its sender makes of it. -/
theorem permit_tracks (h : Sends x s) (frame : Bytes) (now : Instant) :
    match s.permit frame now with
    | .unexpected => x.permit frame now = some (x, .unexpected)
    | .granted after => ∃ x', x.permit frame now = some (x', .granted) ∧ Sends x' after
    | .wait => x.permit frame now = some (x, .wait)
    | .refused reason => x.permit frame now = some (x, .refused reason) := by
  cases h with
  | finished _ hheld => exact permit_unexpected hheld frame
  | sending _ hheld => exact permit_unexpected hheld frame
  | blocked hsending hheld hposition hheader hsequence =>
      unfold permit Sender.permit
      have hwaits : ¬x.held = false := by simp [hheld]
      simp only [hwaits]
      rcases frame with _ | ⟨head, _ | ⟨blockSize, _ | ⟨separation, rest⟩⟩⟩
      · rfl
      · rfl
      · rfl
      · have hlong : ¬(head :: blockSize :: separation :: rest).length < 3 := by simp
        simp only [hlong, if_false, List.getElem?_cons_zero, List.getElem?_cons_succ,
          Option.bind_eq_bind, Option.bind_some]
        generalize lowHalf head = status
        rcases status with _ | _ | _ | status
        · refine ⟨_, rfl, .sending hsending rfl hposition hheader hsequence ?_ rfl⟩
          intro hlimited
          exact Nat.pos_of_ne_zero fun hzero => hlimited (UInt8.toNat_inj.mp hzero)
        · rfl
        · rfl
        · rfl

theorem header?_ofHalves {sequence : Nat} (hsequence : sequence < 16) :
    header? (ofHalves 2 sequence) = some (ofHalves 2 ((sequence + 1) % 16)) := by
  have hall : ∀ number : Fin 16,
      header? (ofHalves 2 number) = some (ofHalves 2 ((number.val + 1) % 16)) := by decide
  exact hall ⟨sequence, hsequence⟩

/-- Behind a frame the transmission is as far as its sender. -/
theorem behind_tracks {sequence : Nat} (hsending : x.sending = true) (hheld : x.held = false)
    (hposition : x.position ≤ x.message.length)
    (hblock : x.blockSize ≠ 0 → x.inBlock < x.blockSize.toNat) (capacity : Nat) (now : Instant) :
    Sends (x.behind now (min (capacity - 1) (x.message.length - x.position))
        (ofHalves 2 ((sequence + 1) % 16)))
      (Sender.behind capacity now (x.message.drop x.position) sequence
        (if x.blockSize = 0 then none else some (x.blockSize.toNat - x.inBlock)) x.gap) := by
  have hsequence : (sequence + 1) % 16 < 16 := Nat.mod_lt _ (by decide)
  have hdrop : (x.message.drop x.position).drop (capacity - 1) = x.message.drop
      (x.position + min (capacity - 1) (x.message.length - x.position)) := by
    rw [List.drop_drop, List.drop_eq_drop_iff]
    omega
  have hinside : x.position + min (capacity - 1) (x.message.length - x.position) ≤
      x.message.length := by omega
  unfold behind Sender.behind
  simp only [hdrop, List.isEmpty_iff, List.drop_eq_nil_iff]
  split
  next hend => exact .finished rfl hheld (Nat.le_antisymm hinside hend)
  next hmore =>
    by_cases hlimited : x.blockSize = 0
    · simp only [hlimited, ne_eq, not_true_eq_false, false_and, if_false, if_true, Option.map_none]
      exact .sending hsending hheld hinside rfl hsequence (absurd rfl) (if_pos rfl).symm
    · have hinBlock := hblock hlimited
      simp only [hlimited, ne_eq, not_false_eq_true, true_and, if_false, Option.map_some]
      by_cases hlast : x.inBlock + 1 = x.blockSize.toNat
      · rw [if_pos hlast, ← hlast, Nat.add_sub_cancel_left]
        exact .blocked hsending rfl hinside rfl hsequence
      · rw [if_neg hlast]
        split
        next hnone =>
          have := Option.some.inj hnone
          omega
        next =>
          refine .sending hsending hheld hinside rfl hsequence (fun _ => ?_) ?_
          · show x.inBlock + 1 < x.blockSize.toNat
            omega
          · rw [if_neg hlimited, Nat.sub_sub]

/-- A transmission hands out what its sender hands out. -/
theorem next_tracks (h : Sends x s) (capacity : Nat) (hcapacity : 1 ≤ capacity) (now : Instant) :
    match s.next? capacity now with
    | none => x.next? capacity now = some none
    | some (frame, after) =>
      ∃ x', x.next? capacity now = some (some (frame, x')) ∧ Sends x' after := by
  cases h with
  | finished hsending =>
      unfold next?
      rw [if_pos (.inl hsending)]
      rfl
  | blocked _ hheld =>
      unfold next?
      rw [if_pos (.inr hheld)]
      rfl
  | @sending sequence budget hsending hheld hposition hheader hsequence hblock hbudget =>
      have hopen : ¬(x.sending = false ∨ x.held = true) := by simp [hsending, hheld]
      unfold next?
      simp only [hopen, if_false]
      by_cases hgap : now - x.since < x.gap.nanos
      · rw [if_pos hgap, Sender.next?, if_pos hgap]
        rfl
      · have hslice : slice? x.message x.position
            (x.position + min (capacity - 1) (x.message.length - x.position)) =
              some ((x.message.drop x.position).take (capacity - 1)) := slice?_min hposition rfl
        rw [if_neg hgap, Sender.next?_sending (Nat.le_of_not_lt hgap)]
        simp only [minus?_of_le hcapacity, minus?_of_le hposition, hslice, hheader,
          header?_ofHalves hsequence, Option.bind_eq_bind, Option.bind_some, hbudget]
        exact ⟨_, rfl, behind_tracks hsending hheld hposition hblock capacity now⟩

/-- A transmission hands out the bursts of its sender. -/
theorem burstUpTo_tracks (h : Sends x s) (capacity : Nat) (hcapacity : 1 ≤ capacity)
    (now : Instant) (limit : Nat) :
    ∃ frames, x.burstUpTo capacity now limit = some frames ∧
      List.Forall₂ (fun frame plain => frame.1 = plain.1 ∧ Sends frame.2 plain.2) frames
        (s.burstUpTo capacity now limit) := by
  induction limit generalizing x s with
  | zero => exact ⟨[], rfl, .nil⟩
  | succ limit ih =>
      have hnext := next_tracks h capacity hcapacity now
      unfold burstUpTo Sender.burstUpTo
      cases hplain : s.next? capacity now with
      | none =>
          rw [hplain] at hnext
          dsimp only at hnext
          rw [hnext]
          exact ⟨[], rfl, .nil⟩
      | some next =>
          obtain ⟨frame, after⟩ := next
          rw [hplain] at hnext
          obtain ⟨x', hx, hafter⟩ := hnext
          obtain ⟨frames, hframes, hall⟩ := ih hafter
          rw [hx, Option.bind_eq_bind, Option.bind_some]
          dsimp only
          rw [hframes]
          exact ⟨_, rfl, .cons ⟨rfl, hafter⟩ hall⟩

end Transmission

end EcuQuiet.IsoTp.Indexed
