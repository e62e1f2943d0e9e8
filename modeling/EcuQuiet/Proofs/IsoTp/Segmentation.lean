import EcuQuiet.Proofs.IsoTp.Steps
import EcuQuiet.Proofs.IsoTp.Waiting

/-!
# The frames of a message

A message goes out in a fixed series of frames, its segmentation: a single frame, or a first frame
and numbered consecutive frames. A sender may be held up at any point, but what it has handed out
and what it still has to hand out are together the segmentation of its message. None of these frames
is one of our flow controls, so that the frames of requests can be told from them.
-/

namespace EcuQuiet.IsoTp

/-- The consecutive frames that carry the rest of a message, numbered from a sequence number on. -/
def consecutives (room sequence : Nat) (rest : Bytes) : List Bytes :=
  (List.range ((rest.length + room - 1) / room)).map fun k =>
    ofHalves 2 ((sequence + k) % 16) :: (rest.drop (k * room)).take room

/-- The content of the frames that carry a message, each with room for `size` bytes. -/
def segmentation (size : Nat) (message : Bytes) : List Bytes :=
  if message.length < size then [ofHalves 0 message.length :: message]
  else
    (ofHalves 1 (message.length / 256) :: UInt8.ofNat message.length :: message.take (size - 2)) ::
      consecutives (size - 1) 1 (message.drop (size - 2))

theorem consecutives_nil {room : Nat} (hroom : 0 < room) (sequence : Nat) :
    consecutives room sequence [] = [] := by
  have hcount : (([] : Bytes).length + room - 1) / room = 0 :=
    Nat.div_eq_of_lt (by rw [List.length_nil]; omega)
  rw [consecutives, hcount]
  rfl

/-- A rest takes one frame more than what the next one leaves of it. -/
theorem count_consecutives {room : Nat} (hroom : 0 < room) {rest : Bytes} (hrest : rest ≠ []) :
    (rest.length + room - 1) / room = ((rest.drop room).length + room - 1) / room + 1 := by
  have hpos := List.length_pos_of_ne_nil hrest
  rw [List.length_drop, ← Nat.add_div_right _ hroom]
  obtain hlt | hle := Nat.lt_or_ge room rest.length
  · congr 1
    omega
  · rw [Nat.sub_eq_zero_of_le hle]
    have hone : rest.length + room - 1 = rest.length - 1 + room := by omega
    have hlast : 0 + room - 1 + room = room - 1 + room := by omega
    rw [hone, hlast, Nat.add_div_right _ hroom, Nat.add_div_right _ hroom,
      Nat.div_eq_of_lt (by omega), Nat.div_eq_of_lt (by omega)]

/-- The first of the frames takes what there is room for, and the others carry what it leaves. -/
theorem consecutives_of_ne_nil {room : Nat} (hroom : 0 < room) (sequence : Nat) {rest : Bytes}
    (hrest : rest ≠ []) :
    consecutives room sequence rest =
      (ofHalves 2 sequence :: rest.take room) ::
        consecutives room ((sequence + 1) % 16) (rest.drop room) := by
  have hnumber : ofHalves 2 ((sequence + 0) % 16) = ofHalves 2 sequence := by
    simp [ofHalves]
  rw [consecutives, count_consecutives hroom hrest, List.range_succ_eq_map, List.map_cons, hnumber,
    Nat.zero_mul, List.drop_zero, List.map_map, consecutives]
  congr 1
  refine List.map_congr_left fun k _ => ?_
  have hsequence : (sequence + k.succ) % 16 = ((sequence + 1) % 16 + k) % 16 := by omega
  rw [Function.comp_apply, hsequence, List.drop_drop, Nat.succ_mul, Nat.add_comm (k * room)]

/-! ### What a sender still has to hand out -/

namespace Sender

variable {size : Nat} {now : Instant} {s after : Sender}

/-- The content of the frames that a sender still has to hand out. -/
def remaining (size : Nat) : Sender → List Bytes
  | finished => []
  | blocked rest sequence => consecutives (size - 1) sequence rest
  | sending rest sequence _ _ _ => consecutives (size - 1) sequence rest

/-- A sender starts with the segmentation of its message. -/
theorem start_remaining (size : Nat) (message : Bytes) :
    (start size message).1 :: (start size message).2.remaining size =
      segmentation size message := by
  rw [start, segmentation]
  split <;> rfl

theorem remaining_granted {content : Bytes} (h : s.permit content now = .granted after) :
    after.remaining size = s.remaining size := by
  cases s with
  | finished | sending => cases h
  | blocked rest sequence =>
      unfold permit at h
      dsimp only at h
      split at h
      · split at h
        · cases h
          rfl
        · cases h
        · cases h
        · cases h
      · cases h

theorem remaining_behind (hsize : 2 ≤ size) (now : Instant) (rest : Bytes) (sequence : Nat)
    (budget : Option Nat) (gap : Span) :
    (behind size now rest sequence budget gap).remaining size =
      consecutives (size - 1) ((sequence + 1) % 16) (rest.drop (size - 1)) := by
  unfold behind
  split
  next hnone =>
    rw [List.isEmpty_iff.mp hnone, consecutives_nil (by omega)]
    rfl
  next => split <;> rfl

/-- A frame that is handed out is the first of those that remained. -/
theorem remaining_next? {content : Bytes} (hsize : 2 ≤ size) (hs : s.Live)
    (h : s.next? size now = some (content, after)) :
    s.remaining size = content :: after.remaining size := by
  obtain ⟨rest, sequence, budget, gap, since, rfl, -, rfl, rfl⟩ := next?_eq_some h
  have hrest : rest ≠ [] := hs.resolve_left nofun
  rw [remaining_behind hsize, remaining, consecutives_of_ne_nil (by omega) sequence hrest]

/-- What a burst hands out, and what is left of the message after it, is what remained before. -/
theorem remaining_burstUpTo (hsize : 2 ≤ size) (hs : s.Live) (limit : Nat) :
    s.remaining size = (burstUpTo size now limit s).map (·.1) ++
      (((burstUpTo size now limit s).getLast?.map (·.2)).getD s).remaining size := by
  induction limit generalizing s with
  | zero => rfl
  | succ limit ih =>
      unfold burstUpTo
      split
      next => rfl
      next content after hnext =>
        rw [last_cons, remaining_next? hsize hs hnext, List.map_cons, List.cons_append]
        exact congrArg (List.cons content) (ih (live_next? hnext))

end Sender

/-! ### Frames of requests -/

/-- The frames of a segmentation are of a kind that no flow control is of. -/
theorem kind_of_mem_segmentation {size : Nat} {message content : Bytes}
    (h : content ∈ segmentation size message) :
    ∃ kind number rest, content = ofHalves kind number :: rest ∧ kind < 3 := by
  unfold segmentation at h
  split at h
  · obtain rfl := List.mem_singleton.mp h
    exact ⟨0, _, _, rfl, by decide⟩
  · rcases List.mem_cons.mp h with rfl | h
    · exact ⟨1, _, _, rfl, by decide⟩
    · obtain ⟨k, -, rfl⟩ := List.mem_map.mp h
      exact ⟨2, _, _, rfl, by decide⟩

/-- Content of a frame of a request fits the frame. -/
theorem length_of_mem_segmentation {size : Nat} {message content : Bytes} (hsize : 2 ≤ size)
    (h : content ∈ segmentation size message) : content.length ≤ size := by
  unfold segmentation at h
  split at h
  next hshort =>
    obtain rfl := List.mem_singleton.mp h
    exact hshort
  next =>
    rcases List.mem_cons.mp h with rfl | h
    · simp only [List.length_cons, List.length_take]
      omega
    · obtain ⟨k, -, rfl⟩ := List.mem_map.mp h
      simp only [List.length_cons, List.length_take]
      omega

theorem Settings.frame_ne_flowControl (c : Settings) (bus : UInt8) (t : Target) {size : Nat}
    {message content : Bytes} (h : content ∈ segmentation size message) :
    c.frame bus t content ≠ c.frame bus t c.flowControl := by
  intro heq
  obtain ⟨kind, number, rest, rfl, hkind⟩ := kind_of_mem_segmentation h
  have hcontent := c.frame_injective heq
  rw [flowControl, List.cons_append, List.cons_append] at hcontent
  have hhead : highHalf (ofHalves kind number) = highHalf 0x30 := by
    rw [(List.cons.inj hcontent).1]
  rw [highHalf_ofHalves, Nat.mod_eq_of_lt (by omega), show highHalf 0x30 = 3 from rfl] at hhead
  omega

end EcuQuiet.IsoTp
