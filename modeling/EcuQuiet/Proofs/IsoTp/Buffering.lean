import EcuQuiet.Proofs.IsoTp.Indexed
import EcuQuiet.Proofs.IsoTp.Reassembly

/-!
# The fields of a receive buffer

A receiver holds a message under assembly or nothing. A buffer keeps the same in six fields that are
there at any time, so an end of a message that forgets one of them would leave it to the next
message. No end does. Whatever frames come, the fields stay in their ranges and agree with one
another, and once a message is over, completed or given up, the buffer goes on as a new one. The
ranges are proved of the receiver, handler by handler; a buffer has them as it tracks its receiver.
-/

namespace EcuQuiet.IsoTp

/-! ### Messages under assembly -/

/-- The ranges of a message under assembly, for a block size. -/
structure Assembly.InRange (blockSize : UInt8) (a : Assembly) : Prop where
  size_le : a.size ≤ longestMessage
  sequence_lt : a.sequence < 16
  sinceFlow_lt : blockSize ≠ 0 → a.sinceFlow < blockSize.toNat

namespace Receiver

variable {r after : Receiver} {frame : Bytes} {reception : Reception}

/-- If a receiver has a message under assembly, that is in its ranges. -/
def InRange (r : Receiver) : Prop := ∀ a, r.assembly = some a → a.InRange r.blockSize

theorem inRange_of_none (h : r.assembly = none) : r.InRange := by
  intro a ha
  rw [h] at ha
  cases ha

/-- A single frame leaves nothing under assembly, whether there is a message in it or not. -/
theorem single_fst (r : Receiver) (frame : Bytes) : (r.single frame).1 = r.fresh := by
  unfold single
  dsimp only
  rw [apply_ite Prod.fst]
  exact ite_self _

theorem inRange_first (r : Receiver) {head : UInt8} (rest : Bytes) (hkind : highHalf head = 1) :
    (r.first (head :: rest)).1.InRange := by
  unfold first
  split
  next high low byte content hframe =>
    cases hframe
    dsimp only
    split
    next => exact inRange_of_none rfl
    next =>
      intro a ha
      cases ha
      refine ⟨?_, (by decide : 1 < 16), fun hlimited => ?_⟩
      · exact Declares.le_longestMessage ⟨head, low, byte :: content, rfl, hkind, rfl⟩
      · exact UInt8.lt_iff_toNat_lt.mp (UInt8.pos_iff_ne_zero.mpr hlimited)
  next => exact inRange_of_none rfl

theorem InRange.consecutive (h : r.InRange) (frame : Bytes) : (r.consecutive frame).1.InRange := by
  unfold Receiver.consecutive
  cases ha : r.assembly with
  | none => exact h
  | some a =>
      cases frame with
      | nil => exact h
      | cons head content =>
          dsimp only
          -- the frame is out of turn, or completes the message, or others follow
          split
          next => exact inRange_of_none rfl
          next =>
            split
            next => exact inRange_of_none rfl
            next =>
              obtain ⟨hsize, -, hblock⟩ := h a ha
              intro further hfurther
              cases hfurther
              refine ⟨hsize, Nat.mod_lt _ (by decide), fun hlimited => ?_⟩
              have hbefore := hblock hlimited
              dsimp only
              split
              next => omega
              next hinside =>
                -- a count that had come to the block size would have been set back
                have hother : a.sinceFlow + 1 ≠ r.blockSize.toNat :=
                  fun hdone => hinside ⟨hlimited, hdone⟩
                omega

/-- Every frame keeps the ranges. -/
theorem InRange.feed (h : r.InRange) (frame : Bytes) : (r.feed frame).1.InRange := by
  unfold Receiver.feed
  cases frame with
  | nil => exact h
  | cons head rest =>
      dsimp only
      split
      next =>
        rw [single_fst]
        exact inRange_of_none rfl
      next hkind => exact inRange_first r rest hkind
      next => exact h.consecutive (head :: rest)
      next => exact h
      next => exact h

theorem InRange.fed (h : r.InRange) (frames : List Bytes) : (r.fed frames).InRange := by
  induction frames generalizing r with
  | nil => exact h
  | cons frame rest ih => exact ih (h.feed frame)

theorem Feeds.blockSize_eq (h : r.Feeds frame after reception) : after.blockSize = r.blockSize := by
  cases h <;> rfl

theorem blockSize_fed (r : Receiver) (frames : List Bytes) :
    (r.fed frames).blockSize = r.blockSize := by
  induction frames generalizing r with
  | nil => rfl
  | cons frame rest ih => exact (ih (r.feed frame).1).trans (r.feeds frame).blockSize_eq

end Receiver

/-! ### Buffers -/

namespace Indexed.Buffer

variable {b : Buffer} {r : Receiver}

/-- Takes in frames, one after the other, and collects what is made of them. -/
def feedAll (b : Buffer) : List Bytes → Option (Buffer × List Reception)
  | [] => some (b, [])
  | frame :: rest => do
    let (b, reception) ← b.feed frame
    let (b, receptions) ← b.feedAll rest
    return (b, reception :: receptions)

/-- What the fields of a buffer obey at any time. -/
structure Consistent (blockSize : UInt8) (b : Buffer) : Prop where
  /-- The block size is the one that the buffer was made with. -/
  blockSize_eq : b.blockSize = blockSize
  next_le : b.next ≤ 15
  /-- What has arrived is no longer than declared, and that no longer than a message can be. -/
  receiving : b.receiving = true → b.data.length ≤ b.size ∧ b.size ≤ longestMessage
  /-- Without a message there is nothing left of an earlier one. -/
  idle : b.receiving = false → b.data = [] ∧ b.next = 1 ∧ b.received = 0
  received_lt : blockSize ≠ 0 → b.received < blockSize.toNat

theorem Holds.consistent (h : Holds b r) (hr : r.InRange) : b.Consistent r.blockSize := by
  cases h with
  | idle blockSize =>
      refine ⟨rfl, (by decide : 1 ≤ 15), nofun, fun _ => ⟨rfl, rfl, rfl⟩, fun hlimited => ?_⟩
      exact UInt8.lt_iff_toNat_lt.mp (UInt8.pos_iff_ne_zero.mpr hlimited)
  | receiving hdata =>
      obtain ⟨hsize, hsequence, hblock⟩ := hr _ rfl
      exact ⟨rfl, Nat.le_of_lt_succ hsequence, fun _ => ⟨hdata, hsize⟩, nofun, hblock⟩

/-- A buffer that stands for a receiver without a message is a new one. -/
theorem Holds.eq_new (h : Holds b r) (hnone : r.assembly = none) :
    b = { blockSize := r.blockSize } := by
  cases h with
  | idle => rfl
  | receiving => cases hnone

/-- A buffer tracks its receiver through any frames. -/
theorem feedAll_tracks (h : Holds b r) (frames : List Bytes) :
    Tracks Holds (b.feedAll frames) (r.fed frames, r.receptions frames) := by
  induction frames generalizing b r with
  | nil => exact ⟨b, rfl, h⟩
  | cons frame rest ih =>
      obtain ⟨next, hnext, hholds⟩ := feed_tracks h frame
      obtain ⟨after, hafter, hend⟩ := ih hholds
      refine ⟨after, ?_, hend⟩
      rw [feedAll, hnext, Option.bind_eq_bind, Option.bind_some]
      dsimp only
      rw [hafter]
      rfl

/-- Every sequence of frames keeps the fields of a buffer consistent, with no check that fails, and
the buffer makes of the frames what the receiver makes of them. The next frame is taken in as well;
if it completes a message or makes no sense, the buffer has no message afterwards and takes in all
that comes later as a new buffer would. -/
theorem buffer_consistent (blockSize : UInt8) (frames : List Bytes) :
    ∃ b : Buffer,
      feedAll { blockSize } frames = some (b, Receiver.receptions { blockSize } frames) ∧
      Holds b (Receiver.fed { blockSize } frames) ∧ b.Consistent blockSize ∧
      ∀ frame, ∃ after reception, b.feed frame = some (after, reception) ∧
        (reception.isEnd → after.receiving = false ∧
          ∀ later, after.feedAll later = feedAll { blockSize } later) := by
  obtain ⟨b, hfed, hholds⟩ := feedAll_tracks (.idle blockSize) frames
  have hblockSize : (Receiver.fed { blockSize } frames).blockSize = blockSize :=
    Receiver.blockSize_fed { blockSize } frames
  have hrange : (Receiver.fed { blockSize } frames).InRange :=
    Receiver.InRange.fed (Receiver.inRange_of_none rfl) frames
  refine ⟨b, hfed, hholds, hblockSize ▸ hholds.consistent hrange, fun frame => ?_⟩
  obtain ⟨after, hafter, hnext⟩ := feed_tracks hholds frame
  refine ⟨after, _, hafter, fun hend => ?_⟩
  have hfeeds := (Receiver.fed { blockSize } frames).feeds frame
  have hnew : after = { blockSize } := by
    rw [hnext.eq_new (hfeeds.assembly_of_isEnd hend), hfeeds.blockSize_eq, hblockSize]
  rw [hnew]
  exact ⟨rfl, fun _ => rfl⟩

/-- A message of thirty bytes in blocks of two, given up in its second block at a frame out of
turn. -/
theorem buffer_consistent_brokenOff :
    let frames : List Bytes :=
      [[0x10, 30, 1, 2, 3, 4, 5, 6], [0x21, 7, 8, 9, 10, 11, 12, 13],
        [0x22, 14, 15, 16, 17, 18, 19, 20], [0x23, 21, 22, 23, 24, 25, 26, 27]]
    ∃ b : Buffer,
      feedAll { blockSize := 2 } frames =
        some (b, [.flowControlDue, .progress, .flowControlDue, .progress]) ∧
      (b.receiving = true ∧ b.received = 1 ∧ b.data.length = 27) ∧ b.Consistent 2 ∧
      ∃ after, b.feed [0x25, 28, 29, 30] = some (after, .faulty (.sequence 4 5)) ∧
        after.receiving = false ∧
          ∀ later, after.feedAll later = feedAll { blockSize := 2 } later := by
  intro frames
  obtain ⟨b, hfed, -, hconsistent, hlater⟩ := buffer_consistent 2 frames
  have hreached : feedAll { blockSize := 2 } frames =
      some ({ blockSize := 2, receiving := true, next := 4, received := 1,
              data := (List.range' 1 27).map UInt8.ofNat, size := 30 },
        [.flowControlDue, .progress, .flowControlDue, .progress]) := rfl
  rw [hfed, Option.some.injEq, Prod.mk.injEq] at hreached
  obtain ⟨rfl, hreceptions⟩ := hreached
  obtain ⟨after, reception, hafter, hover⟩ := hlater [0x25, 28, 29, 30]
  cases hafter
  exact ⟨_, hfed.trans (by rw [hreceptions]), ⟨rfl, rfl, rfl⟩, hconsistent, _, rfl, hover rfl⟩

end Indexed.Buffer

end EcuQuiet.IsoTp
