import EcuQuiet.Proofs.IsoTp.Segmentation
import EcuQuiet.Proofs.Simulation.Requests

/-!
# Two ways to cut a message

Messages are cut into frames in two places: a sender hands out one frame after the other for as
long as its budget lasts, and a simulated unit puts a whole block into its outbox at once. Under
the same flow controls, none of which asks for pauses, both come to the same frames, block by block,
and wait for the next flow control at the same times.
-/

namespace EcuQuiet

open IsoTp

/-- A flow control that says to go on, with the given block size and without pauses. -/
def goOn (blockSize : UInt8) : Bytes := [0x30, blockSize, 0x00]

/-! ### The two sides -/

namespace IsoTp.Sender

/-- The sender that is left when all that may be sent now was handed out. -/
def afterBurst (size : Nat) (now : Instant) (s : Sender) : Sender :=
  ((s.burst size now).getLast?.map (·.2)).getD s

/-- The blocks of content that a sender hands out when it is told to go on again and again, each
time while it waits for that, and the sender that is left at the end. A block may be handed out at
any time after its flow control. -/
inductive HandsOut (size : Nat) :
    Sender → List (Instant × UInt8) → List (List Bytes) → Sender → Prop
  | nothing (s : Sender) : HandsOut size s [] [] s
  | block {s granted last : Sender} {now later : Instant} {blockSize : UInt8}
      {given : List (Instant × UInt8)} {blocks : List (List Bytes)}
      (awaited : s.permit (goOn blockSize) now = .granted granted)
      (others : HandsOut size (granted.afterBurst size later) given blocks last) :
      HandsOut size s ((now, blockSize) :: given)
        ((granted.burst size later).map (·.1) :: blocks) last

end IsoTp.Sender

namespace Simulation.Ecu

/-- The second unit is the first one with frames of the given data put into its outbox, behind all
that waited there, and perhaps something else to wait for. -/
structure Queues (e : Ecu) (data : List Bytes) (e' : Ecu) : Prop where
  outbox : ∃ added, e'.outbox = e.outbox ++ added ∧ added.map (·.2.data) = data
  target : e'.target = e.target

/-- The blocks of frame data that a unit puts into its outbox when it is told to go on again and
again, and the unit at the end. -/
inductive Says : Ecu → List (Instant × UInt8) → List (List Bytes) → Ecu → Prop
  | nothing (e : Ecu) : Says e [] [] e
  | block {e last : Ecu} {now : Instant} {blockSize : UInt8} {data : List Bytes}
      {given : List (Instant × UInt8)} {blocks : List (List Bytes)}
      (queued : Queues e data (e.hear now (goOn blockSize)).1)
      (others : Says (e.hear now (goOn blockSize)).1 given blocks last) :
      Says e ((now, blockSize) :: given) (data :: blocks) last

theorem queues_nothing {e e' : Ecu} (houtbox : e'.outbox = e.outbox)
    (htarget : e'.target = e.target) : Queues e [] e' :=
  ⟨⟨[], by rw [houtbox, List.append_nil], rfl⟩, htarget⟩

theorem queues_queue (e : Ecu) (due : Instant) (content : Bytes) :
    Queues e [pad (e.target.wrap content)] (e.queue due content) :=
  ⟨⟨[(due, e.frame content)], rfl, rfl⟩, rfl⟩

theorem Queues.trans {e e' e'' : Ecu} {first others : List Bytes} (h : Queues e first e')
    (h' : Queues e' others e'') : Queues e (first ++ others) e'' := by
  obtain ⟨⟨added, houtbox, hdata⟩, htarget⟩ := h
  obtain ⟨⟨added', houtbox', hdata'⟩, htarget'⟩ := h'
  refine ⟨⟨added ++ added', ?_, ?_⟩, htarget'.trans htarget⟩
  · rw [houtbox', houtbox, List.append_assoc]
  · rw [List.map_append, hdata, hdata']

end Simulation.Ecu

/-! ### One block -/

namespace Simulation

/-- What a unit and a sender still have to say is the same, and both wait for a flow control with
it. -/
inductive Abreast : Option Outgoing → Sender → Prop
  | done : Abreast none .finished
  | waiting {rest : Bytes} {sequence : Nat} (more : rest ≠ []) :
      Abreast (some { rest, sequence }) (.blocked rest sequence)

/-- So many frames may still be sent in a block: a number of them, or as many as there are bytes. -/
def Allows (left : Nat) (rest : Bytes) (budget : Option Nat) : Prop :=
  budget = some left ∧ 0 < left ∨ budget = none ∧ rest.length ≤ left

/-- A block size allows as many frames on both sides. -/
theorem allows_of_blockSize (blockSize : UInt8) (rest : Bytes) :
    Allows (if blockSize.toNat = 0 then rest.length else blockSize.toNat) rest
      (if blockSize = 0 then none else some blockSize.toNat) := by
  by_cases hzero : blockSize = 0
  · subst hzero
    exact .inr ⟨rfl, Nat.le_refl _⟩
  · have hne : blockSize.toNat ≠ 0 := fun h => hzero (UInt8.toNat_inj.mp h)
    rw [if_neg hzero, if_neg hne]
    exact .inl ⟨rfl, Nat.pos_of_ne_zero hne⟩

/-- Behind the first frame of a block, nothing is left of the block, or the rest of the block allows
the rest of the frames. -/
theorem Allows.behind {left size : Nat} {rest : Bytes} {budget : Option Nat}
    (h : Allows (left + 1) rest budget) (hsize : 2 ≤ size) (now : Instant) (sequence : Nat)
    (gap : Span) (hmore : rest.drop (size - 1) ≠ []) :
    (left = 0 ∧ Sender.behind size now rest sequence budget gap =
        .blocked (rest.drop (size - 1)) ((sequence + 1) % 16)) ∨
      ∃ left', Allows left (rest.drop (size - 1)) left' ∧
        Sender.behind size now rest sequence budget gap =
          .sending (rest.drop (size - 1)) ((sequence + 1) % 16) left' gap now := by
  have hlength : (rest.drop (size - 1)).length ≠ 0 := by
    rw [ne_eq, List.length_eq_zero_iff]
    exact hmore
  rw [Sender.behind, if_neg (by rw [List.isEmpty_iff]; exact hmore)]
  obtain ⟨rfl, -⟩ | ⟨rfl, hle⟩ := h
  · cases left with
    | zero => exact .inl ⟨rfl, rfl⟩
    | succ left => exact .inr ⟨some (left + 1), .inl ⟨rfl, Nat.succ_pos left⟩, rfl⟩
  · rw [List.length_drop] at hlength
    exact .inr ⟨none, .inr ⟨rfl, by rw [List.length_drop]; omega⟩, rfl⟩

theorem sendBlock_nil (e : Ecu) (now : Instant) (sequence left sent : Nat) :
    e.sendBlock now { rest := [], sequence } left sent = { e with outgoing := none } := by
  cases left <;> rfl

variable {c : Settings} {bus : UInt8}

/-- Where the budget of a sender and the block of a unit allow the same frames, both come to the
same frames, and then to the same rest. -/
theorem sendBlock_abreast (hpadded : c.padded = true) (e : Ecu) (now later : Instant) {rest : Bytes}
    (sequence sent : Nat) (since : Instant) {left limit : Nat} {budget : Option Nat}
    (hrest : rest ≠ []) (hleft : Allows left rest budget) (hlimit : rest.length ≤ limit) :
    let burst := Sender.burstUpTo (capacity e.target) later limit
      (.sending rest sequence budget .zero since)
    e.Queues (burst.map fun x => (c.frame bus e.target x.1).data)
        (e.sendBlock now { rest, sequence } left sent) ∧
      Abreast (e.sendBlock now { rest, sequence } left sent).outgoing
        ((burst.getLast?.map (·.2)).getD (.sending rest sequence budget .zero since)) := by
  have hcapacity := capacity_eq e.target
  have hpos := List.length_pos_of_ne_nil hrest
  -- one frame after the other: the block and the budget shrink together
  induction left generalizing e rest sequence budget since sent limit with
  | zero =>
      rcases hleft with ⟨-, hnone⟩ | ⟨-, hnone⟩ <;> omega
  | succ left ih =>
      obtain ⟨limit, rfl⟩ := Nat.exists_eq_succ_of_ne_zero (Nat.ne_of_gt (by omega : 0 < limit))
      have hsome : ¬ rest.isEmpty := by
        rw [List.isEmpty_iff]
        exact hrest
      have hqueued : e.Queues
          [(c.frame bus e.target (ofHalves 2 sequence :: rest.take (capacity e.target - 1))).data]
          (e.queue (now + (sent + 1) * Ecu.spacing)
            (ofHalves 2 sequence :: rest.take (capacity e.target - 1))) := by
        rw [Settings.frame, if_pos hpadded]
        exact e.queues_queue ..
      rw [Ecu.sendBlock, if_neg hsome, Sender.burstUpTo, Sender.next?_sending (Nat.zero_le _)]
      dsimp only
      rw [List.map_cons, Sender.last_cons]
      dsimp only
      generalize e.queue (now + (sent + 1) * Ecu.spacing)
        (ofHalves 2 sequence :: rest.take (capacity e.target - 1)) = e' at hqueued ⊢
      by_cases hmore : rest.drop (capacity e.target - 1) = []
      · rw [hmore, sendBlock_nil, Sender.behind, if_pos (by rw [hmore]; rfl),
          Sender.burstUpTo_of_next? rfl]
        exact ⟨hqueued.trans (Ecu.queues_nothing rfl rfl), .done⟩
      · have hlength := List.length_pos_of_ne_nil hmore
        obtain ⟨rfl, hbehind⟩ | ⟨budget', hleft', hbehind⟩ :=
          hleft.behind (Conversation.two_le_capacity e.target) later sequence .zero hmore
        · rw [hbehind, Sender.burstUpTo_of_next? rfl, Ecu.sendBlock,
            if_neg (by rw [List.isEmpty_iff]; exact hmore)]
          exact ⟨hqueued.trans (Ecu.queues_nothing rfl rfl), .waiting hmore⟩
        · have hlimit' : (rest.drop (capacity e.target - 1)).length ≤ limit := by
            rw [List.length_drop]
            omega
          have hcapacity' : capacity e'.target = 7 ∨ capacity e'.target = 8 := by
            rw [hqueued.target]
            exact hcapacity
          have hlater := ih e' ((sequence + 1) % 16) (sent + 1) later hmore hleft' hlimit'
            hcapacity' hlength
          rw [hqueued.target] at hlater
          rw [hbehind]
          exact ⟨hqueued.trans hlater.1, hlater.2⟩

/-- A flow control that says to go on is answered with the same block on both sides. -/
theorem hear_abreast (hpadded : c.padded = true) {e : Ecu} {s granted : Sender} {now : Instant}
    {blockSize : UInt8} (later : Instant) (h : Abreast e.outgoing s)
    (hgranted : s.permit (goOn blockSize) now = .granted granted) :
    e.Queues ((granted.burst (capacity e.target) later).map fun x =>
        (c.frame bus e.target x.1).data) (e.hear now (goOn blockSize)).1 ∧
      Abreast (e.hear now (goOn blockSize)).1.outgoing
        (granted.afterBurst (capacity e.target) later) := by
  generalize houtgoing : e.outgoing = outgoing at h
  cases h with
  | done => cases hgranted
  | @waiting rest sequence hmore =>
      obtain rfl := Permission.granted.inj hgranted
      have hear : (e.hear now (goOn blockSize)).1 = e.sendBlock now { rest, sequence }
          (if blockSize.toNat = 0 then rest.length else blockSize.toNat) 0 := by
        have hproceed : (e.hear now (goOn blockSize)).1 = e.proceed now [blockSize, 0x00] := rfl
        rw [hproceed, Ecu.proceed, houtgoing]
        rfl
      rw [hear]
      exact sendBlock_abreast hpadded e now later sequence 0 now hmore
        (allows_of_blockSize blockSize rest) (Nat.le_refl _)

/-! ### Whole messages -/

/-- As long as both sides are given the same flow controls, they come to the same blocks. -/
theorem says_of_handsOut (hpadded : c.padded = true) {e : Ecu} {t : Target} {s last : Sender}
    {given : List (Instant × UInt8)} {blocks : List (List Bytes)} (ht : e.target = t)
    (h : Abreast e.outgoing s) (hhanded : s.HandsOut (capacity t) given blocks last) :
    ∃ e', e.Says given (blocks.map (·.map fun content => (c.frame bus t content).data)) e' ∧
      Abreast e'.outgoing last := by
  induction hhanded generalizing e with
  | nothing s => exact ⟨e, .nothing e, h⟩
  | @block s granted last now later blockSize given blocks awaited others ih =>
      obtain ⟨hqueued, hafter⟩ := @hear_abreast c bus hpadded _ _ _ _ _ later h awaited
      rw [ht] at hqueued hafter
      obtain ⟨e', hsays, habreast⟩ := ih (hqueued.target.trans ht) hafter
      rw [List.map_cons, List.map_map]
      exact ⟨e', .block hqueued hsays, habreast⟩

/-- A unit that responds with a message and a sender that sends it come to the same data for each
frame: for the first one, and for every block after a flow control that the sender waits for. If
nothing else was still to be said, or the message takes more than one frame, then the unit waits
for a flow control whenever the sender does, and with the same rest. -/
theorem segmentations_agree (hpadded : c.padded = true) (e : Ecu) (now : Instant) (message : Bytes)
    {given : List (Instant × UInt8)} {blocks : List (List Bytes)} {last : Sender}
    (hhanded : (Sender.start (capacity e.target) message).2.HandsOut (capacity e.target) given
      blocks last) :
    e.Queues [(c.startFrame bus e.target message).data] (e.respond now message) ∧
      ∃ e', (e.respond now message).Says given
          (blocks.map (·.map fun content => (c.frame bus e.target content).data)) e' ∧
        (e.outgoing = none ∨ capacity e.target ≤ message.length → Abreast e'.outgoing last) := by
  rw [Settings.startFrame, Settings.frame, if_pos hpadded]
  obtain hshort | hlong := Nat.lt_or_ge message.length (capacity e.target)
  · have hrespond : e.respond now message =
        e.queue (now + Ecu.reaction.nanos) (ofHalves 0 message.length :: message) := by
      rw [Ecu.respond]
      exact if_pos hshort
    rw [Sender.start_of_short hshort] at hhanded ⊢
    rw [hrespond]
    refine ⟨e.queues_queue .., ?_⟩
    -- a single frame is not followed by a flow control
    cases hhanded with
    | nothing =>
        refine ⟨_, .nothing _, fun hopen => ?_⟩
        have hnone : e.outgoing = none := hopen.resolve_right (Nat.not_le_of_lt hshort)
        have hkept : (e.queue (now + Ecu.reaction.nanos)
            (ofHalves 0 message.length :: message)).outgoing = none := hnone
        rw [hkept]
        exact .done
    | block awaited => cases awaited
  · have hrespond : e.respond now message =
        { e.queue (now + Ecu.reaction.nanos) (ofHalves 1 (message.length / 256)
            :: UInt8.ofNat message.length :: message.take (capacity e.target - 2)) with
          outgoing := some { rest := message.drop (capacity e.target - 2), sequence := 1 } } := by
      rw [Ecu.respond]
      exact if_neg (Nat.not_lt.mpr hlong)
    rw [Sender.start_of_long hlong] at hhanded ⊢
    have hqueued : e.Queues [pad (e.target.wrap (ofHalves 1 (message.length / 256)
        :: UInt8.ofNat message.length :: message.take (capacity e.target - 2)))]
        (e.respond now message) := by
      rw [hrespond]
      exact (e.queues_queue ..).trans (Ecu.queues_nothing rfl rfl)
    have habreast : Abreast (e.respond now message).outgoing
        (.blocked (message.drop (capacity e.target - 2)) 1) := by
      rw [hrespond]
      exact .waiting (drop_ne_nil hlong)
    obtain ⟨e', hsays, hend⟩ := says_of_handsOut hpadded hqueued.target habreast hhanded
    exact ⟨hqueued, e', hsays, fun _ => hend⟩

/-- Twenty bytes for a unit behind a gateway: a first frame, a block of one frame, and the rest. -/
theorem twenty_bytes_in_two_blocks :
    (Sender.start 7 (List.replicate 20 0xA5)).2.HandsOut 7 [(10, 1), (20, 0)]
        [[0x21 :: List.replicate 6 0xA5],
          [0x22 :: List.replicate 6 0xA5, 0x23 :: List.replicate 3 0xA5]] .finished ∧
      ∃ e', Ecu.Says (({ bus := 0, address := 0x7E0, subAddress := some 0xF1 } : Ecu).respond 5
          (List.replicate 20 0xA5)) [(10, 1), (20, 0)]
        [[0xF1 :: 0x21 :: List.replicate 6 0xA5],
          [0xF1 :: 0x22 :: List.replicate 6 0xA5,
            0xF1 :: 0x23 :: (List.replicate 3 0xA5 ++ List.replicate 3 0xCC)]] e' ∧
        e'.outgoing = none := by
  have hhanded : (Sender.start 7 (List.replicate 20 0xA5)).2.HandsOut 7 [(10, 1), (20, 0)]
      [[0x21 :: List.replicate 6 0xA5],
        [0x22 :: List.replicate 6 0xA5, 0x23 :: List.replicate 3 0xA5]] .finished :=
    @Sender.HandsOut.block 7 _ (.sending (List.replicate 15 0xA5) 1 (some 1) .zero 10) _ 10 10 1
      _ _ rfl
      (@Sender.HandsOut.block 7 _ (.sending (List.replicate 9 0xA5) 2 none .zero 20) _ 20 20 0
        _ _ rfl (.nothing .finished))
  obtain ⟨-, e', hsays, hend⟩ := @segmentations_agree {} 0 rfl
    { bus := 0, address := 0x7E0, subAddress := some 0xF1 } 5 _ _ _ _ hhanded
  refine ⟨hhanded, e', hsays, ?_⟩
  have hdone := hend (.inl rfl)
  generalize e'.outgoing = outgoing at hdone
  cases hdone
  rfl

end Simulation

end EcuQuiet
