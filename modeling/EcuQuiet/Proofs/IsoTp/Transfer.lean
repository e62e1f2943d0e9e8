import EcuQuiet.Proofs.IsoTp.Frames

/-!
# Transfers between our two ends

A message crosses from a sender to a receiver of the same transport: every frame the sender hands
out is built for a target and taken in as the endpoint behind it would, and every flow control the
receiver is due is given to the sender. Separation times and moments are arbitrary; the sender only
ever hands out a frame once its separation time has passed. Whatever they are, the two ends stay in
step, and the transfer ends with the message in one piece.
-/

namespace EcuQuiet.IsoTp

/-- Both ends of the transport while a message crosses it. -/
structure Transfer where
  sender : Sender
  receiver : Receiver
  /-- What the receiver made of the last frame. A flow control clears it. -/
  heard : Option Reception

namespace Transfer

variable (c : Settings) (bus : UInt8) (t : Target)

/-- The transfer after a frame with the given content has gone across. -/
def carry (content : Bytes) (sender : Sender) (receiver : Receiver) : Transfer :=
  let (receiver, reception) :=
    match t.content? (c.frame bus t content).data with
    | some arrived => receiver.feed arrived
    | none => (receiver, .nothing)
  { sender, receiver, heard := some reception }

/-- The transfer whose first frame has gone across, to a receiver that has received nothing. -/
def begin (message : Bytes) : Transfer :=
  let first := Sender.start (capacity t) message
  carry c bus t first.1 first.2 { blockSize := c.blockSize }

/-- What may happen next: a flow control that is due goes back, with any separation time; or the
sender hands out a frame, if it has one at that moment. -/
inductive Step : Transfer → Transfer → Prop
  | flowControl {x : Transfer} {sender : Sender} (separation : UInt8) (now : Instant)
      (hdue : x.heard = some .flowControlDue)
      (hgranted : x.sender.permit [0x30, c.blockSize, separation] now = .granted sender) :
      Step x { x with sender, heard := none }
  | frame {x : Transfer} {content : Bytes} {sender : Sender} (now : Instant)
      (hdue : x.heard ≠ some .flowControlDue)
      (hnext : x.sender.next? (capacity t) now = some (content, sender)) :
      Step x (carry c bus t content sender x.receiver)

/-- What a transfer of a message has become after a number of steps. -/
inductive Reaches (message : Bytes) : Nat → Transfer → Prop
  | begin : Reaches message 0 (begin c bus t message)
  | step {n : Nat} {x y : Transfer} (hx : Reaches message n x) (hstep : Step c bus t x y) :
      Reaches message (n + 1) y

/-- Both ends agree on what has gone across and on whose turn it is. -/
structure InStep (message : Bytes) (x : Transfer) : Prop where
  /-- The sender waits for a flow control exactly when the receiver has just asked for one. -/
  blocked_iff : (∃ rest sequence, x.sender = .blocked rest sequence) ↔
    x.heard = some .flowControlDue
  /-- The message is complete exactly with the sender's last frame. -/
  finished_iff : x.sender = .finished ↔ x.heard = some (.completed message)
  /-- Every frame is taken for a part of this message. -/
  heard_mem : ∀ reception ∈ x.heard,
    reception = .progress ∨ reception = .flowControlDue ∨ reception = .completed message
  /-- A flow control that is due is one the sender waits for, at any moment and with any separation
  time. -/
  granted : x.heard = some .flowControlDue → ∀ separation now,
    ∃ sender, x.sender.permit [0x30, c.blockSize, separation] now = .granted sender
  /-- Otherwise the sender has a frame to hand out, once its separation time has passed. -/
  ready : x.heard ≠ some .flowControlDue → x.sender ≠ .finished →
    ∃ rest sequence budget gap since, x.sender = .sending rest sequence budget gap since ∧
      ∀ now, since + gap.nanos ≤ now → (x.sender.next? (capacity t) now).isSome

/-- The three states of a transfer in progress, with what both ends know in each of them. -/
inductive Turn (message : Bytes) : Transfer → Prop
  | finished {receiver : Receiver} :
      Turn message ⟨.finished, receiver, some (.completed message)⟩
  | blocked {data rest : Bytes} {sequence : Nat} (hmessage : message = data ++ rest)
      (hrest : rest ≠ []) (hseq : sequence < 16) :
      Turn message ⟨.blocked rest sequence,
        { blockSize := c.blockSize, assembly := some { size := message.length, data, sequence } },
        some .flowControlDue⟩
  | sending {data rest : Bytes} {sequence : Nat} {budget : Option Nat} {gap : Span}
      {since : Instant} {sinceFlow : Nat} {heard : Option Reception}
      (hmessage : message = data ++ rest) (hrest : rest ≠ []) (hseq : sequence < 16)
      (hunbounded : c.blockSize = 0 → budget = none)
      (hbounded : c.blockSize ≠ 0 → sinceFlow < c.blockSize.toNat ∧
        budget = some (c.blockSize.toNat - sinceFlow))
      (hheard : heard = none ∨ heard = some .progress) :
      Turn message ⟨.sending rest sequence budget gap since,
        { blockSize := c.blockSize
          assembly := some { size := message.length, data, sequence, sinceFlow } },
        heard⟩

/-- How many steps a sender has at most before it is finished. -/
def left : Sender → Nat
  | .finished => 0
  | .blocked rest _ => 2 * rest.length + 1
  | .sending rest _ _ _ _ => 2 * rest.length

variable {c bus t} {message : Bytes} {x y : Transfer}

theorem carry_eq (content : Bytes) (sender : Sender) (receiver : Receiver) :
    carry c bus t content sender receiver =
      { sender
        receiver := (receiver.feed (content ++ c.filling t content)).1
        heard := some (receiver.feed (content ++ c.filling t content)).2 } := by
  rw [carry, Settings.content?_frame]

theorem carry_sender (content : Bytes) (sender : Sender) (receiver : Receiver) :
    (carry c bus t content sender receiver).sender = sender := by
  rw [carry_eq]

/-- The first frame puts the two ends in step. -/
theorem turn_begin (hpos : 1 ≤ message.length) (hlong : message.length ≤ longestMessage) :
    Turn c message (begin c bus t message) ∧
      left (begin c bus t message).sender ≤ 2 * message.length := by
  have hcapacity := capacity_eq t
  rw [begin]
  obtain hshort | hlonger := Nat.lt_or_ge message.length (capacity t)
  · rw [Sender.start_of_short hshort, carry_eq, Receiver.feed_single _ hpos (by omega)]
    exact ⟨.finished, Nat.zero_le _⟩
  · have hall : (message.take (capacity t - 2)).take message.length =
        message.take (capacity t - 2) := by
      rw [List.take_take, Nat.min_eq_right (by omega)]
    rw [Sender.start_of_long hlonger, carry_eq, c.filling_first hlonger, List.append_nil,
      Receiver.feed_first _ hpos hlong (take_ne_nil hlonger), hall]
    refine ⟨.blocked (List.take_append_drop _ _).symm (drop_ne_nil hlonger) (by omega), ?_⟩
    simp only [left, List.length_drop]
    omega

/-- A consecutive frame keeps the two ends in step: it is the last one for both, or ends the block
for both, or for neither. -/
theorem turn_frame {data rest : Bytes} {sequence sinceFlow : Nat} {budget : Option Nat}
    {gap : Span} {now : Instant} (hmessage : message = data ++ rest) (hrest : rest ≠ [])
    (hseq : sequence < 16) (hunbounded : c.blockSize = 0 → budget = none)
    (hbounded : c.blockSize ≠ 0 → sinceFlow < c.blockSize.toNat ∧
      budget = some (c.blockSize.toNat - sinceFlow)) :
    Turn c message (carry c bus t (ofHalves 2 sequence :: rest.take (capacity t - 1))
        (Sender.behind (capacity t) now rest sequence budget gap)
        { blockSize := c.blockSize
          assembly := some { size := message.length, data, sequence, sinceFlow } }) ∧
      left (Sender.behind (capacity t) now rest sequence budget gap) < 2 * rest.length := by
  have hcapacity := capacity_eq t
  have hpos : 0 < rest.length := List.length_pos_of_ne_nil hrest
  have hlength : message.length = data.length + rest.length := by
    rw [hmessage, List.length_append]
  have hfeed := Receiver.feed_consecutive
    (r := { blockSize := c.blockSize
            assembly := some { size := message.length, data, sequence, sinceFlow } })
    rfl hseq hlength (c.filling_consecutive (t := t) sequence)
  rw [carry_eq, hfeed]
  by_cases hlast : rest.length ≤ capacity t - 1
  · -- the last frame of the message, whether the block ends with it or not
    have hempty : (rest.drop (capacity t - 1)).isEmpty := by
      rw [List.isEmpty_iff, List.drop_eq_nil_iff]; exact hlast
    rw [if_pos hlast, Sender.behind, if_pos hempty, ← hmessage]
    exact ⟨.finished, by simp only [left]; omega⟩
  · have hmore : ¬ (rest.drop (capacity t - 1)).isEmpty := by
      rw [List.isEmpty_iff, List.drop_eq_nil_iff]; exact hlast
    have hleft : (rest.drop (capacity t - 1)).length < rest.length := by
      rw [List.length_drop]; omega
    have hsplit : message = (data ++ rest.take (capacity t - 1)) ++ rest.drop (capacity t - 1) := by
      rw [List.append_assoc, List.take_append_drop, hmessage]
    have hrest' : rest.drop (capacity t - 1) ≠ [] := fun h => hmore (List.isEmpty_iff.mpr h)
    have hseq' : (sequence + 1) % 16 < 16 := Nat.mod_lt _ (by omega)
    rw [if_neg hlast, Sender.behind, if_neg hmore]
    by_cases hzero : c.blockSize = 0
    · -- neither end counts frames
      rw [hunbounded hzero, if_neg (fun h => h.1 hzero)]
      refine ⟨.sending hsplit hrest' hseq' (fun _ => rfl) (fun h => absurd hzero h)
        (Or.inr rfl), ?_⟩
      simp only [Option.map_none, left]
      omega
    · obtain ⟨hinside, hbudget⟩ := hbounded hzero
      rw [hbudget, Option.map_some]
      by_cases hblock : sinceFlow + 1 = c.blockSize.toNat
      · -- the budget of the sender is spent when the receiver's count is full
        have hspent : c.blockSize.toNat - sinceFlow - 1 = 0 := by omega
        rw [hspent, if_pos ⟨hzero, hblock⟩]
        refine ⟨.blocked hsplit hrest' hseq', ?_⟩
        simp only [left]
        omega
      · obtain ⟨more, hmore⟩ : ∃ more, c.blockSize.toNat - sinceFlow - 1 = more + 1 :=
          ⟨c.blockSize.toNat - sinceFlow - 2, by omega⟩
        have hinside' : sinceFlow + 1 < c.blockSize.toNat := by omega
        have hbudget' : some (more + 1) = some (c.blockSize.toNat - (sinceFlow + 1)) := by
          rw [← hmore, Nat.sub_sub]
        rw [hmore, if_neg (fun h => hblock h.2)]
        refine ⟨.sending hsplit hrest' hseq' (fun h => absurd h hzero)
          (fun _ => ⟨hinside', hbudget'⟩) (Or.inr rfl), ?_⟩
        simp only [left]
        omega

/-- A step keeps the two ends in step and brings the transfer nearer to its end. -/
theorem turn_step (hx : Turn c message x) (hstep : Step c bus t x y) :
    Turn c message y ∧ left y.sender < left x.sender := by
  have hcapacity := capacity_eq t
  cases hstep with
  | flowControl separation now hdue hgranted =>
      cases hx with
      | finished => cases hdue
      | sending hmessage hrest hseq hunbounded hbounded hheard =>
          obtain rfl | rfl := hheard <;> cases hdue
      | blocked hmessage hrest hseq =>
          rw [Sender.permit_blocked] at hgranted
          cases hgranted
          refine ⟨.sending hmessage hrest hseq ?_ ?_ (Or.inl rfl), ?_⟩
          · intro hzero; rw [if_pos hzero]
          · intro hne
            rw [if_neg hne]
            exact ⟨Nat.pos_of_ne_zero fun h => hne (UInt8.toNat_inj.mp h), rfl⟩
          · simp only [left]; omega
  | frame now hdue hnext =>
      obtain ⟨rest, sequence, budget, gap, since, hsender, hgap, rfl, rfl⟩ :=
        Sender.next?_eq_some hnext
      cases hx with
      | finished => cases hsender
      | blocked hmessage hrest hseq => cases hsender
      | sending hmessage hrest hseq hunbounded hbounded hheard =>
          cases hsender
          rw [carry_sender]
          exact turn_frame hmessage hrest hseq hunbounded hbounded

theorem turn_reaches (hpos : 1 ≤ message.length) (hlong : message.length ≤ longestMessage)
    {n : Nat} (hx : Reaches c bus t message n x) :
    Turn c message x ∧ n + left x.sender ≤ 2 * message.length := by
  induction hx with
  | begin =>
      obtain ⟨hturn, hleft⟩ := turn_begin hpos hlong
      exact ⟨hturn, by rw [Nat.zero_add]; exact hleft⟩
  | step _ hstep ih =>
      obtain ⟨hturn, hleft⟩ := turn_step ih.1 hstep
      exact ⟨hturn, by omega⟩

/-- In each of its states a transfer is in step. -/
theorem Turn.inStep (hx : Turn c message x) : InStep c t message x := by
  cases hx with
  | finished =>
      constructor
      · simp
      · simp
      · rintro reception ⟨⟩
        exact Or.inr (Or.inr rfl)
      · intro hdue
        cases hdue
      · intro _ hnot
        exact absurd rfl hnot
  | blocked hmessage hrest hseq =>
      constructor
      · simp
      · simp
      · rintro reception ⟨⟩
        exact Or.inr (Or.inl rfl)
      · intro _ separation now
        exact ⟨_, Sender.permit_blocked _ _ _ _ _⟩
      · intro hnot
        exact absurd rfl hnot
  | sending hmessage hrest hseq hunbounded hbounded hheard =>
      constructor
      · obtain rfl | rfl := hheard <;> simp
      · obtain rfl | rfl := hheard <;> simp
      · intro reception hreception
        obtain rfl | rfl := hheard
        · cases hreception
        · cases hreception
          exact Or.inl rfl
      · intro hdue
        obtain rfl | rfl := hheard <;> cases hdue
      · intro _ _
        refine ⟨_, _, _, _, _, rfl, ?_⟩
        intro now hnow
        rw [Sender.next?_sending (Nat.le_sub_of_add_le' hnow)]
        rfl

/-- A transfer that is in step can go on until its message is complete. -/
theorem InStep.exists_step_iff (hx : InStep c t message x) :
    (∃ y, Step c bus t x y) ↔ x.heard ≠ some (.completed message) := by
  constructor
  · rintro ⟨y, hstep⟩ hcompleted
    have hfinished := hx.finished_iff.mpr hcompleted
    cases hstep with
    | flowControl separation now hdue _ =>
        rw [hcompleted] at hdue
        cases hdue
    | frame now _ hnext =>
        rw [hfinished] at hnext
        cases hnext
  · intro hnot
    by_cases hdue : x.heard = some .flowControlDue
    · obtain ⟨sender, hgranted⟩ := hx.granted hdue 0 0
      exact ⟨_, .flowControl 0 0 hdue hgranted⟩
    · have hunfinished : x.sender ≠ .finished := fun h => hnot (hx.finished_iff.mp h)
      obtain ⟨_, _, _, gap, since, _, hready⟩ := hx.ready hdue hunfinished
      obtain ⟨⟨content, sender⟩, hnext⟩ := Option.isSome_iff_exists.mp (hready _ (Nat.le_refl _))
      exact ⟨_, .frame _ hdue hnext⟩

/-- However a transfer of a message goes, its two ends stay in step, it comes to an end after at
most two steps for each byte, and it ends nowhere but with the message in one piece. -/
theorem transfer_completes (c : Settings) (bus : UInt8) (t : Target) {message : Bytes}
    (hpos : 1 ≤ message.length) (hlong : message.length ≤ longestMessage) {n : Nat}
    {x : Transfer} (hx : Reaches c bus t message n x) :
    n ≤ 2 * message.length ∧ InStep c t message x ∧
      ((∃ y, Step c bus t x y) ↔ x.heard ≠ some (.completed message)) := by
  obtain ⟨hturn, hleft⟩ := turn_reaches hpos hlong hx
  exact ⟨by omega, hturn.inStep, hturn.inStep.exists_step_iff⟩

/-- A transfer whose last frame is filled up, to an endpoint with an extra address byte. -/
theorem transfer_completes_filled :
    ∃ x, Reaches { blockSize := 1 } 0 { address := 0x7E0, subAddress := some 0x10 }
        [1, 2, 3, 4, 5, 6, 7, 8] 2 x ∧
      x.heard = some (.completed [1, 2, 3, 4, 5, 6, 7, 8]) ∧ x.sender = .finished := by
  obtain ⟨x, hx, hheard⟩ : ∃ x, Reaches { blockSize := 1 } 0
      { address := 0x7E0, subAddress := some 0x10 } [1, 2, 3, 4, 5, 6, 7, 8] 2 x ∧
      x.heard = some (.completed [1, 2, 3, 4, 5, 6, 7, 8]) :=
    ⟨_, .step (.step .begin (.flowControl 20 0 (by decide) rfl)) (.frame 20000000 (by decide) rfl),
      by decide⟩
  obtain ⟨-, hstep, -⟩ := transfer_completes _ _ _ (by decide) (by decide) hx
  exact ⟨x, hx, hheard, hstep.finished_iff.mpr hheard⟩

end Transfer

end EcuQuiet.IsoTp
