import EcuQuiet.Proofs.Simulation.Dialogue

/-!
# Queries to a simulated unit

From every stage of an exchange a round leads to a stage again: nothing happens while nothing is
due, and each frame of the unit brings the exchange nearer to its end. So a query to a unit comes to
the answer that the unit knows.
-/

namespace EcuQuiet.Simulation

open IsoTp

namespace Dialogue

variable {d : Dialogue}

/-! ### Stages -/

theorem lt_extended (hd : d.Feasible) {now : Instant} (h : now + pace d.latency ≤ d.limit) :
    now < d.extended now := by
  have hpos : 0 < pace d.latency := Nat.lt_of_lt_of_le hd.running (Nat.le_add_right _ _)
  exact Nat.lt_of_lt_of_le (Nat.lt_add_of_pos_right hpos) (le_extended hd h)

/-- With leave to send, the whole rest of the request goes out at once. -/
theorem tick_leave (hd : d.Feasible) {now : Instant} {rest : Bytes} (sequence : Nat)
    (hrest : rest ≠ []) (hlimit : now + pace d.latency ≤ d.limit) :
    ∃ outputs,
      (d.waiting (d.extended now) (.sending rest sequence none .zero now) none).tick d.settings
          d.query now = (d.waiting (d.extended now) .finished none, outputs) ∧
      Output.frames outputs =
        (Sender.burstUpTo (capacity d.target) now rest.length
          (.sending rest sequence none .zero now)).map fun (content, _) =>
            d.settings.frame d.bus d.target content := by
  have hcapacity := capacity_eq d.target
  have hlast := @Sender.getLast?_burstUpTo (capacity d.target) now now rest sequence (by omega)
    hrest rest.length (Nat.le_refl _)
  have htransmit : (d.waiting (d.extended now) (.sending rest sequence none .zero now)
      none).transmit d.settings d.query now =
        (d.waiting (d.extended now) .finished none,
          (Sender.burstUpTo (capacity d.target) now rest.length
            (.sending rest sequence none .zero now)).flatMap fun (frame, after) =>
              Conversation.consecutive d.settings d.query d.target frame after) := by
    rw [Conversation.transmit, Sender.burst]
    simp only [waiting, Sender.rest, hlast]
    rfl
  have hlate : ¬ (d.waiting (d.extended now) .finished none).deadline ≤ now :=
    Nat.not_le_of_lt (lt_extended hd hlimit)
  refine ⟨_, ?_, frames_transmitted d.settings d.query d.target _⟩
  rw [Conversation.tick, htransmit]
  dsimp only
  rw [if_neg hlate]
  rfl

theorem requesting_advances (hd : d.Feasible) {now due deadline : Instant} {data rest : Bytes}
    (hmessage : d.request = data ++ rest) (hrest : rest ≠ []) (hdue : due ≤ now)
    (hlimit : now + (frameCount d.response + 1) * pace d.latency ≤ d.limit) :
    d.Advances now (d.waiting deadline (.blocked rest 1) none)
      (unit d.bus d.target d.request d.response
        [(due, answer d.bus d.target [0x30, 0x00, 0x00])]
        (some { size := d.request.length, data, sequence := 1 }) none #[]) := by
  obtain ⟨outputs, htick, hframes⟩ := tick_leave hd 1 hrest (pace_le_of_further hlimit)
  have hreceive := (receive_answer now deadline (.blocked rest 1) none [0x30, 0x00, 0x00]).trans
    (hear_leave (d := d))
  have hburst : Ecu.receiveAll now
      ((Sender.burstUpTo (capacity d.target) now rest.length
        (.sending rest 1 none .zero now)).map fun (content, _) =>
          d.settings.frame d.bus d.target content)
      (unit d.bus d.target d.request d.response []
        (some { size := d.request.length, data, sequence := 1 }) none #[]) =
      unit d.bus d.target d.request d.response
        [(now + Ecu.reaction.nanos,
          answer d.bus d.target (Sender.start (capacity d.target) d.response).1)] none
        (unsaid d.target d.response) #[d.request] :=
    receiveAll_burst d.settings hd.uncontrolled hmessage hrest (by decide) (Nat.le_refl _)
  have htime : d.Timely now (now + Ecu.reaction.nanos) (d.extended now) (frameCount d.response) :=
    .of_extended hd (Nat.lt_add_of_pos_right (by decide)) (Nat.le_refl _) hlimit
  refine Advances.single (e := unit d.bus d.target d.request d.response []
    (some { size := d.request.length, data, sequence := 1 }) none #[]) hdue hreceive ?_
  rw [htick, List.nil_append, hframes]
  exact (congrArg (d.Stage now _) hburst).mpr (.responding htime)

theorem frameCount_pred {rest : Bytes} (hrest : rest ≠ []) :
    frameCount rest - 1 + 1 = frameCount rest := by
  have hpos := List.length_pos_of_ne_nil hrest
  simp only [frameCount]
  omega

theorem frameCount_drop_le (rest : Bytes) (size : Nat) :
    frameCount (rest.drop size) ≤ frameCount rest := by
  rw [frameCount, frameCount, List.length_drop]
  omega

/-- Our flow control is answered with the next block. -/
theorem due_advances (hd : d.Feasible) {now due deadline : Instant} {data rest : Bytes}
    {sequence : Nat} {f : Frame} {assembly : Option Assembly} (hmessage : d.response = data ++ rest)
    (hrest : rest ≠ []) (hseq : sequence < 16) (hdue : due ≤ now)
    (hreceive : (d.waiting deadline .finished assembly).receive d.settings d.query now f =
      (d.waiting (d.extended now) .finished
        (some { size := d.response.length, data, sequence }),
        [.send (d.settings.frame d.bus d.target d.settings.flowControl)]))
    (hlimit : now + frameCount rest * pace d.latency ≤ d.limit) :
    d.Advances now (d.waiting deadline .finished assembly)
      (unit d.bus d.target d.request d.response [(due, f)] none (some { rest, sequence })
        #[d.request]) := by
  rw [← frameCount_pred hrest] at hlimit
  obtain ⟨count, hblock, hunit⟩ : ∃ count,
      Block d.settings.blockSize (capacity d.target - 1) rest 0 count ∧
      ((unit d.bus d.target d.request d.response [] none (some { rest, sequence })
          #[d.request]).receive now
        (d.settings.frame d.bus d.target d.settings.flowControl)).1 =
      unit d.bus d.target d.request d.response
        (segments d.bus d.target count (now + Ecu.spacing) sequence rest) none
        (unsent (rest.drop (count * (capacity d.target - 1))) ((sequence + count) % 16))
        #[d.request] := receive_flowControl d.settings hrest hseq now
  have htime : d.Timely now (now + Ecu.spacing) (d.extended now) (frameCount rest - 1) :=
    .of_extended hd (Nat.lt_add_of_pos_right (by decide)) (Nat.add_le_add_left (by decide) now)
      hlimit
  refine Advances.single (e := unit d.bus d.target d.request d.response [] none
    (some { rest, sequence }) #[d.request]) hdue hreceive ?_
  rw [tick_waiting (fun _ => rfl) (lt_extended hd (pace_le_of_further hlimit))]
  exact (congrArg (d.Stage now _) hunit).mpr (.receiving hmessage hseq hblock htime)

/-- The start of the response ends the exchange or asks for our flow control. -/
theorem responding_advances (hd : d.Feasible) {now due deadline : Instant} (hdue : due ≤ now)
    (hlimit : now + frameCount d.response * pace d.latency ≤ d.limit) :
    d.Advances now (d.waiting deadline .finished none)
      (unit d.bus d.target d.request d.response
        [(due, answer d.bus d.target (Sender.start (capacity d.target) d.response).1)] none
        (unsaid d.target d.response) #[d.request]) := by
  have hcapacity := capacity_eq d.target
  obtain hshort | hlong := Nat.lt_or_ge d.response.length (capacity d.target)
  · rw [Sender.start_of_short hshort]
    obtain ⟨s, hhear, hstatus, htarget⟩ := hear_completed hd now deadline
      (Receiver.feed_single { blockSize := d.settings.blockSize } hd.response_pos (by omega))
    have hreceive := (receive_answer now deadline .finished none _).trans hhear
    refine Advances.single (e := unit d.bus d.target d.request d.response [] none
      (unsaid d.target d.response) #[d.request]) hdue hreceive ?_
    rw [tick_answered hstatus]
    exact .answered hstatus htarget rfl
  · have hrest : d.response.drop (capacity d.target - 2) ≠ [] := drop_ne_nil hlong
    have hcount : frameCount (d.response.drop (capacity d.target - 2)) ≤ frameCount d.response :=
      frameCount_drop_le d.response _
    have hall : (d.response.take (capacity d.target - 2)).take d.response.length =
        d.response.take (capacity d.target - 2) := by
      rw [List.take_take, Nat.min_eq_right (by omega)]
    have hfeed := Receiver.feed_first { blockSize := d.settings.blockSize } hd.response_pos
      hd.response_le (take_ne_nil hlong)
    rw [hall] at hfeed
    have hreceive := receive_answer now deadline .finished none (d := d)
      (ofHalves 1 (d.response.length / 256) :: UInt8.ofNat d.response.length ::
        d.response.take (capacity d.target - 2))
    rw [IsoTp.Settings.filling_first _ hlong, List.append_nil, hear_due hfeed] at hreceive
    rw [Sender.start_of_long hlong, unsaid, if_neg (Nat.not_lt.mpr hlong)]
    exact due_advances hd (List.take_append_drop _ _).symm hrest (by decide) hdue hreceive
      (Nat.le_trans (Nat.add_le_add_left (Nat.mul_le_mul_right _ hcount) now) hlimit)

section Receiving

variable {now deadline : Instant} {data rest : Bytes} {sequence sinceFlow : Nat}

/-- What the tester makes of a consecutive frame of the response. -/
theorem feed_segment (sinceFlow : Nat) (hmessage : d.response = data ++ rest)
    (hseq : sequence < 16) :
    Receiver.feed
        { blockSize := d.settings.blockSize
          assembly := some { size := d.response.length, data, sequence, sinceFlow } }
        (ofHalves 2 sequence :: rest.take (capacity d.target - 1) ++
          IsoTp.Settings.filling {} d.target
            (ofHalves 2 sequence :: rest.take (capacity d.target - 1))) =
      if rest.length ≤ capacity d.target - 1 then
        ({ blockSize := d.settings.blockSize }, .completed d.response)
      else if d.settings.blockSize ≠ 0 ∧ sinceFlow + 1 = d.settings.blockSize.toNat then
        ({ blockSize := d.settings.blockSize
           assembly := some { size := d.response.length
                              data := data ++ rest.take (capacity d.target - 1)
                              sequence := (sequence + 1) % 16 } }, .flowControlDue)
      else
        ({ blockSize := d.settings.blockSize
           assembly := some { size := d.response.length
                              data := data ++ rest.take (capacity d.target - 1)
                              sequence := (sequence + 1) % 16
                              sinceFlow := sinceFlow + 1 } }, .progress) := by
  have hlength : d.response.length = data.length + rest.length := by
    rw [hmessage, List.length_append]
  have hfill := @IsoTp.Settings.filling_consecutive {} d.target rest sequence
  have hfeed := Receiver.feed_consecutive
    (r := { blockSize := d.settings.blockSize
            assembly := some { size := d.response.length, data, sequence, sinceFlow } })
    rfl hseq hlength hfill
  rw [← hmessage] at hfeed
  exact hfeed

/-- The frame that completes the response ends the exchange. -/
theorem last_advances (hd : d.Feasible) {due : Instant} {outgoing : Option Outgoing}
    (hmessage : d.response = data ++ rest) (hseq : sequence < 16) (hdue : due ≤ now)
    (hlast : rest.length ≤ capacity d.target - 1) :
    d.Advances now
      (d.waiting deadline .finished
        (some { size := d.response.length, data, sequence, sinceFlow }))
      (unit d.bus d.target d.request d.response
        [(due, answer d.bus d.target (ofHalves 2 sequence :: rest.take (capacity d.target - 1)))]
        none outgoing #[d.request]) := by
  have hfeed := feed_segment sinceFlow hmessage hseq
  rw [if_pos hlast] at hfeed
  obtain ⟨s, hhear, hstatus, htarget⟩ := hear_completed hd now deadline hfeed
  refine Advances.single (e := unit d.bus d.target d.request d.response [] none outgoing
    #[d.request]) hdue ((receive_answer now deadline .finished _ _).trans hhear) ?_
  rw [tick_answered hstatus]
  exact .answered hstatus htarget rfl

/-- The rest of a block, frame by frame: the message goes on, or our flow control is asked for, or
the exchange is over. -/
theorem receiving_advances (hd : d.Feasible) {count : Nat} {due : Instant}
    (hmessage : d.response = data ++ rest) (hseq : sequence < 16)
    (hblock : Block d.settings.blockSize (capacity d.target - 1) rest sinceFlow count)
    (hdue : due ≤ now) (hlimit : now + (frameCount rest - 1) * pace d.latency ≤ d.limit) :
    d.Advances now
      (d.waiting deadline .finished
        (some { size := d.response.length, data, sequence, sinceFlow }))
      (unit d.bus d.target d.request d.response
        (segments d.bus d.target count due sequence rest) none
        (unsent (rest.drop (count * (capacity d.target - 1))) ((sequence + count) % 16))
        #[d.request]) := by
  have hcapacity := capacity_eq d.target
  induction count generalizing due deadline data rest sequence sinceFlow with
  | zero => exact absurd hblock.pos (Nat.lt_irrefl _)
  | succ count ih =>
      have hfeed := feed_segment sinceFlow hmessage hseq
      rw [segments]
      by_cases hlast : rest.length ≤ capacity d.target - 1
      · obtain rfl := hblock.last hlast
        exact last_advances hd hmessage hseq hdue hlast
      · have hlater : rest.drop (capacity d.target - 1) ≠ [] := by
          rw [ne_eq, List.drop_eq_nil_iff]
          exact hlast
        have hmessage' : d.response = (data ++ rest.take (capacity d.target - 1)) ++
            rest.drop (capacity d.target - 1) := by
          rw [List.append_assoc, List.take_append_drop, hmessage]
        have hseq' : (sequence + 1) % 16 < 16 := Nat.mod_lt _ (by decide)
        -- every frame that comes in leaves time for one more of those after it
        have hframes : frameCount (rest.drop (capacity d.target - 1)) ≤ frameCount rest - 1 := by
          simp only [frameCount, List.length_drop]
          omega
        have hlimit' := Nat.le_trans
          (Nat.add_le_add_left (Nat.mul_le_mul_right (pace d.latency) hframes) now) hlimit
        have hreceive := receive_answer now deadline .finished
          (some { size := d.response.length, data, sequence, sinceFlow }) (d := d)
          (ofHalves 2 sequence :: rest.take (capacity d.target - 1))
        rw [if_neg hlast] at hfeed
        obtain rfl | hcount := Nat.eq_zero_or_pos count
        · rw [if_pos (hblock.ends (Nat.lt_of_not_le hlast))] at hfeed
          have hnonempty : ¬ (rest.drop ((0 + 1) * (capacity d.target - 1))).isEmpty := by
            rw [Nat.zero_add, Nat.one_mul, List.isEmpty_iff]
            exact hlater
          rw [unsent, if_neg hnonempty, Nat.zero_add, Nat.one_mul]
          exact due_advances hd hmessage' hlater hseq' hdue (hreceive.trans (hear_due hfeed))
            hlimit'
        · rw [if_neg (hblock.inside hcount)] at hfeed
          have hrest : rest.drop ((count + 1) * (capacity d.target - 1)) =
              (rest.drop (capacity d.target - 1)).drop (count * (capacity d.target - 1)) := by
            rw [List.drop_drop, Nat.succ_mul, Nat.add_comm]
          have hnumber : (sequence + (count + 1)) % 16 = ((sequence + 1) % 16 + count) % 16 := by
            omega
          have hblock' := hblock.next hcount
          rw [hrest, hnumber]
          refine Advances.cons (e := unit d.bus d.target d.request d.response [] none
            (unsent ((rest.drop (capacity d.target - 1)).drop (count * (capacity d.target - 1)))
              (((sequence + 1) % 16 + count) % 16)) #[d.request]) hdue
            (hreceive.trans (hear_part hfeed)) ?_
          -- the next frame of the block is part of the same batch, or of a later one
          obtain hnext | hready := Nat.lt_or_ge now (due + Ecu.spacing)
          · rw [← frameCount_pred hlater] at hlimit'
            have htime : d.Timely now (due + Ecu.spacing) (d.extended now)
                (frameCount (rest.drop (capacity d.target - 1)) - 1) :=
              .of_extended hd hnext (Nat.add_le_add hdue (by decide)) hlimit'
            exact Advances.of_later
              (fun x hx => Nat.lt_of_lt_of_le hnext (due_le_of_mem_segments hx))
              (tick_waiting (fun _ => rfl) (lt_extended hd (pace_le_of_further hlimit')))
              (.receiving hmessage' hseq' hblock' htime)
          · have hmonotone := Nat.mul_le_mul_right (pace d.latency)
              (Nat.sub_le (frameCount (rest.drop (capacity d.target - 1))) 1)
            exact ih hmessage' hseq' hblock' hready
              (Nat.le_trans (Nat.add_le_add_left hmonotone now) hlimit')

end Receiving

/-- The first frame of the request opens the exchange. -/
theorem Stage.begin (hd : d.Feasible) {start : Instant}
    (hlimit : start + (frameCount d.response + 2) * pace d.latency ≤ d.limit) :
    d.Stage start
      (d.waiting (start + d.timeout.nanos) (Sender.start (capacity d.target) d.request).2 none)
      ((unit d.bus d.target d.request d.response [] none none #[]).receive start
        (d.settings.startFrame d.bus d.target d.request)).1 := by
  have htime : ∀ {further : Nat},
      start + (further + 1) * pace d.latency ≤ d.limit →
      d.Timely start (start + Ecu.reaction.nanos) (start + d.timeout.nanos) further := by
    intro further hfurther
    have hpace : start + Ecu.reaction.nanos + d.latency.nanos = start + pace d.latency := by
      rw [pace, Nat.add_comm d.latency.nanos, Nat.add_assoc]
    refine ⟨Nat.lt_add_of_pos_right (by decide), ?_, ?_⟩
    · rw [hpace]
      exact Nat.add_le_add_left hd.patient start
    · rw [hpace, Nat.add_assoc, Nat.add_comm (pace d.latency), ← Nat.succ_mul]
      exact hfurther
  obtain hshort | hlong := Nat.lt_or_ge d.request.length (capacity d.target)
  · rw [receive_single d.settings hd.uncontrolled hshort, Sender.start_of_short hshort]
    have hmonotone :=
      Nat.mul_le_mul_right (pace d.latency) (Nat.le_succ (frameCount d.response + 1))
    exact .responding (htime (Nat.le_trans (Nat.add_le_add_left hmonotone start) hlimit))
  · rw [receive_first d.settings hlong hd.request_le, Sender.start_of_long hlong]
    exact .requesting (List.take_append_drop _ _).symm (drop_ne_nil hlong) (htime hlimit)

/-- From every stage of an exchange that is not over, a round leads to a stage again. -/
theorem Stage.advances (hd : d.Feasible) {clock : Instant} {s : Conversation} {e : Ecu}
    (h : d.Stage clock s e) (hopen : s.isOver = false) :
    d.Advances (clock + d.latency.nanos) s e := by
  cases h with
  | requesting hmessage hrest htime =>
      exact Advances.of_timely htime (fun _ _ => rfl) (fun x hx => due_le_of_mem_singleton hx)
        (.requesting hmessage hrest) (requesting_advances hd hmessage hrest)
  | responding htime =>
      exact Advances.of_timely htime (fun _ _ => rfl) (fun x hx => due_le_of_mem_singleton hx)
        .responding (responding_advances hd)
  | receiving hmessage hseq hblock htime =>
      exact Advances.of_timely htime (fun _ _ => rfl) (fun x hx => due_le_of_mem_segments hx)
        (.receiving hmessage hseq hblock) (receiving_advances hd hmessage hseq hblock)
  | answered hstatus =>
      rw [Conversation.isOver, hstatus] at hopen
      cases hopen

/-- While an exchange is not over, its unit has frames of its bus to say, one after the other. -/
theorem Stage.outbox {clock : Instant} {s : Conversation} {e : Ecu} (h : d.Stage clock s e)
    (hopen : s.isOver = false) :
    e.periodic = [] ∧ e.outbox.Pairwise (·.1 ≤ ·.1) ∧ (∀ x ∈ e.outbox, x.2.bus = d.bus) ∧
      clock < d.limit := by
  have hlimit : ∀ {due deadline : Instant} {further : Nat},
      d.Timely clock due deadline further → clock < d.limit := by
    intro due deadline further htime
    exact Nat.lt_of_lt_of_le htime.later
      (Nat.le_trans (Nat.le_trans (Nat.le_add_right _ _) (Nat.le_add_right _ _)) htime.ample)
  cases h with
  | requesting _ _ htime =>
      refine ⟨rfl, List.pairwise_singleton _ _, fun x hx => ?_, hlimit htime⟩
      rw [List.mem_singleton.mp hx]
      rfl
  | responding htime =>
      refine ⟨rfl, List.pairwise_singleton _ _, fun x hx => ?_, hlimit htime⟩
      rw [List.mem_singleton.mp hx]
      rfl
  | receiving _ _ _ htime =>
      exact ⟨rfl, segments_pairwise _ _ _ _, fun x hx => bus_of_mem_segments hx, hlimit htime⟩
  | answered hstatus =>
      rw [Conversation.isOver, hstatus] at hopen
      cases hopen

/-- The rounds of an exchange lead to its answer: every round takes some time, and the exchange is
over before the limit. -/
theorem Stage.answers (hd : d.Feasible) {rounds : Nat} {clock : Instant} {s : Conversation}
    {e : Ecu} {w : Logged Network} (h : d.Stage clock s e) (halone : Alone w.world e)
    (hclock : w.world.clock = clock) (hlatency : w.world.latency = d.latency)
    (hrounds : d.limit - clock < rounds) :
    ∃ answers e' after, Run.loop (IsoTp.step d.settings d.query Network.link) rounds [s] w =
        some (.ok answers, after) ∧
      answers.entries = [(d.target, .ok d.response)] ∧ Alone after.world e' ∧
      e'.requests = #[d.request] := by
  induction rounds generalizing clock s e w with
  | zero => exact absurd hrounds (Nat.not_lt_zero _)
  | succ rounds ih =>
      rw [Run.loop_succ]
      cases hover : s.isOver with
      | true =>
          -- of all stages, only the last one is over
          cases h with
          | answered hstatus htarget hrequests =>
              refine ⟨Round.answers [s], e, w, ?_, ?_, halone, hrequests⟩
              · rw [IsoTp.step, List.all_cons, hover, List.all_nil, Bool.and_true, if_pos rfl]
                rfl
              · rw [Round.answers, List.filterMap_cons, Conversation.answer?, hstatus, htarget]
                rfl
          | requesting | responding | receiving => cases hover
      | false =>
          obtain ⟨s', heard, hheard, hstage⟩ := h.advances hd hover
          obtain ⟨hquiet, hsorted, hbus, hlimit⟩ := h.outbox hover
          have hnow : clock + d.latency.nanos = w.world.clock + w.world.latency.nanos := by
            rw [hclock, hlatency]
          obtain ⟨after, hstep, hafter, hclock', hlatency'⟩ :=
            step_alone hover halone hquiet hsorted hbus hnow hheard
          have hrunning := hd.running
          have hrounds' : d.limit - (clock + d.latency.nanos) < rounds := by
            simp only [Instant] at *
            omega
          rw [hstep]
          exact ih hstage hafter hclock' (hlatency'.trans hlatency) hrounds'

/-- An exchange that there is enough time for is carried out. -/
theorem engine_answers (hd : d.Feasible) {rounds : Nat} {w : Logged Network}
    (hunit : Alone w.world (unit d.bus d.target d.request d.response [] none none #[]))
    (hlatency : w.world.latency = d.latency)
    (hrange : Instant.after? w.world.clock (d.settings.longestWait d.timeout) = some d.limit)
    (hlimit : w.world.clock + (frameCount d.response + 2) * pace d.latency ≤ d.limit)
    (hrounds : d.limit - w.world.clock < rounds) :
    ∃ answers e after,
      IsoTp.engine d.settings Network.link rounds d.query w = some (.ok answers, after) ∧
      answers.entries = [(d.target, .ok d.response)] ∧ Alone after.world e ∧
      e.requests = #[d.request] := by
  have hbegin : (Conversation.begin d.settings d.query
      { request := d.request, expected := d.expected } [] w.world.clock d.limit d.target).1 =
      d.waiting (w.world.clock + d.timeout.nanos)
        (Sender.start (capacity d.target) d.request).2 none := by
    rw [Conversation.begin, hd.offset]
    rfl
  have hsendable : isSendable d.query = true := by
    simp [isSendable, query, hd.request_pos, hd.request_le]
  have hwaits : d.query.timeout ≠ .zero := by
    intro hzero
    have hpatient := Nat.lt_of_lt_of_le hd.running
      (Nat.le_trans (Nat.le_add_right _ _) hd.patient)
    rw [show d.timeout = .zero from hzero] at hpatient
    exact absurd hpatient (Nat.lt_irrefl _)
  obtain ⟨middle, hperform, hmiddle, hclock', hlatency'⟩ := hunit.perform
    (Conversation.begin d.settings d.query { request := d.request, expected := d.expected } []
      w.world.clock d.limit d.target).2
  have hengine : IsoTp.engine d.settings Network.link rounds d.query w =
      Run.loop (IsoTp.step d.settings d.query Network.link) rounds
        [(Conversation.begin d.settings d.query
          { request := d.request, expected := d.expected } [] w.world.clock d.limit
          d.target).1] middle :=
    engine_eq_loop Network.link d.settings d.query rfl rfl hsendable hwaits rfl hrange hperform
      rounds
  rw [hengine, hbegin]
  exact (Stage.begin hd hlimit).answers hd hmiddle hclock' (hlatency'.trans hlatency) hrounds

end Dialogue

/-- A query of one exchange to the only unit of a quiet bus comes to the answer the unit knows, and
the unit takes in the request once, whatever their lengths, the endpoint, the settings of the
transport and the time that a reading takes, as long as the tester is patient enough. -/
theorem query_answered {c : IsoTp.Settings} {bus : UInt8} {t : Target} {r p expected : Bytes}
    {timeout : Span} {rounds : Nat} {w : Logged Network} (hoffset : c.responseOffset = 0x08)
    (hrequest : 1 ≤ r.length ∧ r.length ≤ longestMessage)
    (hresponse : 1 ≤ p.length ∧ p.length ≤ longestMessage)
    (hcontrol : Uds.ControlRequest.ofBytes? r = none)
    (hpositive : p.head? ≠ some Uds.negativeResponse) (hexpected : expected <+: p)
    (hunit : Alone w.world
      (({ bus, address := t.address, subAddress := t.subAddress } : Ecu).withResponse r p))
    (hlatency : 0 < w.world.latency.nanos)
    (htimeout : w.world.latency.nanos + 5000000 < timeout.nanos)
    (hlongest : 700 * (w.world.latency.nanos + 5000000) ≤ (c.longestWait timeout).nanos)
    (hclock : w.world.clock + (c.longestWait timeout).nanos ≤ Instant.latest)
    (hrounds : (c.longestWait timeout).nanos < rounds) :
    ∃ answers e after,
      IsoTp.engine c Network.link rounds
          { bus, targets := [t], exchanges := [{ request := r, expected }], timeout } w =
        some (.ok answers, after) ∧
      answers.entries = [(t, .ok p)] ∧ after.world.ecus = [e] ∧ e.requests = #[r] := by
  have hcount : Dialogue.frameCount p + 2 ≤ 700 := by
    have hle := hresponse.2
    simp only [Dialogue.frameCount, longestMessage] at hle ⊢
    omega
  have hlimit : w.world.clock + (Dialogue.frameCount p + 2) * pace w.world.latency ≤
      w.world.clock + (c.longestWait timeout).nanos :=
    Nat.add_le_add_left (Nat.le_trans (Nat.mul_le_mul_right _ hcount) hlongest) _
  have hfeasible : Dialogue.Feasible
      { settings := c, bus, target := t, request := r, response := p, expected, timeout
        latency := w.world.latency, limit := w.world.clock + (c.longestWait timeout).nanos } :=
    ⟨hoffset, hrequest.1, hrequest.2, hresponse.1, hresponse.2, hcontrol, hpositive, hexpected,
      hlatency, Nat.le_of_lt htimeout⟩
  obtain ⟨answers, e, after, hengine, hentries, halone, hrequests⟩ :=
    Dialogue.engine_answers hfeasible hunit rfl (Instant.after?_eq_some_iff.mpr ⟨rfl, hclock⟩)
      hlimit (Nat.lt_of_le_of_lt (Nat.le_of_eq (Nat.add_sub_cancel_left _ _)) hrounds)
  exact ⟨answers, e, after, hengine, hentries, halone.ecus, hrequests⟩

/-- Request and response in several frames each, behind a gateway, with a flow control after every
frame. -/
theorem query_answered_segmented :
    ∃ answers e after,
      IsoTp.engine { blockSize := 1 } Network.link 10000000001
          { bus := 0, targets := [{ address := 0x18DA10F1, subAddress := some 0x42 }]
            exchanges :=
              [{ request := [0x22, 0xF1, 0x90, 0xF1, 0x8C, 0xF1, 0x87], expected := [0x62] }]
            timeout := { nanos := 100000000 } }
          { world := ({ latency := { nanos := 1000000 } } : Network).attach
              (({ bus := 0, address := 0x18DA10F1, subAddress := some 0x42 } : Ecu).withResponse
                [0x22, 0xF1, 0x90, 0xF1, 0x8C, 0xF1, 0x87]
                [0x62, 0xF1, 0x90, 1, 2, 3, 4, 5, 6, 7, 8, 9, 10, 11, 12]) } =
        some (.ok answers, after) ∧
      answers.entries = [({ address := 0x18DA10F1, subAddress := some 0x42 },
        .ok [0x62, 0xF1, 0x90, 1, 2, 3, 4, 5, 6, 7, 8, 9, 10, 11, 12])] ∧
      after.world.ecus = [e] ∧ e.requests = #[[0x22, 0xF1, 0x90, 0xF1, 0x8C, 0xF1, 0x87]] :=
  query_answered rfl (by decide) (by decide) rfl (by decide) (by decide) ⟨rfl, rfl, rfl⟩
    (by decide) (by decide) (by decide) (by decide) (by decide)

end EcuQuiet.Simulation
