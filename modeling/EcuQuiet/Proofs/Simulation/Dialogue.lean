import EcuQuiet.Proofs.IsoTp.Steps
import EcuQuiet.Proofs.Simulation.Units

/-!
# A tester and a simulated unit

A tester and a simulated unit, each with its own transport, carry out one exchange. Readings of the
bus take some time, and the unit takes its time as well, so the exchange is a series of rounds in
most of which nothing happens. Between two rounds it is in one of a few stages, in which the two
agree on what has gone across, the tester still waits, and there is enough time for what is to come.
-/

namespace EcuQuiet.Simulation

open IsoTp

/-- The longest time between two frames of a unit, as the tester sees it. -/
def pace (latency : Span) : Nat := latency.nanos + Ecu.reaction.nanos

/-- One exchange of a tester with the only unit of a bus. -/
structure Dialogue where
  settings : IsoTp.Settings
  bus : UInt8
  target : Target
  request : Bytes
  response : Bytes
  expected : Bytes
  timeout : Span
  /-- How long a reading of the bus takes. -/
  latency : Span
  /-- Past this the tester gives up. -/
  limit : Instant

namespace Dialogue

/-- An exchange that the tester can carry out, and that it is patient enough for. -/
structure Feasible (d : Dialogue) : Prop where
  offset : d.settings.responseOffset = 0x08
  request_pos : 1 ≤ d.request.length
  request_le : d.request.length ≤ longestMessage
  response_pos : 1 ≤ d.response.length
  response_le : d.response.length ≤ longestMessage
  uncontrolled : Uds.ControlRequest.ofBytes? d.request = none
  positive : d.response.head? ≠ some Uds.negativeResponse
  accepted : d.expected <+: d.response
  running : 0 < d.latency.nanos
  patient : pace d.latency ≤ d.timeout.nanos

variable (d : Dialogue)

/-- The query of the exchange. -/
def query : Query where
  bus := d.bus
  targets := [d.target]
  exchanges := [{ request := d.request, expected := d.expected }]
  timeout := d.timeout

/-- The tester's conversation while it waits. -/
def waiting (deadline : Instant) (sender : Sender) (assembly : Option Assembly) :
    Conversation where
  target := d.target
  address := responseAddress d.target.address 0x08
  current := { request := d.request, expected := d.expected }
  later := []
  deadline
  limit := d.limit
  sender
  receiver := { blockSize := d.settings.blockSize, assembly }

/-- The deadline after something has happened. -/
def extended (now : Instant) : Instant :=
  (Instant.after? now d.timeout).elim d.limit (min · d.limit)

/-- What is known of the time while a frame of the unit is waited for, and so many more after it. -/
structure Timely (clock due deadline : Instant) (further : Nat) : Prop where
  later : clock < due
  intime : due + d.latency.nanos ≤ deadline
  ample : due + d.latency.nanos + further * pace d.latency ≤ d.limit

/-- How many frames carry a rest, at most. -/
def frameCount (rest : Bytes) : Nat := (rest.length + 5) / 6

/-- How far the exchange has come: the tester waits for leave to send the rest of the request, or
for the start of the response, or for the rest of the response, or has got all of it. -/
inductive Stage : Instant → Conversation → Ecu → Prop
  | requesting {clock due deadline : Instant} {data rest : Bytes}
      (hmessage : d.request = data ++ rest) (hrest : rest ≠ [])
      (htime : d.Timely clock due deadline (frameCount d.response + 1)) :
      Stage clock (d.waiting deadline (.blocked rest 1) none)
        (unit d.bus d.target d.request d.response
          [(due, answer d.bus d.target [0x30, 0x00, 0x00])]
          (some { size := d.request.length, data, sequence := 1 }) none #[])
  | responding {clock due deadline : Instant}
      (htime : d.Timely clock due deadline (frameCount d.response)) :
      Stage clock (d.waiting deadline .finished none)
        (unit d.bus d.target d.request d.response
          [(due, answer d.bus d.target (Sender.start (capacity d.target) d.response).1)] none
          (unsaid d.target d.response) #[d.request])
  | receiving {clock due deadline : Instant} {data rest : Bytes}
      {sequence sinceFlow count : Nat} (hmessage : d.response = data ++ rest)
      (hseq : sequence < 16)
      (hblock : Block d.settings.blockSize (capacity d.target - 1) rest sinceFlow count)
      (htime : d.Timely clock due deadline (frameCount rest - 1)) :
      Stage clock
        (d.waiting deadline .finished
          (some { size := d.response.length, data, sequence, sinceFlow }))
        (unit d.bus d.target d.request d.response
          (segments d.bus d.target count due sequence rest) none
          (unsent (rest.drop (count * (capacity d.target - 1))) ((sequence + count) % 16))
          #[d.request])
  | answered {clock : Instant} {s : Conversation} {e : Ecu}
      (hstatus : s.status = .answered (.ok d.response)) (htarget : s.target = d.target)
      (hrequests : e.requests = #[d.request]) : Stage clock s e

variable {d}

/-! ### Time -/

theorem pace_le_of_further {now : Instant} {further : Nat}
    (hlimit : now + (further + 1) * pace d.latency ≤ d.limit) :
    now + pace d.latency ≤ d.limit := by
  rw [Nat.succ_mul] at hlimit
  exact Nat.le_trans (Nat.add_le_add_left (Nat.le_add_left _ _) now) hlimit

theorem le_extended (hd : d.Feasible) {now : Instant} (h : now + pace d.latency ≤ d.limit) :
    now + pace d.latency ≤ d.extended now := by
  have hpatient : now + pace d.latency ≤ now + d.timeout.nanos :=
    Nat.add_le_add_left hd.patient now
  rw [extended]
  cases hafter : Instant.after? now d.timeout with
  | none => exact h
  | some deadline =>
      obtain ⟨rfl, -⟩ := Instant.after?_eq_some_iff.mp hafter
      exact Nat.le_min.mpr ⟨hpatient, h⟩

/-- When something has happened, there is time for the next frame. -/
theorem Timely.of_extended (hd : d.Feasible) {now due : Instant} {further : Nat}
    (hlater : now < due) (hdue : due ≤ now + Ecu.reaction.nanos)
    (hlimit : now + (further + 1) * pace d.latency ≤ d.limit) :
    d.Timely now due (d.extended now) further := by
  have hpace : due + d.latency.nanos ≤ now + pace d.latency := by
    rw [pace, Nat.add_comm d.latency.nanos, ← Nat.add_assoc]
    exact Nat.add_le_add_right hdue _
  refine ⟨hlater, Nat.le_trans hpace (le_extended hd (pace_le_of_further hlimit)), ?_⟩
  rw [Nat.succ_mul, Nat.add_comm (further * _), ← Nat.add_assoc] at hlimit
  exact Nat.le_trans (Nat.add_le_add_right hpace _) hlimit

/-- A frame that comes in leaves time for those after it. -/
theorem Timely.limit {clock due deadline : Instant} {further : Nat}
    (h : d.Timely clock due deadline further) :
    clock + d.latency.nanos < deadline ∧
      clock + d.latency.nanos + further * pace d.latency ≤ d.limit := by
  have hnow : clock + d.latency.nanos < due + d.latency.nanos := Nat.add_lt_add_right h.later _
  exact ⟨Nat.lt_of_lt_of_le hnow h.intime,
    Nat.le_trans (Nat.add_le_add_right (Nat.le_of_lt hnow) _) h.ample⟩

/-- A round in which nothing comes in leaves time for what is still to come. -/
theorem Timely.idle {clock due deadline : Instant} {further : Nat}
    (h : d.Timely clock due deadline further) {now : Instant} (hnow : now < due) :
    d.Timely now due deadline further := ⟨hnow, h.intime, h.ample⟩

/-! ### Rounds -/

/-- One round of a query of one target on a network of one unit: the tester takes in what the unit
had to say, and the unit what the tester sends. -/
theorem step_alone {c : IsoTp.Settings} {q : Query} {s s' : Conversation} {e : Ecu}
    {w : Logged Network} {now : Instant} {heard : List Output} (hopen : s.isOver = false)
    (halone : Alone w.world e) (hquiet : e.periodic = [])
    (hsorted : e.outbox.Pairwise (·.1 ≤ ·.1)) (hbus : ∀ x ∈ e.outbox, x.2.bus = q.bus)
    (hnow : now = w.world.clock + w.world.latency.nanos)
    (hheard : s.receiveAll c q now ((e.outbox.filter (·.1 ≤ now)).map (·.2)) = (s', heard)) :
    ∃ after : Logged Network,
      IsoTp.step c q Network.link [s] w = some (.ok (.inl [(s'.tick c q now).1]), after) ∧
      Alone after.world
        (Ecu.receiveAll now (Output.frames (heard ++ (s'.tick c q now).2))
          { e with outbox := e.outbox.filter fun x => !decide (x.1 ≤ now) }) ∧
      after.world.clock = now ∧ after.world.latency = w.world.latency := by
  obtain ⟨middle, hbatch, hmiddle, hclock, hlatency⟩ := halone.batch hquiet hsorted hnow
  obtain ⟨after, hperform, hafter, hclock', hlatency'⟩ :=
    hmiddle.perform (heard ++ (s'.tick c q now).2)
  rw [hclock] at hafter hclock'
  refine ⟨after, ?_, hafter, hclock', hlatency'.trans hlatency⟩
  -- all that the unit says is on the bus of the query
  have hall : ((e.outbox.filter (·.1 ≤ now)).map (·.2)).filter (·.bus = q.bus) =
      (e.outbox.filter (·.1 ≤ now)).map (·.2) := by
    apply List.filter_eq_self.mpr
    intro f hf
    obtain ⟨x, hx, rfl⟩ := List.mem_map.mp hf
    exact decide_eq_true (hbus x (List.mem_of_mem_filter hx))
  have hread : Network.link.clock middle = some (.ok now, middle) := by
    rw [← hclock]
    rfl
  rw [IsoTp.step, List.all_cons, hopen, Bool.false_and, if_neg Bool.false_ne_true,
    Run.bind_apply, hbatch]
  dsimp only
  rw [Run.bind_apply, hread]
  dsimp only
  rw [play_singleton, hall, hheard]
  dsimp only
  rw [Run.bind_apply, hperform]
  rfl

/-- Without frames to hand out, the clock alone changes nothing before the deadline. -/
theorem tick_waiting {now deadline : Instant} {sender : Sender} {assembly : Option Assembly}
    (hsender : ∀ size, sender.next? size now = none) (hnow : now < deadline) :
    (d.waiting deadline sender assembly).tick d.settings d.query now =
      (d.waiting deadline sender assembly, []) := by
  have hburst : sender.burst (capacity d.target) now = [] :=
    Sender.burstUpTo_of_next? (hsender _) _
  have hlate : ¬ (d.waiting deadline sender assembly).deadline ≤ now := Nat.not_le_of_lt hnow
  have htransmit : (d.waiting deadline sender assembly).transmit d.settings d.query now =
      (d.waiting deadline sender assembly, []) := by
    rw [Conversation.transmit]
    simp only [waiting, hburst]
    rfl
  rw [Conversation.tick, htransmit]
  dsimp only
  rw [if_neg hlate]
  rfl

/-- A frame of the unit is heard, with its filling. -/
theorem receive_answer (now deadline : Instant) (sender : Sender) (assembly : Option Assembly)
    (content : Bytes) :
    (d.waiting deadline sender assembly).receive d.settings d.query now
        (answer d.bus d.target content) =
      (d.waiting deadline sender assembly).hear d.settings d.query now
        (content ++ IsoTp.Settings.filling {} d.target content) := by
  have hcontent := IsoTp.Settings.content?_frame {} d.bus d.target content
  have haddress : (!(d.waiting deadline sender assembly).isOver &&
      (d.waiting deadline sender assembly).address = (answer d.bus d.target content).address) =
        true := by
    simp [waiting, answer, Conversation.isOver]
  have hdata : (d.waiting deadline sender assembly).target.content?
      (answer d.bus d.target content).data =
        some (content ++ IsoTp.Settings.filling {} d.target content) := hcontent
  rw [Conversation.receive, if_pos haddress, hdata]

/-- The unit's flow control gives the tester leave to send the rest of the request. -/
theorem hear_leave {now deadline : Instant} {rest : Bytes} {sequence : Nat} :
    (d.waiting deadline (.blocked rest sequence) none).hear d.settings d.query now
        ([0x30, 0x00, 0x00] ++ IsoTp.Settings.filling {} d.target [0x30, 0x00, 0x00]) =
      (d.waiting (d.extended now) (.sending rest sequence none .zero now) none, []) := rfl

/-- A frame that completes the response ends the conversation. -/
theorem hear_completed (hd : d.Feasible) (now deadline : Instant) {assembly : Option Assembly}
    {content : Bytes} {receiver : Receiver}
    (hfeed : Receiver.feed { blockSize := d.settings.blockSize, assembly } content =
      (receiver, .completed d.response)) :
    ∃ s, (d.waiting deadline .finished assembly).hear d.settings d.query now content =
        (s, [.note (.responded d.target d.response)]) ∧
      s.status = .answered (.ok d.response) ∧ s.target = d.target := by
  have haccepts : (d.waiting deadline .finished assembly).current.accepts d.response = true :=
    Exchange.accepts_iff.mpr hd.accepted
  refine ⟨{ d.waiting deadline .finished assembly with
    receiver, status := .answered (.ok d.response) }, ?_, rfl, rfl⟩
  rw [Conversation.hear]
  simp only [waiting] at haccepts ⊢
  rw [hfeed]
  dsimp only [Conversation.respond]
  rw [if_neg hd.positive, if_pos haccepts]
  rfl

/-- A frame that is part of the response is waited for no longer, and the next one is. -/
theorem hear_part {now deadline : Instant} {assembly after : Option Assembly} {content : Bytes}
    (hfeed : Receiver.feed { blockSize := d.settings.blockSize, assembly } content =
      ({ blockSize := d.settings.blockSize, assembly := after }, .progress)) :
    (d.waiting deadline .finished assembly).hear d.settings d.query now content =
      (d.waiting (d.extended now) .finished after, []) := by
  rw [Conversation.hear]
  simp only [waiting]
  rw [hfeed]
  rfl

/-- A frame after which our flow control is due. -/
theorem hear_due {now deadline : Instant} {assembly after : Option Assembly} {content : Bytes}
    (hfeed : Receiver.feed { blockSize := d.settings.blockSize, assembly } content =
      ({ blockSize := d.settings.blockSize, assembly := after }, .flowControlDue)) :
    (d.waiting deadline .finished assembly).hear d.settings d.query now content =
      (d.waiting (d.extended now) .finished after,
        [.send (d.settings.frame d.bus d.target d.settings.flowControl)]) := by
  rw [Conversation.hear]
  simp only [waiting]
  rw [hfeed]
  rfl

theorem tick_answered {c : IsoTp.Settings} {q : Query} {s : Conversation} {answer : Answer}
    (h : s.status = .answered answer) (now : Instant) : s.tick c q now = (s, []) := by
  have hover : s.isOver = true := by rw [Conversation.isOver, h]
  rw [Conversation.tick, if_pos hover]

variable (d) in
/-- From here, a round that ends at the given time takes the exchange to a stage again. -/
def Advances (now : Instant) (s : Conversation) (e : Ecu) : Prop :=
  ∃ s' heard,
    s.receiveAll d.settings d.query now ((e.outbox.filter (·.1 ≤ now)).map (·.2)) = (s', heard) ∧
    d.Stage now (s'.tick d.settings d.query now).1
      (Ecu.receiveAll now (Output.frames (heard ++ (s'.tick d.settings d.query now).2))
        { e with outbox := e.outbox.filter fun x => !decide (x.1 ≤ now) })

/-- Nothing happens while nothing is due. -/
theorem Advances.of_later {now : Instant} {s : Conversation} {e : Ecu}
    (hlater : ∀ x ∈ e.outbox, now < x.1) (htick : s.tick d.settings d.query now = (s, []))
    (hstage : d.Stage now s e) : d.Advances now s e := by
  rw [Advances, filter_eq_nil_of_later hlater, filter_eq_self_of_later hlater]
  refine ⟨s, [], rfl, ?_⟩
  rw [htick]
  exact hstage

/-- A frame that is due goes before those after it. -/
theorem Advances.cons {now due : Instant} {s s' : Conversation} {f : Frame} {rest : List Timed}
    {e : Ecu} (hdue : due ≤ now) (hreceive : s.receive d.settings d.query now f = (s', []))
    (h : d.Advances now s' { e with outbox := rest }) :
    d.Advances now s { e with outbox := (due, f) :: rest } := by
  obtain ⟨s'', heard, hreceived, hstage⟩ := h
  refine ⟨s'', heard, ?_, ?_⟩
  · simp only [List.filter_cons, decide_eq_true hdue, if_true, List.map_cons,
      Conversation.receiveAll, hreceive, List.nil_append]
    exact hreceived
  · simp only [List.filter_cons, decide_eq_true hdue, Bool.not_true, Bool.false_eq_true, if_false]
    exact hstage

/-- The last frame that is waited for. -/
theorem Advances.single {now due : Instant} {s s' : Conversation} {f : Frame} {e : Ecu}
    {heard : List Output} (hdue : due ≤ now)
    (hreceive : s.receive d.settings d.query now f = (s', heard))
    (hstage : d.Stage now (s'.tick d.settings d.query now).1
      (Ecu.receiveAll now (Output.frames (heard ++ (s'.tick d.settings d.query now).2))
        { e with outbox := [] })) :
    d.Advances now s { e with outbox := [(due, f)] } := by
  refine ⟨s', heard, ?_, ?_⟩
  · simp only [List.filter_cons, decide_eq_true hdue, if_true, List.filter_nil, List.map_cons,
      List.map_nil, Conversation.receiveAll, hreceive, List.append_nil]
  · simp only [List.filter_cons, decide_eq_true hdue, Bool.not_true, Bool.false_eq_true, if_false,
      List.filter_nil]
    exact hstage

/-- A round in which nothing is due yet changes nothing; any other takes in what is due. -/
theorem Advances.of_timely {clock due deadline : Instant} {further : Nat} {sender : Sender}
    {assembly : Option Assembly} {e : Ecu} (htime : d.Timely clock due deadline further)
    (hsender : ∀ size now, sender.next? size now = none) (hlater : ∀ x ∈ e.outbox, due ≤ x.1)
    (hidle : d.Timely (clock + d.latency.nanos) due deadline further →
      d.Stage (clock + d.latency.nanos) (d.waiting deadline sender assembly) e)
    (hbusy : due ≤ clock + d.latency.nanos →
      clock + d.latency.nanos + further * pace d.latency ≤ d.limit →
      d.Advances (clock + d.latency.nanos) (d.waiting deadline sender assembly) e) :
    d.Advances (clock + d.latency.nanos) (d.waiting deadline sender assembly) e := by
  obtain ⟨hdeadline, hlimit⟩ := htime.limit
  obtain hwait | hdue := Nat.lt_or_ge (clock + d.latency.nanos) due
  · exact Advances.of_later (fun x hx => Nat.lt_of_lt_of_le hwait (hlater x hx))
      (tick_waiting (fun size => hsender size _) hdeadline) (hidle (htime.idle hwait))
  · exact hbusy hdue hlimit

end Dialogue

end EcuQuiet.Simulation
