import EcuQuiet.Proofs.Answers
import EcuQuiet.Proofs.Bus.Contract
import EcuQuiet.Proofs.Simulation.Dialogue
import EcuQuiet.Proofs.Simulation.Emission

/-!
# A short exchange beside periodic frames

A unit goes on with its periodic frames while it is asked. As long as none of them has the address
of its responses, the tester is told nothing by them, and what a request of one frame comes to is
decided by the first frame that the unit has in its outbox for the tester: a response, something
left over from before, or nothing at all, in which case the tester waits in vain.
-/

namespace EcuQuiet

open Run

namespace IsoTp

/-- Frames that tell a conversation nothing leave it as it is. -/
theorem Conversation.receiveAll_untold {c : Settings} {q : Query} {now : Instant}
    {frames : List Frame} {s : Conversation} (h : ∀ f ∈ frames, s.told? f = none) :
    s.receiveAll c q now frames = (s, []) := by
  induction frames with
  | nil => rfl
  | cons f rest ih =>
      obtain ⟨hfirst, hrest⟩ := List.forall_mem_cons.mp h
      rw [receiveAll, receive_eq, hfirst]
      dsimp only [Option.elim]
      rw [ih hrest]
      rfl

/-- A frame that ends a conversation is the last one that matters. -/
theorem Conversation.receiveAll_first {c : Settings} {q : Query} {now : Instant}
    {frames rest : List Frame} {f : Frame} {s ended : Conversation} {outputs : List Output}
    {p : Frame → Bool} (hothers : ∀ f, p f = false → s.told? f = none)
    (hfirst : frames.filter p = f :: rest) (hreceive : s.receive c q now f = (ended, outputs))
    (hover : ended.isOver = true) : s.receiveAll c q now frames = (ended, outputs) := by
  induction frames with
  | nil => cases hfirst
  | cons g frames ih =>
      rw [List.filter_cons] at hfirst
      split at hfirst
      next =>
        obtain ⟨rfl, -⟩ := List.cons.inj hfirst
        rw [receiveAll, hreceive]
        dsimp only
        rw [receiveAll_untold fun f _ => told?_of_over hover f, List.append_nil]
      next hother =>
        rw [receiveAll, receive_eq, hothers g (Bool.eq_false_iff.mpr hother)]
        dsimp only [Option.elim]
        rw [ih hfirst]
        rfl

/-- A query of one exchange with one target gives its start frame to a send, and ends with it or
goes on with its one conversation. -/
theorem engine_asks {σ : Type} {link : Link σ} {cutOff : Prop} {world : σ} {c : Settings}
    {q : Query} {t : Target} {first : Exchange} {start limit : Instant} {rounds : Nat}
    {Q : Except DiagnosticError Answers → σ → Prop} (hnow : link.now world = (start, world))
    (htargets : q.targets = [t]) (hexchanges : q.exchanges = [first])
    (hsendable : isSendable q = true)
    (hrange : Instant.after? start (c.longestWait q.timeout) = some limit)
    (hfailed : ∀ cause,
      (link.send [c.startFrame q.bus t first.request] world).result = .error cause →
        Q (.error (.bus cause)) (link.send [c.startFrame q.bus t first.request] world).world)
    (hunheard : (link.send [c.startFrame q.bus t first.request] world).result = .ok () →
      q.timeout = .zero →
        Q (.ok .empty) (link.send [c.startFrame q.bus t first.request] world).world)
    (hheard : (link.send [c.startFrame q.bus t first.request] world).result = .ok () →
      q.timeout ≠ .zero →
        Meets cutOff (· = (link.send [c.startFrame q.bus t first.request] world).world)
          (loop (step c q link) rounds [(Conversation.begin c q first [] start limit t).1]) Q) :
    Meets cutOff (· = world) (engine c link rounds q) Q := by
  refine IsoTp.engine_meets link c q (N := fun now after => now = start ∧ after = world)
    (M := fun now after => now = start ∧
      (link.send [c.startFrame q.bus t first.request] world).result = .ok () ∧
      after = (link.send [c.startFrame q.bus t first.request] world).world)
    ?refused (by rintro _ rfl; rw [hnow]; exact ⟨rfl, rfl⟩) ?range ?asked ?unheard ?heard
  case refused =>
    rintro (hnone | hunsendable)
    · cases hexchanges.symm.trans hnone
    · cases hsendable.symm.trans hunsendable
  case range =>
    rintro _ hnone _ ⟨rfl, rfl⟩
    cases hnone.symm.trans hrange
  case asked =>
    rintro first' later _ limit' hcons -
    cases hexchanges.symm.trans hcons
    rw [htargets, begin_outputs]
    refine Meets.note_bind _ (link.meets_transmit_bind ?_ ?_ (Meets.pure () fun _ hafter => hafter))
    · rintro _ cause ⟨rfl, rfl⟩ hcause
      exact hfailed cause hcause
    · rintro _ ⟨rfl, rfl⟩ hok
      exact ⟨rfl, hok, rfl⟩
  case unheard =>
    rintro hzero _ after ⟨-, hok, rfl⟩
    exact hunheard hok hzero
  case heard =>
    rintro hwaits first' later _ limit' hcons hlimit w ⟨rfl, hok, hw⟩
    cases hexchanges.symm.trans hcons
    obtain rfl := Option.some.inj (hlimit.symm.trans hrange)
    rw [htargets]
    exact hheard hok hwaits w hw

/-- Outputs without frames leave the world as it is. -/
theorem perform_silent {σ : Type} {link : Link σ} {cutOff : Prop} {I : σ → Prop}
    {outputs : List Output} (h : Output.frames outputs = []) :
    Meets cutOff I (Output.perform link outputs) fun result w => result = .ok () ∧ I w := by
  induction outputs with
  | nil => exact Meets.pure _ fun _ hw => ⟨rfl, hw⟩
  | cons output rest ih =>
      cases output with
      | note event => exact Meets.note_bind event (ih h)
      | send frame => cases h

end IsoTp

namespace Simulation

open IsoTp

/-! ### What a unit does with a short request -/

namespace Ecu

/-- A response of one frame goes into the outbox. -/
theorem handle_known {e : Ecu} {request response : Bytes} (hheeds : e.ignoring = 0)
    (hcontrol : Uds.ControlRequest.ofBytes? request = none)
    (hknown : e.responses.lookup request = some response)
    (hshort : response.length < capacity e.target) (now : Instant) :
    (e.handle now request).1 =
      { e with
        outbox := e.outbox ++ [(now + reaction.nanos,
          answer e.bus e.target (Sender.start (capacity e.target) response).1)]
        requests := e.requests.push request } := by
  obtain ⟨bus, address, subAddress, responses, periodic, ignoring⟩ := e
  subst hheeds
  rw [handle]
  simp only [hcontrol, hknown]
  rw [respond, Sender.start_of_short hshort]
  exact if_pos hshort

/-- The unit with so many requests to drop. -/
def dropping (e : Ecu) (ignoring : Nat) : Ecu := { e with ignoring }

theorem dropping_zero {e : Ecu} (h : e.ignoring = 0) : e.dropping 0 = e := by
  rw [dropping, ← h]

/-- What a unit puts into its outbox for a communication control request. -/
def confirmation (e : Ecu) (now : Instant) (r : Uds.ControlRequest) : List Timed :=
  if r.suppressed then []
  else [(now + reaction.nanos, answer e.bus e.target
    (Sender.start (capacity e.target) [Uds.Service.communicationControl.response,
      r.control.byte]).1)]

/-- Communication control silences the unit and is confirmed if that is asked for. -/
theorem handle_silencing {e : Ecu} {r : Uds.ControlRequest} (hheeds : e.ignoring = 0)
    (hobeys : e.obeys = true) (hsilences : r.control.silences = true) (now : Instant) :
    (e.handle now r.toBytes).1 =
      { e with
        silencedAt := some (now + e.silenceDelay.nanos)
        outbox := e.outbox ++ e.confirmation now r
        requests := e.requests.push r.toBytes } := by
  have hcapacity := capacity_eq e.target
  have hshort : [Uds.Service.communicationControl.response, r.control.byte].length <
      capacity e.target := by
    rw [List.length_cons, List.length_singleton]
    omega
  obtain ⟨bus, address, subAddress, responses, periodic, ignoring, silenceDelay, obeys⟩ := e
  subst hheeds hobeys
  rw [handle]
  simp only [r.ofBytes?_toBytes]
  rw [control, confirmation]
  simp only [hsilences, Bool.not_true, Bool.false_eq_true, if_false, if_true]
  by_cases hsuppressed : r.suppressed
  · rw [if_pos hsuppressed, if_pos hsuppressed, List.append_nil]
  · rw [if_neg hsuppressed, if_neg hsuppressed, respond, Sender.start_of_short hshort]
    exact if_pos hshort

end Ecu

/-! ### A network of one unit -/

namespace Alone

variable {n : Network} {e : Ecu}

theorem emits (h : Alone n e) {x : Timed} : n.Emits x ↔ e.Emits x := by
  rw [Network.Emits, h.scheduled, h.ecus]
  simp

/-- A reading takes what the unit has to say by its end. -/
theorem receive (h : Alone n e) :
    Alone n.receive.world (e.poll (n.clock + n.latency.nanos)).1 := by
  refine ⟨?_, ?_, h.faults⟩
  · rw [Network.ecus_receive, h.ecus]
    rfl
  · simp [Network.receive, Network.collect, Network.advance, h.scheduled]

/-- A frame that is sent is shown to the unit. -/
theorem send (h : Alone n e) (f : Frame) :
    Network.send [f] n =
      { result := .ok ()
        world := { n with ecus := [(e.receive n.clock f).1], sent := n.sent ++ [(n.clock, f)]
                          sends := n.sends + 1 }
        notes := (e.receive n.clock f).2 } := by
  obtain ⟨clock, latency, ecus, scheduled, sent, faults, sends⟩ := n
  obtain ⟨rfl, rfl, rfl⟩ := h
  simp [Network.send, Network.deliverAll, Network.deliver]

end Alone

/-- The unit with other frames to transmit and other requests taken. -/
def Ecu.having (e : Ecu) (periodic : List Periodic) (outbox : List Timed)
    (requests : Array Bytes) : Ecu :=
  { e with periodic, outbox, requests }

/-- A network whose only unit is what became of `e` in the course of time: it has transmitted
periodic frames and taken requests, and it is the same unit in every other respect. -/
structure Hosts (e : Ecu) (periodic : List Periodic) (outbox : List Timed) (n : Network) :
    Prop where
  unit : ∃ requests, Alone n (e.having periodic outbox requests)
  entries : ∀ p ∈ periodic, ∃ q ∈ e.periodic, p.address = q.address ∧ ∀ t, p.DueAt t → q.DueAt t

/-- A unit whose periodic frames have other addresses than its responses. -/
def Ecu.KeepsApart (e : Ecu) : Prop :=
  ∀ p ∈ e.periodic, p.address ≠ responseAddress e.address 0x08

/-- A unit that transmits no periodic frame on the address of its responses: its periodic frames
have other addresses, or are due after it was silenced. -/
def Ecu.Discreet (e : Ecu) : Prop :=
  ∀ p ∈ e.periodic, ∀ t, p.DueAt t → e.silencedAt.all (t < ·) = true →
    p.address ≠ responseAddress e.address 0x08

theorem Ecu.KeepsApart.discreet {e : Ecu} (h : e.KeepsApart) : e.Discreet :=
  fun p hp _ _ _ => h p hp

theorem Periodic.DueAt.due_le {p : Periodic} {t : Instant} (h : p.DueAt t) : p.due ≤ t := by
  obtain ⟨k, rfl⟩ := h
  exact Nat.le_add_right ..

/-- An entry is due for the next time after what it was taken for. -/
theorem Periodic.lt_due_past (p : Periodic) (now : Instant) : now < (p.past now).due :=
  (Periodic.past_dueAt.mp ⟨0, by rw [Nat.zero_mul, Nat.add_zero]⟩).1

namespace Hosts

variable {n : Network} {e : Ecu} {periodic : List Periodic} {outbox : List Timed}

theorem of_alone (h : Alone n e) : Hosts e e.periodic e.outbox n :=
  ⟨⟨e.requests, h⟩, fun p hp => ⟨p, hp, rfl, fun _ hdue => hdue⟩⟩

/-- What such a network is going to emit: what is in the outbox, and periodic frames that are due
before the unit is silenced. -/
theorem emits (h : Hosts e periodic outbox n) {x : Timed} (hx : n.Emits x) :
    x ∈ outbox ∨ ∃ p ∈ periodic, p.DueAt x.1 ∧ x.2.address = p.address ∧
      e.silencedAt.all (x.1 < ·) = true := by
  obtain ⟨requests, halone⟩ := h.unit
  obtain hx | ⟨p, hp, hdue, hloud, hframe⟩ := halone.emits.mp hx
  · exact .inl hx
  · exact .inr ⟨p, hp, hdue, by rw [hframe], hloud⟩

theorem advance (h : Hosts e periodic outbox n) (d : Span) :
    Hosts e periodic outbox (n.advance d) := by
  obtain ⟨⟨requests, halone⟩, hentries⟩ := h
  exact ⟨⟨requests, halone.ecus, halone.scheduled, halone.faults⟩, hentries⟩

/-- A reading leaves what is due after its end. -/
theorem receive (h : Hosts e periodic outbox n) :
    Hosts e (periodic.map (·.past (n.clock + n.latency.nanos)))
      (outbox.filter fun x => !decide (x.1 ≤ n.clock + n.latency.nanos)) n.receive.world := by
  obtain ⟨requests, halone⟩ := h.unit
  have hread := halone.receive
  rw [Ecu.poll, List.partition_eq_filter_filter] at hread
  refine ⟨⟨requests, hread⟩, List.forall_mem_map.mpr fun p hp => ?_⟩
  obtain ⟨q, hq, haddress, hdues⟩ := h.entries p hp
  exact ⟨q, hq, haddress, fun t hdue => hdues t (Periodic.past_dueAt.mp hdue).2⟩

/-- Of all frames on the address of the responses, a reading yields those of the outbox that are due
by its end, in their order. -/
theorem responses (h : Hosts e periodic outbox n) (hdiscreet : e.Discreet)
    (hsorted : outbox.Pairwise (·.1 ≤ ·.1))
    (honly : ∀ x ∈ outbox, x.2.address = responseAddress e.address 0x08) {batch : List Frame}
    (hbatch : n.receive.result = .ok batch) :
    batch.filter (·.address = responseAddress e.address 0x08) =
      (outbox.filter (·.1 ≤ n.clock + n.latency.nanos)).map (·.2) := by
  obtain ⟨requests, halone⟩ := h.unit
  obtain rfl : ((n.advance n.latency).collect.2).map (·.2) = batch := Except.ok.inj hbatch
  have hcollect : (n.advance n.latency).collect.2 =
      inOrder ((e.having periodic outbox requests).periodicFrames (n.clock + n.latency.nanos) ++
        outbox.filter (·.1 ≤ n.clock + n.latency.nanos)) := by
    simp only [Network.collect, Network.advance, halone.scheduled, halone.ecus,
      List.partition_eq_filter_filter, List.filter_nil, List.nil_append, List.map_cons,
      List.map_nil, List.flatMap_cons, List.flatMap_nil, List.append_nil, Ecu.poll, Ecu.having]
  have hperiodic : ((e.having periodic outbox requests).periodicFrames
      (n.clock + n.latency.nanos)).filter
        (fun x => decide (x.2.address = responseAddress e.address 0x08)) = [] := by
    refine List.filter_eq_nil_iff.mpr fun x hx haddress => ?_
    obtain ⟨-, p, hp, hdue, hloud, hframe⟩ := Ecu.mem_periodicFrames.mp hx
    obtain ⟨q, hq, hsame, hdues⟩ := h.entries p hp
    rw [hframe, decide_eq_true_eq] at haddress
    exact hdiscreet q hq x.1 (hdues _ hdue) hloud (hsame.symm.trans haddress)
  have houtbox : (outbox.filter (·.1 ≤ n.clock + n.latency.nanos)).filter
      (fun x => decide (x.2.address = responseAddress e.address 0x08)) =
        outbox.filter (·.1 ≤ n.clock + n.latency.nanos) :=
    List.filter_eq_self.mpr fun x hx => decide_eq_true (honly x (List.mem_of_mem_filter hx))
  rw [List.filter_map, hcollect, Function.comp_def, filter_inOrder, List.filter_append, hperiodic,
    houtbox, List.nil_append, inOrder_of_pairwise (hsorted.filter _)]

/-- Sending succeeds and takes no time. -/
theorem sends (h : Hosts e periodic outbox n) (f : Frame) :
    (Network.send [f] n).result = .ok () ∧ (Network.send [f] n).world.clock = n.clock ∧
      (Network.send [f] n).world.latency = n.latency ∧
      (Network.send [f] n).world.sent = n.sent ++ [(n.clock, f)] := by
  obtain ⟨requests, halone⟩ := h.unit
  rw [halone.send]
  exact ⟨rfl, rfl, rfl, rfl⟩

/-- A query of one exchange with one target sends its start frame and is then over, or goes on with
its one conversation. -/
theorem engine_meets (h : Hosts e periodic outbox n) {c : IsoTp.Settings} {q : Query} {t : Target}
    {first : Exchange} {limit : Instant} {rounds : Nat}
    {Q : Except DiagnosticError Answers → Network → Prop} (htargets : q.targets = [t])
    (hexchanges : q.exchanges = [first]) (hsendable : isSendable q = true)
    (hrange : Instant.after? n.clock (c.longestWait q.timeout) = some limit)
    (hunheard : q.timeout = .zero →
      Q (.ok .empty) (Network.send [c.startFrame q.bus t first.request] n).world)
    (hheard : q.timeout ≠ .zero →
      Meets False (· = (Network.send [c.startFrame q.bus t first.request] n).world)
        (loop (step c q Network.link) rounds
          [(Conversation.begin c q first [] n.clock limit t).1]) Q) :
    Meets False (· = n) (engine c Network.link rounds q) Q := by
  refine engine_asks rfl htargets hexchanges hsendable hrange (fun cause hfailed => ?_)
    (fun _ => hunheard) fun _ => hheard
  cases (h.sends _).1.symm.trans hfailed

/-- A query that does not wait for answers is over with its start frame. -/
theorem engine_starts (h : Hosts e periodic outbox n) {c : IsoTp.Settings} {q : Query} {t : Target}
    {first : Exchange} (htargets : q.targets = [t]) (hexchanges : q.exchanges = [first])
    (hsendable : isSendable q = true) (htimeout : q.timeout = .zero)
    (hrange : n.clock + (c.longestWait .zero).nanos ≤ Instant.latest) (rounds : Nat) :
    Meets False (· = n) (engine c Network.link rounds q) fun result after =>
      (∃ answers, result = .ok answers) ∧
        after = (Network.send [c.startFrame q.bus t first.request] n).world := by
  have hafter := Instant.after?_eq_some_iff.mpr ⟨rfl, hrange⟩
  rw [← htimeout] at hafter
  exact h.engine_meets htargets hexchanges hsendable hafter (fun _ => ⟨⟨_, rfl⟩, rfl⟩)
    fun hwaits => absurd htimeout hwaits

/-- A frame that is sent does to the unit what it does to it at any time. -/
theorem send {e' : Ecu} {outbox' : List Timed} {f : Frame} (h : Hosts e periodic outbox n)
    (hperiodic : e'.periodic = e.periodic)
    (hheard : ∀ requests, ∃ requests', ((e.having periodic outbox requests).receive n.clock f).1 =
      e'.having periodic outbox' requests') :
    Hosts e' periodic outbox' (Network.send [f] n).world := by
  obtain ⟨requests, halone⟩ := h.unit
  obtain ⟨requests', hunit⟩ := hheard requests
  refine ⟨⟨requests', ?_⟩, hperiodic ▸ h.entries⟩
  rw [halone.send, hunit]
  exact ⟨rfl, halone.scheduled, halone.faults⟩

/-- A request of one frame does to the unit what it does to it when it is complete. -/
theorem sent (h : Hosts e periodic outbox n) (c : IsoTp.Settings) {request : Bytes} {e' : Ecu}
    {outbox' : List Timed} (hrequest : request.length < capacity e.target)
    (hperiodic : e'.periodic = e.periodic)
    (hhandled : ∀ requests, ((e.having periodic outbox requests).handle n.clock request).1 =
      e'.having periodic outbox' (requests.push request)) :
    Hosts e' periodic outbox' (Network.send [c.startFrame e.bus e.target request] n).world := by
  refine h.send hperiodic fun requests => ⟨requests.push request, ?_⟩
  have hreceive := (e.having periodic outbox requests).receive_short n.clock c hrequest
  exact (congrArg Prod.fst hreceive).trans (hhandled requests)

/-- A request of one frame to which the unit knows a response of one frame puts the response into
the outbox. -/
theorem asked (h : Hosts e periodic outbox n) (c : IsoTp.Settings) {request response : Bytes}
    (hrequest : request.length < capacity e.target)
    (hresponse : response.length < capacity e.target) (hheeds : e.ignoring = 0)
    (hcontrol : Uds.ControlRequest.ofBytes? request = none)
    (hknown : e.responses.lookup request = some response) :
    Hosts e periodic (outbox ++ [(n.clock + Ecu.reaction.nanos,
        answer e.bus e.target (Sender.start (capacity e.target) response).1)])
      (Network.send [c.startFrame e.bus e.target request] n).world :=
  h.sent c hrequest rfl fun requests => Ecu.handle_known
    (e := e.having periodic outbox requests) hheeds hcontrol hknown hresponse n.clock

/-- A request that the unit drops leaves its outbox alone. -/
theorem dropped {left : Nat} (h : Hosts (e.dropping (left + 1)) periodic outbox n)
    (c : IsoTp.Settings) {request : Bytes} (hrequest : request.length < capacity e.target) :
    Hosts (e.dropping left) periodic outbox
      (Network.send [c.startFrame e.bus e.target request] n).world :=
  h.sent c hrequest rfl fun _ => rfl

/-- Communication control of one frame. -/
theorem silenced (h : Hosts e periodic outbox n) (c : IsoTp.Settings) {r : Uds.ControlRequest}
    (hheeds : e.ignoring = 0) (hobeys : e.obeys = true) (hsilences : r.control.silences = true) :
    Hosts { e with silencedAt := some (n.clock + e.silenceDelay.nanos) } periodic
      (outbox ++ e.confirmation n.clock r)
      (Network.send [c.startFrame e.bus e.target r.toBytes] n).world := by
  have hcapacity := capacity_eq e.target
  have hshort : r.toBytes.length < capacity e.target := by
    rw [Uds.ControlRequest.toBytes, List.length_cons, List.length_cons, List.length_singleton]
    omega
  exact h.sent c hshort rfl fun requests => Ecu.handle_silencing
    (e := e.having periodic outbox requests) hheeds hobeys hsilences n.clock

end Hosts

/-! ### The exchange -/

namespace Dialogue

/-- An exchange whose request fits one frame, with a unit whose periodic frames tell the tester
nothing. -/
structure Short (d : Dialogue) (e : Ecu) : Prop extends d.Feasible where
  target : e.target = d.target
  discreet : e.Discreet
  request_short : d.request.length < capacity d.target

/-- An exchange in which request and response fit one frame each, with a unit that has the response
ready. -/
structure Brief (d : Dialogue) (e : Ecu) : Prop extends d.Short e where
  bus : e.bus = d.bus
  heeds : e.ignoring = 0
  known : e.responses.lookup d.request = some d.response
  response_short : d.response.length < capacity d.target

/-- The tester takes the whole of a message from a frame and comes to an answer. -/
def Concludes (d : Dialogue) (f : Frame) (a : Answer) : Prop :=
  ∀ now deadline, ∃ s, ∃ events : List Note,
    (d.waiting deadline .finished none).receive d.settings d.query now f =
      (s, events.map .note) ∧ s.status = .answered a ∧ s.target = d.target

/-- What a unit has in its outbox for a tester that asked at `start`, and the answer that the tester
comes to: the first frame decides, and without a frame there is no answer. -/
structure Holds (d : Dialogue) (start : Instant) (pending : List Timed) (a? : Option Answer) :
    Prop where
  sorted : pending.Pairwise (·.1 ≤ ·.1)
  frames : ∀ x ∈ pending,
    x.2.bus = d.bus ∧ x.2.address = responseAddress d.target.address 0x08
  decides : Option.Rel (fun x a => x.1 ≤ start + Ecu.reaction.nanos ∧ d.Concludes x.2 a)
    pending.head? a?

variable {d : Dialogue} {e : Ecu} {start : Instant} {sent : Array Timed} {n : Network}
  {pending : List Timed} {a? : Option Answer}

/-- There is an answer exactly if there is a frame. -/
theorem Holds.nil_or_cons (h : d.Holds start pending a?) :
    pending = [] ∧ a? = none ∨ ∃ x rest a, pending = x :: rest ∧ a? = some a ∧
      x.1 ≤ start + Ecu.reaction.nanos ∧ d.Concludes x.2 a := by
  obtain ⟨-, -, hdecides⟩ := h
  cases pending with
  | nil =>
      cases hdecides with
      | none => exact .inl ⟨rfl, rfl⟩
  | cons x rest =>
      cases hdecides with
      | some hfirst => exact .inr ⟨x, rest, _, rfl, rfl, hfirst⟩

/-- A message of one frame is heard as a whole. -/
theorem receive_short {response : Bytes} (hpos : 1 ≤ response.length)
    (hshort : response.length < capacity d.target) (now deadline : Instant) :
    (d.waiting deadline .finished none).receive d.settings d.query now
        (answer d.bus d.target (Sender.start (capacity d.target) response).1) =
      (d.waiting deadline .finished none).respond d.settings d.query now response := by
  have hcapacity := capacity_eq d.target
  have hfeed : Receiver.feed { blockSize := d.settings.blockSize }
      (ofHalves 0 response.length :: response ++
        IsoTp.Settings.filling {} d.target (ofHalves 0 response.length :: response)) =
      ({ blockSize := d.settings.blockSize }, .completed response) :=
    Receiver.feed_single _ hpos (by omega)
  rw [Sender.start_of_short hshort]
  refine (receive_answer now deadline .finished none _).trans ?_
  rw [Conversation.hear]
  simp only [waiting]
  rw [hfeed]

/-- The response that is waited for is the answer. -/
theorem concludes_accepted {response : Bytes} (hpos : 1 ≤ response.length)
    (hshort : response.length < capacity d.target)
    (hpositive : response.head? ≠ some Uds.negativeResponse) (haccepted : d.expected <+: response) :
    d.Concludes (answer d.bus d.target (Sender.start (capacity d.target) response).1)
      (.ok response) := by
  intro now deadline
  have haccepts : (d.waiting deadline .finished none).current.accepts response = true :=
    Exchange.accepts_iff.mpr haccepted
  rw [receive_short hpos hshort, Conversation.respond, if_neg hpositive, if_pos haccepts]
  exact ⟨_, [.responded d.target response], rfl, rfl, rfl⟩

/-- The response to another request is a wrong message. -/
theorem concludes_wrong {response : Bytes} (hpos : 1 ≤ response.length)
    (hshort : response.length < capacity d.target)
    (hpositive : response.head? ≠ some Uds.negativeResponse) (hother : ¬d.expected <+: response) :
    d.Concludes (answer d.bus d.target (Sender.start (capacity d.target) response).1)
      (.error .wrongMessage) := by
  intro now deadline
  have hrejects : ¬(d.waiting deadline .finished none).current.accepts response = true :=
    fun haccepts => hother (Exchange.accepts_iff.mp haccepts)
  rw [receive_short hpos hshort, Conversation.respond, if_neg hpositive, if_neg hrejects]
  exact ⟨_, [.responded d.target response, .unacceptable d.target response], rfl, rfl, rfl⟩

/-- A frame on another address tells the tester nothing. -/
theorem told?_waiting {deadline : Instant} {f : Frame}
    (h : ¬f.address = responseAddress d.target.address 0x08) :
    (d.waiting deadline .finished none).told? f = none := by
  have hother : (d.waiting deadline .finished none).address ≠ f.address := fun heq => h heq.symm
  rw [Conversation.told?, decide_eq_false hother, Bool.and_false, if_neg Bool.false_ne_true]

/-- A reading whose first frame from the unit decides the exchange ends it. -/
theorem play_first {now deadline : Instant} {batch rest : List Frame} {f : Frame} {a : Answer}
    (hfirst : (batch.filter (·.bus = d.bus)).filter
      (·.address = responseAddress d.target.address 0x08) = f :: rest)
    (hconcludes : d.Concludes f a) :
    ∃ s, ∃ events : List Note, Round.play d.settings d.query now batch
        [d.waiting deadline .finished none] = ([s], events.map .note) ∧
      s.status = .answered a ∧ s.target = d.target := by
  obtain ⟨s, events, hreceive, hstatus, htarget⟩ := hconcludes now deadline
  have hover : s.isOver = true := by rw [Conversation.isOver, hstatus]
  have hall : (d.waiting deadline .finished none).receiveAll d.settings d.query now
      (batch.filter (·.bus = d.query.bus)) = (s, events.map .note) :=
    Conversation.receiveAll_first (fun f hf => told?_waiting (of_decide_eq_false hf)) hfirst
      hreceive hover
  refine ⟨s, events, ?_, hstatus, htarget⟩
  rw [play_singleton, hall, tick_answered hstatus, List.append_nil]

/-- What a reading brings to a tester that waits: nothing of what the unit has ready was due, or the
first frame of it comes first. -/
inductive Brings (d : Dialogue) (e : Ecu) (pending : List Timed) (a? : Option Answer)
    (batch : List Frame) (n : Network) : Prop
  | nothing {periodic : List Periodic} (hhosts : Hosts e periodic pending n)
      (hlater : ∀ x ∈ pending, n.clock < x.1) (hperiodic : ∀ p ∈ periodic, n.clock < p.due)
      (huntold : ∀ f ∈ batch, f.address ≠ responseAddress d.target.address 0x08)
  | decisive {periodic : List Periodic} {left : List Timed} {f : Frame} {a : Answer}
      (hhosts : Hosts e periodic left n) (hleft : left.Sublist pending.tail)
      (hperiodic : ∀ p ∈ periodic, n.clock < p.due)
      (hfirst : ∃ rest, (batch.filter (·.bus = d.bus)).filter
        (·.address = responseAddress d.target.address 0x08) = f :: rest)
      (hanswer : a? = some a) (hconcludes : d.Concludes f a)

/-- A reading takes what the unit has ready, in order. -/
theorem Brings.of_reading (hd : d.Short e) {periodic : List Periodic}
    (hhosts : Hosts e periodic pending n) (hholds : d.Holds start pending a?) {batch : List Frame}
    (hbatch : n.receive.result = .ok batch) : d.Brings e pending a? batch n.receive.world := by
  obtain ⟨hsorted, hframes, hdecides⟩ := hholds
  have haddress : e.address = d.target.address := congrArg Target.address hd.target
  have hresponses := hhosts.responses hd.discreet hsorted
    (fun x hx => haddress ▸ (hframes x hx).2) hbatch
  rw [haddress] at hresponses
  have hread := hhosts.receive
  have hperiodic : ∀ p ∈ periodic.map (·.past (n.clock + n.latency.nanos)),
      n.receive.world.clock < p.due :=
    List.forall_mem_map.mpr fun p _ => p.lt_due_past _
  cases pending with
  | nil =>
      refine .nothing hread (fun _ hx => absurd hx List.not_mem_nil) hperiodic
        fun f hf hresponse => ?_
      exact List.filter_eq_nil_iff.mp hresponses f hf (decide_eq_true hresponse)
  | cons x rest =>
      obtain ⟨hfirst, -⟩ := List.pairwise_cons.mp hsorted
      obtain hlater | hdue := Nat.lt_or_ge (n.clock + n.latency.nanos) x.1
      · have hall : ∀ y ∈ x :: rest, n.clock + n.latency.nanos < y.1 :=
          List.forall_mem_cons.mpr ⟨hlater, fun y hy => Nat.lt_of_lt_of_le hlater (hfirst y hy)⟩
        rw [filter_eq_self_of_later hall] at hread
        rw [filter_eq_nil_of_later hall] at hresponses
        refine .nothing hread hall hperiodic fun f hf hresponse => ?_
        exact List.filter_eq_nil_iff.mp hresponses f hf (decide_eq_true hresponse)
      · rw [List.filter_cons, if_neg (by rw [decide_eq_true hdue]; decide)] at hread
        rw [List.filter_cons, if_pos (decide_eq_true hdue)] at hresponses
        obtain ⟨a, ha, hconcludes⟩ : ∃ a, a? = some a ∧ d.Concludes x.2 a := by
          cases hdecides with
          | some hfirst => exact ⟨_, rfl, hfirst.2⟩
        have hbus : x.2.bus = d.bus := (hframes x List.mem_cons_self).1
        have hcomes : (batch.filter (·.bus = d.bus)).filter
            (·.address = responseAddress d.target.address 0x08) =
              x.2 :: ((rest.filter (·.1 ≤ n.clock + n.latency.nanos)).map (·.2)).filter
                (·.bus = d.bus) := by
          rw [List.filter_comm, hresponses, List.map_cons, List.filter_cons,
            if_pos (decide_eq_true hbus)]
        exact .decisive hread List.filter_sublist hperiodic ⟨_, hcomes⟩ ha hconcludes

/-- How far a short exchange that began at `start` has come: the tester waits and has taken nothing,
or it has come to its end, in time if there is an answer. -/
inductive ShortStage (d : Dialogue) (start : Instant) (pending : List Timed) (a? : Option Answer)
    (clock : Instant) : Conversation → List Periodic → List Timed → Prop
  | waiting {periodic : List Periodic} (hintime : clock < start + d.timeout.nanos)
      (hearly : a?.isSome → clock < start + Ecu.reaction.nanos) :
      ShortStage d start pending a? clock (d.waiting (start + d.timeout.nanos) .finished none)
        periodic pending
  | ended {s : Conversation} {periodic : List Periodic} {left : List Timed}
      (hover : s.isOver = true) (hanswer : s.answer? = a?.map (d.target, ·))
      (hleft : left.Sublist pending.tail) (hperiodic : ∀ p ∈ periodic, clock < p.due)
      (hprompt : a?.isSome → clock < start + d.timeout.nanos) :
      ShortStage d start pending a? clock s periodic left

/-- The time of an exchange that began at `start`, after which nothing more was sent. -/
structure Spent (d : Dialogue) (start : Instant) (sent : Array Timed) (n : Network) : Prop where
  latency : n.latency = d.latency
  sent : n.sent = sent
  began : start ≤ n.clock
  ended : n.clock < start + d.timeout.nanos + d.latency.nanos

/-- What the rounds of a short exchange keep, with the time that is left for it. -/
structure ShortRun (d : Dialogue) (e : Ecu) (start : Instant) (pending : List Timed)
    (a? : Option Answer) (sent : Array Timed) (left : Nat) (all : List Conversation)
    (n : Network) : Prop where
  spent : d.Spent start sent n
  left : start + d.timeout.nanos ≤ n.clock + left
  stage : ∃ s periodic outbox, all = [s] ∧ Hosts e periodic outbox n ∧
    d.ShortStage start pending a? n.clock s periodic outbox

/-- What a short exchange comes to: the answer that the unit had ready, or none, and a unit whose
frames have all been received as they became due. -/
structure Heard (d : Dialogue) (e : Ecu) (start : Instant) (pending : List Timed)
    (a? : Option Answer) (sent : Array Timed) (result : Except DiagnosticError Answers)
    (n : Network) : Prop where
  answers : ∃ answers, result = .ok answers ∧ answers.get? d.target = a?
  hosts : ∃ periodic left, Hosts e periodic left n ∧ left.Sublist pending.tail ∧
    ∀ p ∈ periodic, n.clock < p.due
  spent : d.Spent start sent n
  prompt : a?.isSome → n.clock < start + d.timeout.nanos

/-- Where a round is when the bus was read. -/
structure ShortReading (d : Dialogue) (e : Ecu) (start : Instant) (pending : List Timed)
    (a? : Option Answer) (sent : Array Timed) (left : Nat) (all : List Conversation)
    (batch : List Frame) (n : Network) : Prop where
  waiting : all = [d.waiting (start + d.timeout.nanos) .finished none]
  pos : 0 < left
  left : start + d.timeout.nanos ≤ n.clock + (left - 1)
  spent : d.Spent start sent n
  prompt : a?.isSome → n.clock < start + d.timeout.nanos
  brings : d.Brings e pending a? batch n

/-- An exchange that is over has come to its answer. -/
theorem ShortRun.heard {left : Nat} {all : List Conversation}
    (h : d.ShortRun e start pending a? sent left all n) (hover : all.all (·.isOver) = true) :
    d.Heard e start pending a? sent (.ok (Round.answers all)) n := by
  obtain ⟨hspent, -, s, periodic, outbox, rfl, hhosts, hstage⟩ := h
  cases hstage with
  | waiting => cases hover
  | ended _ hanswer hleft hperiodic hprompt =>
      refine ⟨⟨_, rfl, ?_⟩, ⟨periodic, outbox, hhosts, hleft, hperiodic⟩, hspent, hprompt⟩
      rw [Round.answers, List.filterMap_cons, hanswer]
      cases a? with
      | none => rfl
      | some a => exact (Answers.get?_insert ..).trans (if_pos rfl)

/-- A reading that begins before what the unit has ready is due ends before the deadline. -/
theorem ShortRun.read (hd : d.Short e) (hholds : d.Holds start pending a?) {left : Nat}
    {all : List Conversation} (h : d.ShortRun e start pending a? sent left all n)
    (hopen : ¬all.all (·.isOver) = true) {batch : List Frame}
    (hbatch : n.receive.result = .ok batch) :
    d.ShortReading e start pending a? sent left all batch n.receive.world := by
  obtain ⟨⟨hlatency, hsent, hbegan, hended⟩, hleft, s, periodic, outbox, rfl, hhosts, hstage⟩ := h
  cases hstage with
  | waiting hintime hearly =>
      have hpatient := hd.patient
      have hrunning := hd.running
      have hclock : n.receive.world.clock = n.clock + n.latency.nanos := rfl
      rw [pace] at hpatient
      rw [hlatency] at hclock
      refine ⟨rfl, ?_, ?_, ⟨hlatency, hsent, ?_, ?_⟩, fun ha => ?_,
        .of_reading hd hhosts hholds hbatch⟩
      case refine_5 =>
        have hearly := hearly ha
        simp only [Instant] at *
        omega
      all_goals
        simp only [Instant] at *
        omega
  | ended hover =>
      refine absurd ?_ hopen
      rw [List.all_cons, hover]
      rfl

/-- Past its deadline a conversation that has nothing to send is given up. -/
theorem tick_late {now deadline : Instant} (hnow : deadline ≤ now) :
    (d.waiting deadline .finished none).tick d.settings d.query now =
      ({ d.waiting deadline .finished none with status := .unanswered },
        [.note (.unanswered d.target)]) := by
  have htransmit : (d.waiting deadline .finished none).transmit d.settings d.query now =
      (d.waiting deadline .finished none, []) := rfl
  rw [Conversation.tick, htransmit]
  dsimp only
  rw [if_pos (show (d.waiting deadline .finished none).deadline ≤ now from hnow)]
  rfl

/-- A reading with a decisive frame ends the exchange; any other does so past the deadline, and
changes nothing before. -/
theorem ShortReading.play (hholds : d.Holds start pending a?) {left : Nat}
    {all : List Conversation} {batch : List Frame}
    (h : d.ShortReading e start pending a? sent left all batch n) :
    Meets False (· = n)
      (Output.perform Network.link (Round.play d.settings d.query n.clock batch all).2)
      fun result after => result = .ok () ∧ d.ShortRun e start pending a? sent (left - 1)
        (Round.play d.settings d.query n.clock batch all).1 after := by
  obtain ⟨rfl, -, hleft, hspent, hprompt, hbrings⟩ := h
  cases hbrings with
  | nothing hhosts hlater hperiodic huntold =>
      have huntold : ∀ f ∈ batch.filter (·.bus = d.query.bus),
          (d.waiting (start + d.timeout.nanos) .finished none).told? f = none :=
        fun f hf => told?_waiting (huntold f (List.mem_of_mem_filter hf))
      rw [play_singleton, Conversation.receiveAll_untold huntold]
      obtain hintime | hlate := Nat.lt_or_ge n.clock (start + d.timeout.nanos)
      · have hearly : a?.isSome → n.clock < start + Ecu.reaction.nanos := by
          intro ha
          obtain ⟨-, rfl⟩ | ⟨x, rest, -, rfl, -, hdue, -⟩ := hholds.nil_or_cons
          · cases ha
          · exact Nat.lt_of_lt_of_le (hlater x List.mem_cons_self) hdue
        rw [tick_waiting (fun _ => rfl) hintime]
        refine (perform_silent rfl).mono ?_
        rintro result after ⟨rfl, rfl⟩
        exact ⟨rfl, hspent, hleft, _, _, _, rfl, hhosts, .waiting hintime hearly⟩
      · obtain ⟨rfl, rfl⟩ | ⟨-, -, a, -, rfl, -⟩ := hholds.nil_or_cons
        · rw [tick_late hlate]
          refine (perform_silent rfl).mono ?_
          rintro result after ⟨rfl, rfl⟩
          exact ⟨rfl, hspent, hleft, _, _, _, rfl, hhosts,
            .ended rfl rfl (List.Sublist.refl _) hperiodic hprompt⟩
        · exact absurd (hprompt rfl) (Nat.not_lt.mpr hlate)
  | @decisive periodic left f a hhosts hsub hperiodic hfirst hanswer hconcludes =>
      obtain ⟨rest, hfirst⟩ := hfirst
      obtain ⟨s, events, hplay, hstatus, htarget⟩ := play_first hfirst hconcludes
      have hover : s.isOver = true := by rw [Conversation.isOver, hstatus]
      rw [hplay]
      refine (perform_silent (Output.frames_notes events)).mono ?_
      rintro result after ⟨rfl, rfl⟩
      refine ⟨rfl, hspent, hleft, s, _, _, rfl, hhosts, .ended hover ?_ hsub hperiodic hprompt⟩
      rw [Conversation.answer?, hstatus, htarget, hanswer]
      rfl

theorem step_short (hd : d.Short e) (hholds : d.Holds start pending a?) (left : Nat)
    (all : List Conversation) :
    Meets False (d.ShortRun e start pending a? sent left all)
      (step d.settings d.query Network.link all)
      (Continues (fun next n => ∃ less < left, d.ShortRun e start pending a? sent less next n)
        (d.Heard e start pending a? sent)) := by
  refine step_meets Network.link d.settings d.query
    (R := fun batch n => d.ShortReading e start pending a? sent left all batch n)
    (S := fun batch now n => now = n.clock ∧
      d.ShortReading e start pending a? sent left all batch n)
    (fun hover _ hn => hn.heard hover) (fun _ _ _ _ hfailed => by cases hfailed)
    (fun hopen _ _ hn hbatch => hn.read hd hholds hopen hbatch) (fun _ _ hn => ⟨rfl, hn⟩) ?played
  case played =>
    rintro batch now w ⟨rfl, hn⟩
    refine (hn.play hholds).mono ?_ w rfl
    rintro result after ⟨rfl, hafter⟩
    exact ⟨left - 1, Nat.sub_one_lt (Nat.ne_of_gt hn.pos), hafter⟩

/-- The start frame of the request opens the exchange. -/
theorem ShortRun.begin {before after : Network} {periodic : List Periodic}
    (hhosts : Hosts e periodic pending after) (hclock : after.clock = before.clock)
    (hlatency : after.latency = d.latency) (hwait : 0 < d.timeout.nanos) :
    d.ShortRun e before.clock pending a? after.sent d.timeout.nanos
      [d.waiting (before.clock + d.timeout.nanos) .finished none] after := by
  refine ⟨⟨hlatency, rfl, ?_, ?_⟩, ?_, _, _, _, rfl, hhosts, .waiting ?_ fun _ => ?_⟩ <;>
    rw [hclock]
  · rw [Nat.add_assoc]
    exact Nat.lt_add_of_pos_right (Nat.lt_of_lt_of_le hwait (Nat.le_add_right ..))
  · exact Nat.lt_add_of_pos_right hwait
  · exact Nat.lt_add_of_pos_right (by decide)

/-- A query of one short exchange comes to what the unit has in its outbox when it was asked,
whatever the unit transmits meanwhile. -/
theorem engine_short (hd : d.Short e) {before : Network} {e₀ : Ecu}
    {periodic₀ periodic : List Periodic} {outbox₀ : List Timed}
    (hbefore : Hosts e₀ periodic₀ outbox₀ before) (hlatency : before.latency = d.latency)
    (hrange : Instant.after? before.clock (d.settings.longestWait d.timeout) = some d.limit)
    (hasked : Hosts e periodic pending
      (Network.send [d.settings.startFrame d.bus d.target d.request] before).world)
    (hholds : d.Holds before.clock pending a?) {rounds : Nat} (hrounds : d.timeout.nanos < rounds) :
    Meets False (· = before) (engine d.settings Network.link rounds d.query)
      (d.Heard e before.clock pending a?
        (before.sent ++ [(before.clock, d.settings.startFrame d.bus d.target d.request)])) := by
  have hwait : 0 < d.timeout.nanos :=
    Nat.lt_of_lt_of_le hd.running (Nat.le_trans (Nat.le_add_right ..) hd.patient)
  have hsendable : isSendable d.query = true := by
    simp [isSendable, query, hd.request_pos, hd.request_le]
  have hbegin : (Conversation.begin d.settings d.query
      { request := d.request, expected := d.expected } [] before.clock d.limit d.target).1 =
      d.waiting (before.clock + d.timeout.nanos) .finished none := by
    rw [Conversation.begin, hd.offset, Sender.start_of_short hd.request_short]
    rfl
  obtain ⟨-, hclock, hlatency', hsent⟩ :=
    hbefore.sends (d.settings.startFrame d.bus d.target d.request)
  refine hbefore.engine_meets rfl rfl hsendable hrange (fun hzero => ?_) fun _ => ?_
  · rw [show d.timeout = .zero from hzero] at hwait
    exact absurd hwait (Nat.lt_irrefl _)
  · rw [hbegin]
    rintro w hw
    refine Meets.loop_of_measure (step_short hd hholds) hrounds _ w ?_
    rw [hw, ← hsent]
    exact .begin hasked hclock (hlatency'.trans hlatency) hwait

/-- What the outbox holds when the unit has put its response there. -/
theorem Brief.holds (hd : d.Brief e) (start : Instant) :
    d.Holds start [(start + Ecu.reaction.nanos,
      answer d.bus d.target (Sender.start (capacity d.target) d.response).1)]
      (some (.ok d.response)) :=
  ⟨List.pairwise_singleton .., List.forall_mem_singleton.mpr ⟨rfl, rfl⟩,
    .some ⟨Nat.le_refl _,
      concludes_accepted hd.response_pos hd.response_short hd.positive hd.accepted⟩⟩

/-- A unit that has the response ready and nothing else to say gives it. -/
theorem engine_brief (hd : d.Brief e) {before : Network} {periodic : List Periodic}
    (hhosts : Hosts e periodic [] before) (hlatency : before.latency = d.latency)
    (hrange : Instant.after? before.clock (d.settings.longestWait d.timeout) = some d.limit)
    {rounds : Nat} (hrounds : d.timeout.nanos < rounds) :
    Meets False (· = before) (engine d.settings Network.link rounds d.query)
      (d.Heard e before.clock [(before.clock + Ecu.reaction.nanos,
          answer d.bus d.target (Sender.start (capacity d.target) d.response).1)]
        (some (.ok d.response))
        (before.sent ++ [(before.clock, d.settings.startFrame d.bus d.target d.request)])) := by
  have hasked := hhosts.asked d.settings (by rw [hd.target]; exact hd.request_short)
    (by rw [hd.target]; exact hd.response_short) hd.heeds hd.uncontrolled hd.known
  rw [hd.bus, hd.target] at hasked
  exact engine_short hd.toShort hhosts hlatency hrange hasked (hd.holds _) hrounds

end Dialogue

end Simulation

end EcuQuiet
