import EcuQuiet.Proofs.IsoTp.Frames
import EcuQuiet.Proofs.IsoTp.Queries

/-!
# Conversations step by step

A conversation goes on by steps: a frame of the queried bus is shown to it, or it looks at the
clock. `Hears` lists what the content of a frame can do to a conversation, way by way, and
`tick_open` says what the clock does; what holds of every conversation is derived from these two.
-/

namespace EcuQuiet.IsoTp

/-! ### Frames among outputs -/

namespace Output

@[simp]
theorem frames_nil : frames [] = [] := rfl

@[simp]
theorem frames_note (event : Note) (rest : List Output) :
    frames (.note event :: rest) = frames rest := rfl

@[simp]
theorem frames_send (f : Frame) (rest : List Output) :
    frames (.send f :: rest) = f :: frames rest := rfl

@[simp]
theorem frames_append (first rest : List Output) :
    frames (first ++ rest) = frames first ++ frames rest := List.filterMap_append

@[simp]
theorem frames_notes (events : List Note) : frames (events.map .note) = [] := by
  induction events with
  | nil => rfl
  | cons event events ih => exact ih

end Output

/-- A conversation begins with the start frame of its first request. -/
theorem begin_outputs (c : Settings) (q : Query) (t : Target) (e : Exchange)
    (later : List Exchange) (start limit : Instant) :
    ([t].map (Conversation.begin c q e later start limit)).flatMap (·.2) =
      [.note (.requesting t e.request), .send (c.startFrame q.bus t e.request)] := rfl

theorem frames_transmitted (c : Settings) (q : Query) (t : Target)
    (frames : List (Bytes × Sender)) :
    Output.frames (frames.flatMap fun (frame, after) =>
        Conversation.consecutive c q t frame after) =
      frames.map fun (content, _) => c.frame q.bus t content := by
  induction frames with
  | nil => rfl
  | cons frame rest ih =>
      obtain ⟨content, sender⟩ := frame
      rw [List.flatMap_cons, Output.frames_append, ih]
      cases sender <;> rfl

/-! ### Content that is of no use -/

/-- Whether a sender waits for a flow control. -/
def Sender.awaits : Sender → Bool
  | blocked _ _ => true
  | _ => false

/-- A flow control is unexpected exactly when none is waited for. -/
theorem Sender.permit_eq_unexpected_iff {s : Sender} {content : Bytes} {now : Instant} :
    s.permit content now = .unexpected ↔ s.awaits = false := by
  cases s with
  | finished | sending => simp [permit, awaits]
  | blocked rest sequence =>
      simp only [permit, awaits, Bool.true_eq_false, iff_false]
      split
      · split <;> simp
      · simp

/-- Whether content was no part of a message, and none that tells the fate of one. -/
def Reception.isIdle : Reception → Bool
  | nothing | unknown | stray | flowControl => true
  | _ => false

namespace Receiver

variable {r : Receiver} {content : Bytes}

/-- Content that is empty, of an unknown kind, or a consecutive frame of no message. -/
def Passes (r : Receiver) (content : Bytes) : Prop :=
  ∀ head ∈ content.head?, 4 ≤ highHalf head ∨ highHalf head = 2 ∧ r.assembly = none

theorem isIdle_single (r : Receiver) (frame : Bytes) : (r.single frame).2.isIdle = false := by
  unfold single
  dsimp only
  rw [apply_ite Prod.snd, apply_ite Reception.isIdle]
  exact ite_self _

theorem isIdle_first (r : Receiver) (frame : Bytes) : (r.first frame).2.isIdle = false := by
  unfold first
  split
  · dsimp only
    split <;> rfl
  · rfl

theorem consecutive_of_none (h : r.assembly = none) (frame : Bytes) :
    r.consecutive frame = (r, .stray) := by
  unfold consecutive
  rw [h]

theorem isIdle_consecutive {a : Assembly} (ha : r.assembly = some a) (head : UInt8)
    (rest : Bytes) : (r.consecutive (head :: rest)).2.isIdle = false := by
  unfold consecutive
  rw [ha]
  dsimp only
  split
  · rfl
  · split
    · rfl
    · dsimp only
      split <;> rfl

/-- Content that passes leaves no trace in a receiver. -/
theorem feed_of_passes (h : r.Passes content) :
    (r.feed content).1 = r ∧ (r.feed content).2.isIdle ∧
      (r.feed content).2 ≠ .flowControl := by
  unfold feed
  cases content with
  | nil => exact ⟨rfl, rfl, nofun⟩
  | cons head rest =>
      dsimp only
      obtain hkind | ⟨hkind, hnone⟩ := h head rfl
      · split
        · omega
        · omega
        · omega
        · omega
        · exact ⟨rfl, rfl, nofun⟩
      · rw [hkind, consecutive_of_none hnone]
        exact ⟨rfl, rfl, nofun⟩

theorem feed_flowControl {head : UInt8} (rest : Bytes) (h : highHalf head = 3) :
    r.feed (head :: rest) = (r, .flowControl) := by
  simp only [feed, h]

/-- Of all content, only what passes and flow controls are idle, and these leave no trace. -/
theorem feed_of_isIdle (h : (r.feed content).2.isIdle) :
    (r.feed content).1 = r ∧ (r.Passes content ∨
      (r.feed content).2 = .flowControl ∧ ∀ head ∈ content.head?, highHalf head = 3) := by
  cases content with
  | nil => exact ⟨rfl, .inl nofun⟩
  | cons head rest =>
      unfold feed at h ⊢
      dsimp only at h ⊢
      split at h
      next => rw [isIdle_single] at h; cases h
      next => rw [isIdle_first] at h; cases h
      next hkind =>
        cases ha : r.assembly with
        | none =>
            rw [consecutive_of_none ha]
            refine ⟨rfl, .inl fun byte hbyte => ?_⟩
            cases hbyte
            exact .inr ⟨hkind, ha⟩
        | some a => rw [isIdle_consecutive ha] at h; cases h
      next hkind =>
        refine ⟨rfl, .inr ⟨rfl, fun byte hbyte => ?_⟩⟩
        cases hbyte
        exact hkind
      next hsingle hfirst hconsecutive hflow =>
        refine ⟨rfl, .inl fun byte hbyte => .inl ?_⟩
        cases hbyte
        have h0 : highHalf head ≠ 0 := hsingle
        have h1 : highHalf head ≠ 1 := hfirst
        have h2 : highHalf head ≠ 2 := hconsecutive
        have h3 : highHalf head ≠ 3 := hflow
        omega

end Receiver

/-! ### What a conversation hears -/

/-- Whether a response asks for more time. -/
def isPending (response : Bytes) : Bool :=
  response.head? = some Uds.negativeResponse &&
    (Uds.NegativeResponse.ofByte (response.getD 2 0)).isPending

theorem isPending_of_positive {response : Bytes}
    (hpositive : response.head? ≠ some Uds.negativeResponse) : isPending response = false := by
  rw [isPending, decide_eq_false hpositive, Bool.false_and]

namespace Conversation

/-- Content that leaves a conversation as it is: what passes its receiver, and a flow control that
its sender does not wait for. -/
def Ignores (s : Conversation) (content : Bytes) : Prop :=
  ∀ head ∈ content.head?, 4 ≤ highHalf head ∨ highHalf head = 2 ∧ s.receiver.assembly = none ∨
    highHalf head = 3 ∧ s.sender.awaits = false

/-- The ways in which a conversation takes in the content of a frame, with what it is afterwards and
the frames it sends. -/
inductive Hears (c : Settings) (q : Query) (now : Instant) (content : Bytes) (s : Conversation) :
    Conversation → List Frame → Prop
  | ignored (hignores : s.Ignores content) : Hears c q now content s s []
  /-- The next part of a response has come. -/
  | part {receiver : Receiver} (hfeed : s.receiver.feed content = (receiver, .progress)) :
      Hears c q now content s ({ s with receiver }.extend now q.timeout) []
  /-- It has come, and our flow control is due. -/
  | due {receiver : Receiver} (hfeed : s.receiver.feed content = (receiver, .flowControlDue)) :
      Hears c q now content s ({ s with receiver }.extend now q.timeout)
        [c.frame q.bus s.target c.flowControl]
  | granted {sender : Sender} (hfeed : s.receiver.feed content = (s.receiver, .flowControl))
      (hpermit : s.sender.permit content now = .granted sender) :
      Hears c q now content s { s.extend now q.timeout with sender } []
  | held (hfeed : s.receiver.feed content = (s.receiver, .flowControl))
      (hpermit : s.sender.permit content now = .wait) :
      Hears c q now content s (s.extend now q.timeout) []
  | halted {reason : DiagnosticError}
      (hfeed : s.receiver.feed content = (s.receiver, .flowControl))
      (hpermit : s.sender.permit content now = .refused reason) :
      Hears c q now content s (s.conclude (.error reason)) []
  | faulty {receiver : Receiver} {fault : FrameFault}
      (hfeed : s.receiver.feed content = (receiver, .faulty fault)) :
      Hears c q now content s ({ s with receiver }.conclude (.error fault.error)) []
  /-- A response has come that asks for more time. -/
  | pending {receiver : Receiver} {response : Bytes}
      (hfeed : s.receiver.feed content = (receiver, .completed response))
      (hpending : isPending response) :
      Hears c q now content s ({ s with receiver }.extend now c.pendingWait) []
  | refused {receiver : Receiver} {response : Bytes}
      (hfeed : s.receiver.feed content = (receiver, .completed response))
      (hnegative : response.head? = some Uds.negativeResponse)
      (hpending : isPending response = false) :
      Hears c q now content s ({ s with receiver }.conclude
        (.error (.refused (response.getD 2 0) (some (Uds.describe (response.getD 2 0)))))) []
  | unacceptable {receiver : Receiver} {response : Bytes}
      (hfeed : s.receiver.feed content = (receiver, .completed response))
      (hpositive : response.head? ≠ some Uds.negativeResponse)
      (hrejects : s.current.accepts response = false) :
      Hears c q now content s ({ s with receiver }.conclude (.error .wrongMessage)) []
  /-- The response to the last exchange has come. -/
  | answered {receiver : Receiver} {response : Bytes}
      (hfeed : s.receiver.feed content = (receiver, .completed response))
      (hpositive : response.head? ≠ some Uds.negativeResponse)
      (haccepts : s.current.accepts response) (hlater : s.later = []) :
      Hears c q now content s ({ s with receiver }.conclude (.ok response)) []
  /-- The response to an exchange has come, and the next one begins. -/
  | next {receiver : Receiver} {response : Bytes} {next : Exchange} {later : List Exchange}
      (hfeed : s.receiver.feed content = (receiver, .completed response))
      (hpositive : response.head? ≠ some Uds.negativeResponse)
      (haccepts : s.current.accepts response) (hlater : s.later = next :: later) :
      Hears c q now content s
        { { s with receiver }.extend now q.timeout with
          current := next
          later
          sender := (Sender.start (capacity s.target) next.request).2 }
        [c.startFrame q.bus s.target next.request]

variable {c : Settings} {q : Query} {now : Instant} {s : Conversation}

/-- Content is heard in one of these ways. -/
theorem hears (c : Settings) (q : Query) (now : Instant) (content : Bytes) (s : Conversation) :
    Hears c q now content s (s.hear c q now content).1
      (Output.frames (s.hear c q now content).2) := by
  have hidle : ∀ receiver reception, s.receiver.feed content = (receiver, reception) →
      reception.isIdle → receiver = s.receiver ∧ (s.receiver.Passes content ∨
        reception = .flowControl ∧ ∀ head ∈ content.head?, highHalf head = 3) := by
    intro receiver reception hfeed h
    have hfed := @Receiver.feed_of_isIdle s.receiver content
    rw [hfeed] at hfed
    exact hfed h
  have hpasses : s.receiver.Passes content → s.Ignores content :=
    fun h head hhead => (h head hhead).imp_right .inl
  rw [hear]
  cases hfeed : s.receiver.feed content with
  | mk receiver reception =>
      dsimp only
      cases reception with
      | nothing | unknown | stray =>
          obtain ⟨rfl, h | ⟨h, -⟩⟩ := hidle _ _ hfeed rfl
          · exact .ignored (hpasses h)
          · cases h
      | flowControl =>
          obtain ⟨rfl, h | ⟨-, hkind⟩⟩ := hidle _ _ hfeed rfl
          · exact absurd (congrArg Prod.snd hfeed) (Receiver.feed_of_passes h).2.2
          dsimp only [permit]
          cases hpermit : s.sender.permit content now with
          | unexpected =>
              have hunawaited := Sender.permit_eq_unexpected_iff.mp hpermit
              exact .ignored fun head hhead => .inr (.inr ⟨hkind head hhead, hunawaited⟩)
          | granted sender => exact .granted hfeed hpermit
          | wait => exact .held hfeed hpermit
          | refused reason => exact .halted hfeed hpermit
      | progress => exact .part hfeed
      | flowControlDue => exact .due hfeed
      | faulty fault =>
          dsimp only
          rw [Output.frames_append, Output.frames_notes]
          exact .faulty hfeed
      | completed response =>
          dsimp only [respond]
          by_cases hnegative : response.head? = some Uds.negativeResponse
          · rw [if_pos hnegative]
            by_cases hcode : (Uds.NegativeResponse.ofByte (response.getD 2 0)).isPending
            · rw [if_pos hcode]
              exact .pending hfeed (by rw [isPending, hnegative, hcode]; rfl)
            · rw [if_neg hcode]
              have hended := Bool.eq_false_iff.mpr hcode
              exact .refused hfeed hnegative (by rw [isPending, hended, Bool.and_false])
          · rw [if_neg hnegative]
            by_cases haccepts : s.current.accepts response
            · rw [if_pos haccepts]
              split
              next hlater => exact .answered hfeed hnegative haccepts hlater
              next hlater => exact .next hfeed hnegative haccepts hlater
            · rw [if_neg haccepts]
              exact .unacceptable hfeed hnegative (Bool.eq_false_iff.mpr haccepts)

/-- Content that is ignored passes the receiver, or it is a flow control that is not waited for. -/
theorem passes_or_unawaited {content : Bytes} (h : s.Ignores content) :
    s.receiver.Passes content ∨ ∃ head rest, content = head :: rest ∧
      highHalf head = 3 ∧ s.sender.awaits = false := by
  cases content with
  | nil => exact .inl nofun
  | cons head rest =>
      obtain hkind | hkind | hflow := h head rfl
      · exact .inl fun byte hbyte => by cases hbyte; exact .inl hkind
      · exact .inl fun byte hbyte => by cases hbyte; exact .inr hkind
      · exact .inr ⟨head, rest, rfl, hflow⟩

/-- Content that is ignored does nothing that a frame would show. -/
theorem hear_of_ignores {content : Bytes} (h : s.Ignores content) :
    (s.hear c q now content).1 = s ∧ Output.frames (s.hear c q now content).2 = [] := by
  rw [hear]
  obtain h | ⟨head, rest, rfl, hkind, hunawaited⟩ := passes_or_unawaited h
  · obtain ⟨hreceiver, hidle, hother⟩ := Receiver.feed_of_passes h
    cases hfeed : s.receiver.feed content with
    | mk receiver reception =>
        rw [hfeed] at hreceiver hidle hother
        cases hreceiver
        cases reception with
        | nothing | unknown | stray => exact ⟨rfl, rfl⟩
        | flowControl => exact absurd rfl hother
        | _ => cases hidle
  · rw [Receiver.feed_flowControl rest hkind]
    dsimp only [permit]
    rw [Sender.permit_eq_unexpected_iff.mpr hunawaited]
    exact ⟨rfl, rfl⟩

/-! ### What time does to a conversation -/

theorem isOver_eq_false_iff : s.isOver = false ↔ s.status = .waiting := by
  unfold isOver
  cases s.status <;> simp

/-! Waiting anew moves the deadline and nothing else. -/

@[simp]
theorem target_extend (s : Conversation) (now : Instant) (wait : Span) :
    (s.extend now wait).target = s.target := by
  simp only [extend]

@[simp]
theorem current_extend (s : Conversation) (now : Instant) (wait : Span) :
    (s.extend now wait).current = s.current := by
  simp only [extend]

@[simp]
theorem later_extend (s : Conversation) (now : Instant) (wait : Span) :
    (s.extend now wait).later = s.later := by
  simp only [extend]

@[simp]
theorem limit_extend (s : Conversation) (now : Instant) (wait : Span) :
    (s.extend now wait).limit = s.limit := by
  simp only [extend]

@[simp]
theorem sender_extend (s : Conversation) (now : Instant) (wait : Span) :
    (s.extend now wait).sender = s.sender := by
  simp only [extend]

@[simp]
theorem status_extend (s : Conversation) (now : Instant) (wait : Span) :
    (s.extend now wait).status = s.status := by
  simp only [extend]

/-- A wait does not depend on what has been received. -/
@[simp]
theorem extend_receiver (s : Conversation) (receiver : Receiver) (now : Instant) (wait : Span) :
    { s with receiver }.extend now wait = { s.extend now wait with receiver } := by
  simp only [extend]

/-- A wait ends where it would, or at the limit. -/
theorem deadline_extend (hlimit : s.limit ≤ Instant.latest) (now : Instant) (wait : Span) :
    (s.extend now wait).deadline = min (now + wait.nanos) s.limit := by
  unfold extend
  cases hafter : Instant.after? now wait with
  | some deadline =>
      obtain ⟨rfl, -⟩ := Instant.after?_eq_some_iff.mp hafter
      rfl
  | none =>
      -- a wait that no clock could show goes on beyond every limit
      have hbeyond : ¬ now + wait.nanos ≤ Instant.latest := fun h => by
        rw [Instant.after?, if_pos h] at hafter
        cases hafter
      have hless : s.limit < now + wait.nanos :=
        Nat.lt_of_le_of_lt hlimit (Nat.lt_of_not_le hbeyond)
      exact (Nat.min_eq_right (Nat.le_of_lt hless)).symm

theorem tick_over (hover : s.isOver = true) : s.tick c q now = (s, []) := by
  rw [tick, if_pos hover]

/-- The clock lets a conversation that waits send what it may, and then ends it if it is late. -/
theorem tick_open (hopen : s.isOver = false) :
    (s.tick c q now).1 = { s with
      sender := ((s.sender.burst (capacity s.target) now).getLast?.map (·.2)).getD s.sender
      status := if s.deadline ≤ now then .unanswered else .waiting } ∧
    Output.frames (s.tick c q now).2 =
      (s.sender.burst (capacity s.target) now).map fun (content, _) =>
        c.frame q.bus s.target content := by
  have hstatus := isOver_eq_false_iff.mp hopen
  have hframes := frames_transmitted c q s.target (s.sender.burst (capacity s.target) now)
  rw [tick, hopen, if_neg Bool.false_ne_true]
  dsimp only [transmit]
  split
  · refine ⟨rfl, ?_⟩
    rw [Output.frames_append, hframes]
    exact List.append_nil _
  · exact ⟨by rw [hstatus], hframes⟩

/-! ### Steps -/

/-- The content that a frame brings to a conversation that waits for its target. -/
def told? (s : Conversation) (f : Frame) : Option Bytes :=
  if !s.isOver && s.address = f.address then s.target.content? f.data else none

theorem receive_eq (f : Frame) :
    s.receive c q now f = (s.told? f).elim (s, []) (s.hear c q now) := by
  rw [receive, told?]
  split
  · cases s.target.content? f.data <;> rfl
  · rfl

theorem told?_of_over (hover : s.isOver = true) (f : Frame) : s.told? f = none := by
  rw [told?, hover, Bool.not_true, Bool.false_and, if_neg Bool.false_ne_true]

/-- The response that a frame completes for a conversation. -/
def completes? (s : Conversation) (f : Frame) : Option Bytes :=
  (s.told? f).bind fun content =>
    match (s.receiver.feed content).2 with
    | .completed response => some response
    | _ => none

end Conversation

/-- What takes a conversation further: a frame of the queried bus, or a look at the clock. -/
inductive Event
  | frame (f : Frame)
  | clock

/-- One step of a conversation. -/
structure Step where
  time : Instant
  event : Event
  before : Conversation
  after : Conversation
  outputs : List Output

namespace Step

/-- The frames that are sent in a step. -/
def frames (step : Step) : List Frame := Output.frames step.outputs

/-- The response that has come whole with a step. -/
def response? (step : Step) : Option Bytes :=
  match step.event with
  | .frame f => step.before.completes? f
  | .clock => none

end Step

namespace Conversation

variable (c : Settings) (q : Query)

/-- The step that an event makes of a conversation. -/
def step (now : Instant) (event : Event) (s : Conversation) : Step :=
  let (after, outputs) :=
    match event with
    | .frame f => s.receive c q now f
    | .clock => s.tick c q now
  { time := now, event, before := s, after, outputs }

/-- The steps that events make of a conversation, one after the other. -/
def steps : List (Instant × Event) → Conversation → List Step
  | [], _ => []
  | (now, event) :: rest, s => s.step c q now event :: steps rest (s.step c q now event).after

/-- The conversation after some events. -/
def through (events : List (Instant × Event)) (s : Conversation) : Conversation :=
  events.foldl (fun s (now, event) => (s.step c q now event).after) s

variable {c q} {s : Conversation}

/-- A frame that tells a conversation nothing leaves it as it is; any other is heard. -/
theorem step_frame (now : Instant) (f : Frame) (s : Conversation) :
    (s.told? f = none ∧ s.step c q now (.frame f) =
        { time := now, event := .frame f, before := s, after := s, outputs := [] }) ∨
      ∃ content, s.told? f = some content ∧
        Hears c q now content s (s.step c q now (.frame f)).after
          (s.step c q now (.frame f)).frames := by
  cases htold : s.told? f with
  | none =>
      refine .inl ⟨rfl, ?_⟩
      rw [step, receive_eq, htold]
      rfl
  | some content =>
      refine .inr ⟨content, rfl, ?_⟩
      rw [step, receive_eq, htold]
      exact hears c q now content s

/-- A frame completes a response if its content does. -/
theorem completes?_of_feed {f : Frame} {content response : Bytes} {receiver : Receiver}
    (htold : s.told? f = some content)
    (hfeed : s.receiver.feed content = (receiver, .completed response)) :
    s.completes? f = some response := by
  rw [completes?, htold, Option.bind_some, hfeed]

theorem feed_of_completes? {f : Frame} {content response : Bytes}
    (htold : s.told? f = some content) (h : s.completes? f = some response) :
    (s.receiver.feed content).2 = .completed response := by
  rw [completes?, htold, Option.bind_some] at h
  split at h
  next hfeed => rw [hfeed, Option.some.inj h]
  next => cases h

theorem through_cons (event : Instant × Event) (rest : List (Instant × Event)) (s : Conversation) :
    s.through c q (event :: rest) = (s.step c q event.1 event.2).after.through c q rest := rfl

theorem through_append (first rest : List (Instant × Event)) (s : Conversation) :
    s.through c q (first ++ rest) = (s.through c q first).through c q rest := List.foldl_append

/-- Nothing takes a conversation further that is over. -/
theorem step_over (hover : s.isOver = true) (now : Instant) (event : Event) :
    s.step c q now event = { time := now, event, before := s, after := s, outputs := [] } := by
  cases event with
  | frame f => rw [step, receive_eq, told?_of_over hover]; rfl
  | clock => rw [step, tick_over hover]

theorem through_over (hover : s.isOver = true) (events : List (Instant × Event)) :
    s.through c q events = s := by
  induction events with
  | nil => rfl
  | cons event rest ih =>
      rw [through_cons, step_over hover]
      exact ih

theorem steps_over (hover : s.isOver = true) (events : List (Instant × Event)) :
    ∀ step ∈ s.steps c q events, step.before = s ∧ step.after = s ∧ step.outputs = [] := by
  induction events with
  | nil => exact fun _ h => absurd h List.not_mem_nil
  | cons event rest ih =>
      obtain ⟨now, event⟩ := event
      rw [steps, step_over hover]
      exact List.forall_mem_cons.mpr ⟨⟨rfl, rfl, rfl⟩, ih⟩

/-- A conversation keeps its target. -/
theorem Hears.target {now : Instant} {content : Bytes} {after : Conversation}
    {frames : List Frame}
    (h : Hears c q now content s after frames) : after.target = s.target := by
  cases h <;> simp [conclude]

theorem target_step (now : Instant) (event : Event) (s : Conversation) :
    (s.step c q now event).after.target = s.target := by
  cases event with
  | frame f =>
      obtain ⟨-, hstep⟩ | ⟨content, -, hheard⟩ := s.step_frame (c := c) (q := q) now f
      · rw [hstep]
      · exact hheard.target
  | clock =>
      cases hover : s.isOver with
      | true => rw [step_over hover]
      | false =>
          have htick : (s.step c q now .clock).after = _ :=
            (tick_open (c := c) (q := q) hover).1
          rw [htick]

theorem target_through (events : List (Instant × Event)) (s : Conversation) :
    (s.through c q events).target = s.target := by
  induction events generalizing s with
  | nil => rfl
  | cons event rest ih => rw [through_cons, ih, target_step]

end Conversation

end EcuQuiet.IsoTp
