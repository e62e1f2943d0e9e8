import EcuQuiet.Proofs.Answers
import EcuQuiet.Proofs.IsoTp.Indexed
import EcuQuiet.Proofs.IsoTp.Steps
import EcuQuiet.Scripted.Playback
import Mathlib.Data.List.Forall2

/-!
# Queries that never fail a check

The engine with positions in place of rests: a session holds the number of the exchange under way, a
request with the place that sending has reached, and a response with its declared size. All indices,
differences, slices and sums are checked, and a query in which a check fails comes to nothing. No
query does: over every link, whatever it delivers, the engine with positions is the engine of
conversations.
-/

namespace EcuQuiet.IsoTp.Indexed

/-! ### Sessions -/

/-- One target of a query. -/
structure Session where
  target : Target
  /-- The address the target answers on. -/
  address : UInt32
  /-- The number of the exchange under way. -/
  step : Nat := 0
  /-- When the target is given up. -/
  deadline : Instant
  /-- Past this no deadline moves. -/
  limit : Instant
  sending : Transmission
  receiving : Buffer
  status : Status := .waiting

namespace Session

/-- Whether nothing more can change. -/
def isOver (x : Session) : Bool :=
  match x.status with
  | .waiting => false
  | _ => true

/-- The answer that a session came to, if it came to one. -/
def answer? (x : Session) : Option (Target × Answer) :=
  match x.status with
  | .answered a => some (x.target, a)
  | _ => none

/-- The session with its last word. -/
def conclude (x : Session) (a : Answer) : Session := { x with status := .answered a }

/-- Waits anew from `now`, but never past the limit. -/
def extend (x : Session) (now : Instant) (wait : Span) : Session :=
  { x with deadline := (Instant.after? now wait).elim x.limit (min · x.limit) }

variable (c : Settings) (q : Query)

/-- The session in which a target is first asked. The sum of the start and the timeout is
checked. -/
def begin (first : Exchange) (now limit : Instant) (t : Target) :
    Option (Session × List Output) := do
  let (sending, frame) ←
    Transmission.start (capacity t) { message := first.request, since := now }
  let deadline ← Instant.after? now q.timeout
  return ({
      target := t
      address := responseAddress t.address c.responseOffset
      deadline
      limit
      sending
      receiving := { blockSize := c.blockSize } },
    [.note (.requesting t first.request), .send (c.frame q.bus t frame)])

/-- Takes in a whole response. The exchange under way is looked up by its number. -/
def respond (now : Instant) (response : Bytes) (x : Session) : Option (Session × List Output) := do
  let heard : Output := .note (.responded x.target response)
  if response.head? = some Uds.negativeResponse then
    let code := response.getD 2 0
    if (Uds.NegativeResponse.ofByte code).isPending then
      return (x.extend now c.pendingWait, [heard, .note (.busy x.target)])
    else
      return (x.conclude (.error (.refused code (some (Uds.describe code)))),
        [heard, .note (.refused x.target code)])
  else
    let current ← q.exchanges[x.step]?
    if current.accepts response then
      match q.exchanges[x.step + 1]? with
      | none => return ({ x.conclude (.ok response) with step := x.step + 1 }, [heard])
      | some next =>
        let (sending, frame) ←
          Transmission.start (capacity x.target) { message := next.request, since := now }
        return ({ x.extend now q.timeout with step := x.step + 1, sending },
          [heard, .note (.requesting x.target next.request),
            .send (c.frame q.bus x.target frame)])
    else
      return (x.conclude (.error .wrongMessage), [heard, .note (.unacceptable x.target response)])

/-- Takes in a flow control. -/
def permit (now : Instant) (content : Bytes) (x : Session) : Option (Session × List Output) := do
  let (sending, verdict) ← x.sending.permit content now
  let x := { x with sending }
  match verdict with
  | .unexpected => return (x, [.note (.unexpectedFlowControl content)])
  | .granted => return (x.extend now q.timeout, [])
  | .wait => return (x.extend now q.timeout, [.note .toldToWait])
  | .refused reason =>
    return (x.conclude (.error reason), [.note (.flowControlRefused x.target reason)])

/-- Takes in the content of a frame from the target. -/
def hear (now : Instant) (content : Bytes) (x : Session) : Option (Session × List Output) := do
  let (receiving, reception) ← x.receiving.feed content
  let x := { x with receiving }
  match reception with
  | .nothing => return (x, [])
  | .unknown => return (x, [.note (.unknownFrame content)])
  | .stray => return (x, [.note (.strayConsecutive content)])
  | .flowControl => x.permit q now content
  | .progress => return (x.extend now q.timeout, [])
  | .flowControlDue =>
    return (x.extend now q.timeout, [.send (c.frame q.bus x.target c.flowControl)])
  | .completed response => x.respond c q now response
  | .faulty fault =>
    return (x.conclude (.error fault.error),
      fault.notes.map .note ++ [.note (.invalidFrame x.target content)])

/-- Takes in a frame of the queried bus. -/
def receive (now : Instant) (f : Frame) (x : Session) : Option (Session × List Output) :=
  if !x.isOver && x.address = f.address then
    match x.target.content? f.data with
    | none => some (x, [])
    | some content => x.hear c q now content
  else some (x, [])

/-- What sending one consecutive frame takes. -/
def consecutive (t : Target) (frame : Bytes) (after : Transmission) : List Output :=
  if after.sending = false then [.note .transmitted, .send (c.frame q.bus t frame)]
  else if after.held then [.note .awaitingFlowControl, .send (c.frame q.bus t frame)]
  else [.send (c.frame q.bus t frame)]

/-- Sends all consecutive frames that may go out now. A frame takes at least one byte of what is
left. -/
def transmit (now : Instant) (x : Session) : Option (Session × List Output) := do
  let left ← minus? x.sending.message.length x.sending.position
  let frames ← x.sending.burstUpTo (capacity x.target) now left
  let sending := (frames.getLast?.map (·.2)).getD x.sending
  return ({ x with sending },
    frames.flatMap fun (frame, after) => consecutive c q x.target frame after)

/-- What the clock alone brings about. -/
def tick (now : Instant) (x : Session) : Option (Session × List Output) :=
  if x.isOver then some (x, [])
  else do
    let (x, sent) ← x.transmit c q now
    if x.deadline ≤ now then
      return ({ x with status := .unanswered }, sent ++ [.note (.unanswered x.target)])
    else return (x, sent)

end Session

/-! ### Rounds and queries -/

/-- Applies a step to every item and collects what they want done. -/
def each {α β : Type} (step : α → Option (β × List Output)) : List α → Option (List β × List Output)
  | [] => some ([], [])
  | a :: rest => do
    let (b, first) ← step a
    let (all, further) ← each step rest
    return (b :: all, first ++ further)

section Queries

variable {σ : Type} (c : Settings) (q : Query)

/-- Shows frames to every session, one frame after the other. -/
def deliver (now : Instant) : List Frame → List Session → Option (List Session × List Output)
  | [], all => some (all, [])
  | f :: rest, all => do
    let (all, first) ← each (Session.receive c q now f) all
    let (all, further) ← deliver now rest all
    return (all, first ++ further)

/-- One round: the batch, as far as it is of the queried bus, then the clock. -/
def play (now : Instant) (batch : List Frame) (all : List Session) :
    Option (List Session × List Output) := do
  let (all, heard) ← deliver c q now (batch.filter (·.bus = q.bus)) all
  let (all, sent) ← each (Session.tick c q now) all
  return (all, heard ++ sent)

/-- Goes one round, or ends when all sessions are over; a check that fails ends it with nothing. -/
def step (link : Link σ) (all : List Session) :
    Run σ (List Session ⊕ Option Answers) := do
  if all.all (·.isOver) then
    return .inr (some (Answers.ofList (all.filterMap (·.answer?))))
  else
    let batch ← link.batch
    let now ← link.clock
    match play c q now batch all with
    | none => return .inr none
    | some (all, outputs) =>
      Output.perform link outputs
      return .inl all

/-- Carries out queries by positions; nothing comes of one in which a check fails. -/
def engine (link : Link σ) (rounds : Nat) : Run σ (Option Answers) := do
  match q.exchanges with
  | [] => Run.fail .invalidParameter
  | first :: _ =>
    if !isSendable q then Run.fail .invalidParameter
    else
      let start ← link.clock
      match Instant.after? start (c.longestWait q.timeout) with
      | none =>
        Run.note (.timeoutOutOfRange q.timeout)
        Run.fail .invalidParameter
      | some limit =>
        match each (Session.begin c q first start limit) q.targets with
        | none => return none
        | some (all, outputs) =>
          Output.perform link outputs
          if q.timeout = .zero then
            Run.note .notWaiting
            return some .empty
          else
            Run.loop (step c q link) rounds all

end Queries

/-! ### Sessions and conversations -/

/-- A session stands for a conversation: what is kept by positions is what is left over. While the
target is waited for, the number of the exchange under way is in range. -/
structure Session.Stands (q : Query) (x : Session) (s : Conversation) : Prop where
  target : x.target = s.target
  address : x.address = s.address
  deadline : x.deadline = s.deadline
  limit : x.limit = s.limit
  status : x.status = s.status
  sending : x.sending.Sends s.sender
  receiving : x.receiving.Holds s.receiver
  exchanges : s.status = .waiting → q.exchanges.drop x.step = s.current :: s.later

namespace Session

variable {c : Settings} {q : Query} {x : Session} {s : Conversation}

theorem Stands.extend (h : x.Stands q s) (now : Instant) (wait : Span) :
    (x.extend now wait).Stands q (s.extend now wait) := by
  refine { h with deadline := ?_ }
  rw [Session.extend, Conversation.extend, h.limit]

theorem Stands.conclude (h : x.Stands q s) (a : Answer) :
    (x.conclude a).Stands q (s.conclude a) := { h with status := rfl, exchanges := nofun }

theorem Stands.isOver (h : x.Stands q s) : x.isOver = s.isOver := by
  cases hstatus : s.status <;> simp [Session.isOver, Conversation.isOver, h.status, hstatus]

/-- A query that may last as long as it can may last as long as its timeout. -/
theorem after?_timeout {start limit : Instant}
    (hlimit : Instant.after? start (c.longestWait q.timeout) = some limit) :
    Instant.after? start q.timeout = some (start + q.timeout.nanos) := by
  obtain ⟨rfl, hlatest⟩ := Instant.after?_eq_some_iff.mp hlimit
  refine Instant.after?_eq_some_iff.mpr ⟨rfl, Nat.le_trans (Nat.add_le_add_left ?_ start) hlatest⟩
  rw [Settings.longestWait, Span.nanos_max]
  exact Nat.le_max_left ..

theorem begin_tracks {first : Exchange} {later : List Exchange} {start limit : Instant}
    (hexchanges : q.exchanges = first :: later)
    (hlimit : Instant.after? start (c.longestWait q.timeout) = some limit) (t : Target) :
    Tracks (Stands q) (begin c q first start limit t)
      (Conversation.begin c q first later start limit t) := by
  obtain ⟨sending, hstart, hsends⟩ :=
    Transmission.start_tracks (Conversation.two_le_capacity t) first.request start
  unfold begin Conversation.begin
  simp only [hstart, after?_timeout hlimit, Option.bind_eq_bind, Option.bind_some]
  exact ⟨_, rfl, rfl, rfl, rfl, rfl, rfl, hsends, .idle _, fun _ => hexchanges⟩

theorem respond_tracks (h : x.Stands q s) (hwaiting : s.status = .waiting) (now : Instant)
    (response : Bytes) :
    Tracks (Stands q) (x.respond c q now response) (s.respond c q now response) := by
  have hexchanges := h.exchanges hwaiting
  have hcurrent : q.exchanges[x.step]? = some s.current := by
    rw [← List.head?_drop, hexchanges, List.head?_cons]
  have hlater : q.exchanges.drop (x.step + 1) = s.later := by
    rw [← List.drop_drop, hexchanges, List.drop_one, List.tail_cons]
  have hnext : q.exchanges[x.step + 1]? = s.later.head? := by
    rw [← List.head?_drop, hlater]
  unfold respond Conversation.respond
  rw [h.target]
  split
  · dsimp only
    split
    · exact ⟨_, rfl, h.extend now c.pendingWait⟩
    · exact ⟨_, rfl, h.conclude _⟩
  · rw [hcurrent, hnext, Option.bind_eq_bind, Option.bind_some]
    split
    · cases hrest : s.later with
      | nil => exact ⟨_, rfl, { h.conclude (.ok response) with exchanges := nofun }⟩
      | cons next rest =>
          obtain ⟨sending, hstart, hsends⟩ :=
            Transmission.start_tracks (Conversation.two_le_capacity s.target) next.request now
          simp only [List.head?_cons, hstart]
          refine ⟨_, rfl, { h.extend now q.timeout with sending := hsends, exchanges := ?_ }⟩
          exact fun _ => hlater.trans hrest
    · exact ⟨_, rfl, h.conclude _⟩

theorem permit_tracks (h : x.Stands q s) (now : Instant) (content : Bytes) :
    Tracks (Stands q) (x.permit q now content) (s.permit q now content) := by
  obtain ⟨target, address, step, deadline, limit, sending, receiving, status⟩ := x
  obtain rfl : target = s.target := h.target
  have hpermit := Transmission.permit_tracks h.sending content now
  unfold permit Conversation.permit
  cases hplain : s.sender.permit content now with
  | unexpected =>
      rw [hplain] at hpermit
      simp only [hpermit, Option.bind_eq_bind, Option.bind_some]
      exact ⟨_, rfl, h⟩
  | granted after =>
      rw [hplain] at hpermit
      obtain ⟨granted, hgranted, hsends⟩ := hpermit
      simp only [hgranted, Option.bind_eq_bind, Option.bind_some]
      exact ⟨_, rfl, { h.extend now q.timeout with sending := hsends }⟩
  | wait =>
      rw [hplain] at hpermit
      simp only [hpermit, Option.bind_eq_bind, Option.bind_some]
      exact ⟨_, rfl, h.extend now q.timeout⟩
  | refused reason =>
      rw [hplain] at hpermit
      simp only [hpermit, Option.bind_eq_bind, Option.bind_some]
      exact ⟨_, rfl, h.conclude _⟩

theorem hear_tracks (h : x.Stands q s) (hwaiting : s.status = .waiting) (now : Instant)
    (content : Bytes) :
    Tracks (Stands q) (x.hear c q now content) (s.hear c q now content) := by
  obtain ⟨target, address, step, deadline, limit, sending, earlier, status⟩ := x
  obtain rfl : target = s.target := h.target
  obtain ⟨receiving, hfeed, hholds⟩ := Buffer.feed_tracks h.receiving content
  have hfed : Stands q
      { target := s.target, address, step, deadline, limit, sending, receiving, status }
      { s with receiver := (s.receiver.feed content).1 } := { h with receiving := hholds }
  unfold hear Conversation.hear
  simp only [hfeed, Option.bind_eq_bind, Option.bind_some]
  cases (s.receiver.feed content).2 with
  | nothing | unknown | stray => exact ⟨_, rfl, hfed⟩
  | flowControl => exact permit_tracks hfed now content
  | progress => exact ⟨_, rfl, hfed.extend now q.timeout⟩
  | flowControlDue => exact ⟨_, rfl, hfed.extend now q.timeout⟩
  | completed response => exact respond_tracks hfed hwaiting now response
  | faulty fault => exact ⟨_, rfl, hfed.conclude _⟩

theorem receive_tracks (h : x.Stands q s) (now : Instant) (f : Frame) :
    Tracks (Stands q) (x.receive c q now f) (s.receive c q now f) := by
  unfold receive Conversation.receive
  rw [h.isOver, h.address, h.target]
  split
  next hopen =>
    rw [Bool.and_eq_true, Bool.not_eq_true'] at hopen
    cases s.target.content? f.data with
    | none => exact ⟨x, rfl, h⟩
    | some content =>
        exact hear_tracks h (Conversation.isOver_eq_false_iff.mp hopen.1) now content
  next => exact ⟨x, rfl, h⟩

theorem consecutive_eq {sending : Transmission} {sender : Sender} (h : sending.Sends sender)
    (t : Target) (frame : Bytes) :
    consecutive c q t frame sending = Conversation.consecutive c q t frame sender := by
  unfold consecutive Conversation.consecutive
  cases h with
  | finished hsending => rw [if_pos hsending]
  | blocked hsending hheld => simp [hsending, hheld]
  | sending hsending hheld => simp [hsending, hheld]

theorem burst_tracks {frames : List (Bytes × Transmission)} {plain : List (Bytes × Sender)}
    (hall : List.Forall₂ (fun frame plain => frame.1 = plain.1 ∧ frame.2.Sends plain.2) frames
      plain) {sending : Transmission} {sender : Sender} (h : sending.Sends sender) (t : Target) :
    ((frames.getLast?.map (·.2)).getD sending).Sends ((plain.getLast?.map (·.2)).getD sender) ∧
      (frames.flatMap fun (frame, after) => consecutive c q t frame after) =
        plain.flatMap fun (frame, after) => Conversation.consecutive c q t frame after := by
  induction hall generalizing sending sender with
  | nil => exact ⟨h, rfl⟩
  | @cons frame first frames plain hfirst _ ih =>
      obtain ⟨content, after⟩ := frame
      obtain ⟨plainContent, plainAfter⟩ := first
      obtain ⟨rfl, hafter⟩ : content = plainContent ∧ after.Sends plainAfter := hfirst
      obtain ⟨hlast, houtputs⟩ := ih hafter
      dsimp only at hlast houtputs ⊢
      rw [Sender.last_cons, Sender.last_cons, List.flatMap_cons, List.flatMap_cons, houtputs,
        consecutive_eq hafter]
      exact ⟨hlast, rfl⟩

theorem transmit_tracks (h : x.Stands q s) (now : Instant) :
    Tracks (Stands q) (x.transmit c q now) (s.transmit c q now) := by
  obtain ⟨target, address, step, deadline, limit, sending, receiving, status⟩ := x
  obtain rfl : target = s.target := h.target
  have hcapacity : 1 ≤ capacity s.target := Nat.le_of_lt (Conversation.two_le_capacity s.target)
  obtain ⟨frames, hburst, hall⟩ := Transmission.burstUpTo_tracks h.sending (capacity s.target)
    hcapacity now s.sender.rest.length
  obtain ⟨hlast, houtputs⟩ := @burst_tracks c q _ _ hall _ _ h.sending s.target
  unfold transmit Conversation.transmit Sender.burst
  simp only [minus?_of_le h.sending.position_le, h.sending.length_rest, hburst,
    Option.bind_eq_bind, Option.bind_some, houtputs]
  exact ⟨_, rfl, { h with sending := hlast }⟩

theorem tick_tracks (h : x.Stands q s) (now : Instant) :
    Tracks (Stands q) (x.tick c q now) (s.tick c q now) := by
  obtain ⟨after, htransmit, hafter⟩ := @transmit_tracks c q x s h now
  obtain ⟨target, address, step, deadline, limit, sending, receiving, status⟩ := after
  obtain rfl : target = (s.transmit c q now).1.target := hafter.target
  obtain rfl : deadline = (s.transmit c q now).1.deadline := hafter.deadline
  unfold tick Conversation.tick
  rw [h.isOver]
  split
  · exact ⟨x, rfl, h⟩
  · simp only [htransmit, Option.bind_eq_bind, Option.bind_some]
    split
    · exact ⟨_, rfl, { hafter with status := rfl, exchanges := nofun }⟩
    · exact ⟨_, rfl, hafter⟩

end Session

/-! ### Runs in step -/

section Runs

variable {σ α β γ δ : Type} {R : α → γ → Prop} {S : β → δ → Prop}

/-- A run goes as another one does, and where that comes to a value, it comes to one that stands for
it. -/
def Follows (R : α → γ → Prop) (x : Run σ α) (y : Run σ γ) : Prop :=
  ∀ w, match y w with
    | none => x w = none
    | some (.error e, after) => x w = some (.error e, after)
    | some (.ok b, after) => ∃ a, x w = some (.ok a, after) ∧ R a b

theorem Follows.pure {a : α} {b : γ} (h : R a b) :
    Follows R (pure a : Run σ α) (pure b) := fun _ => ⟨a, rfl, h⟩

theorem Follows.fail (e : DiagnosticError) : Follows R (Run.fail e : Run σ α) (Run.fail e) :=
  fun _ => rfl

/-- The same run in front of both. -/
theorem Follows.after {x : Run σ α} {f : α → Run σ β} {g : α → Run σ δ}
    (hf : ∀ a, Follows S (f a) (g a)) : Follows S (x >>= f) (x >>= g) := by
  intro w
  rw [Run.bind_apply, Run.bind_apply]
  rcases x w with _ | ⟨e | a, after⟩
  · rfl
  · rfl
  · exact hf a after

theorem Follows.loop {f : α → Run σ (α ⊕ β)} {g : γ → Run σ (γ ⊕ δ)}
    (hstep : ∀ a b, R a b → Follows (Sum.LiftRel R S) (f a) (g b)) (rounds : Nat) {a : α} {b : γ}
    (hab : R a b) : Follows S (Run.loop f rounds a) (Run.loop g rounds b) := by
  induction rounds generalizing a b with
  | zero => exact fun _ => rfl
  | succ rounds ih =>
      intro w
      have hw := hstep a b hab w
      rw [Run.loop_succ, Run.loop_succ]
      rcases hg : g b w with _ | ⟨e | (next | value), after⟩
      · rw [hg] at hw
        rw [show f a w = none from hw]
      · rw [hg] at hw
        rw [show f a w = some (.error e, after) from hw]
      · rw [hg] at hw
        obtain ⟨_, hf, hlift⟩ := hw
        cases hlift with
        | inl hnext =>
            rw [hf]
            exact ih hnext after
      · rw [hg] at hw
        obtain ⟨_, hf, hlift⟩ := hw
        cases hlift with
        | inr hvalue =>
            rw [hf]
            exact ⟨_, rfl, hvalue⟩

end Runs

/-! ### Rounds and queries track the conversations -/

theorem each_tracks {α β γ δ : Type} {R : α → γ → Prop} {S : β → δ → Prop}
    {checked : α → Option (β × List Output)} {plain : γ → δ × List Output}
    (hstep : ∀ a b, R a b → Tracks S (checked a) (plain b)) {all : List α} {others : List γ}
    (hall : List.Forall₂ R all others) :
    Tracks (List.Forall₂ S) (each checked all)
      ((others.map plain).map (·.1), (others.map plain).flatMap (·.2)) := by
  induction hall with
  | nil => exact ⟨[], rfl, .nil⟩
  | @cons a b all others hfirst _ ih =>
      obtain ⟨after, hafter, hstands⟩ := hstep a b hfirst
      obtain ⟨rest, hrest, hstandsAll⟩ := ih
      unfold each
      simp only [hafter, hrest, Option.bind_eq_bind, Option.bind_some]
      exact ⟨after :: rest, rfl, .cons hstands hstandsAll⟩

section Queries

variable {σ : Type} {c : Settings} {q : Query} {all : List Session} {others : List Conversation}

theorem deliver_tracks (hall : List.Forall₂ (Session.Stands q) all others) (now : Instant)
    (frames : List Frame) :
    Tracks (List.Forall₂ (Session.Stands q)) (deliver c q now frames all)
      (Round.deliver c q now frames others) := by
  induction frames generalizing all others with
  | nil => exact ⟨all, rfl, hall⟩
  | cons f rest ih =>
      have hreceive : ∀ (x : Session) (s : Conversation), x.Stands q s →
          Tracks (Session.Stands q) (x.receive c q now f) (s.receive c q now f) :=
        fun _ _ h => Session.receive_tracks h now f
      obtain ⟨heard, hheard, hstands⟩ := each_tracks hreceive hall
      obtain ⟨after, hafter, hstandsAfter⟩ := ih hstands
      unfold deliver Round.deliver
      simp only [hheard, hafter, Option.bind_eq_bind, Option.bind_some]
      exact ⟨after, rfl, hstandsAfter⟩

theorem play_tracks (hall : List.Forall₂ (Session.Stands q) all others) (now : Instant)
    (batch : List Frame) :
    Tracks (List.Forall₂ (Session.Stands q)) (play c q now batch all)
      (Round.play c q now batch others) := by
  obtain ⟨heard, hheard, hstands⟩ :=
    deliver_tracks (c := c) hall now (batch.filter (·.bus = q.bus))
  have htick : ∀ (x : Session) (s : Conversation), x.Stands q s →
      Tracks (Session.Stands q) (x.tick c q now) (s.tick c q now) :=
    fun _ _ h => Session.tick_tracks h now
  obtain ⟨after, hafter, hstandsAfter⟩ := each_tracks htick hstands
  unfold play Round.play
  simp only [hheard, hafter, Option.bind_eq_bind, Option.bind_some]
  exact ⟨after, rfl, hstandsAfter⟩

theorem all_isOver (hall : List.Forall₂ (Session.Stands q) all others) :
    all.all (·.isOver) = others.all (·.isOver) := by
  induction hall with
  | nil => rfl
  | cons hfirst _ ih => rw [List.all_cons, List.all_cons, hfirst.isOver, ih]

theorem filterMap_answer? (hall : List.Forall₂ (Session.Stands q) all others) :
    all.filterMap (·.answer?) = others.filterMap (·.answer?) := by
  induction hall with
  | nil => rfl
  | @cons x s _ _ hfirst _ ih =>
      have hanswer : x.answer? = s.answer? := by
        cases hstatus : s.status <;>
          simp [Session.answer?, Conversation.answer?, hfirst.status, hfirst.target, hstatus]
      rw [List.filterMap_cons, List.filterMap_cons, hanswer, ih]

theorem step_follows (link : Link σ) (hall : List.Forall₂ (Session.Stands q) all others) :
    Follows (Sum.LiftRel (List.Forall₂ (Session.Stands q)) (fun a b => a = some b))
      (step c q link all) (IsoTp.step c q link others) := by
  unfold step IsoTp.step
  rw [all_isOver hall, filterMap_answer? hall]
  split
  · exact .pure (.inr rfl)
  · refine .after fun batch => .after fun now => ?_
    obtain ⟨after, hplay, hstands⟩ := play_tracks (c := c) hall now batch
    rw [hplay]
    exact .after fun _ => .pure (.inl hstands)

theorem engine_follows (c : Settings) (q : Query) (link : Link σ) (rounds : Nat) :
    Follows (fun a b => a = some b) (engine c q link rounds) (IsoTp.engine c link rounds q) := by
  unfold engine IsoTp.engine
  cases hexchanges : q.exchanges with
  | nil => exact .fail _
  | cons first later =>
      dsimp only
      split
      · exact .fail _
      · refine .after fun start => ?_
        cases hlimit : Instant.after? start (c.longestWait q.timeout) with
        | none => exact .after fun _ => .fail _
        | some limit =>
            have hbegin : ∀ t u, t = u → Tracks (Session.Stands q)
                (Session.begin c q first start limit t)
                (Conversation.begin c q first later start limit u) := by
              rintro t _ rfl
              exact Session.begin_tracks hexchanges hlimit t
            obtain ⟨all, hbegun, hstands⟩ :=
              each_tracks hbegin (List.forall₂_same.mpr fun t (_ : t ∈ q.targets) => rfl)
            dsimp only
            rw [hbegun]
            refine .after fun _ => ?_
            split
            · exact .after fun _ => .pure rfl
            · exact .loop (fun _ _ hall => step_follows link hall) rounds hstands

/-! ### What holds of every session -/

namespace Session

/-- The sessions that a query may come to: those it begins with, and those that come of them with a
frame taken in, a consecutive frame handed out, or the clock looked at. -/
inductive Occurs (c : Settings) (q : Query) (first : Exchange) (start limit : Instant) :
    Session → Prop
  | begun {t : Target} {x : Session} {outputs : List Output} (ht : t ∈ q.targets)
      (hbegin : begin c q first start limit t = some (x, outputs)) :
      Occurs c q first start limit x
  | heard {x after : Session} {outputs : List Output} (hx : Occurs c q first start limit x)
      (now : Instant) (f : Frame) (hreceive : x.receive c q now f = some (after, outputs)) :
      Occurs c q first start limit after
  | sent {x : Session} {now : Instant} {frame : Bytes} {sending : Transmission}
      (hx : Occurs c q first start limit x)
      (hnext : x.sending.next? (capacity x.target) now = some (some (frame, sending))) :
      Occurs c q first start limit { x with sending }
  | ticked {x after : Session} {outputs : List Output} (hx : Occurs c q first start limit x)
      (now : Instant) (htick : x.tick c q now = some (after, outputs)) :
      Occurs c q first start limit after

/-- All positions of a session are in range. -/
structure Intact (q : Query) (x : Session) : Prop where
  /-- There is an exchange under way. -/
  step_lt : x.isOver = false → x.step < q.exchanges.length
  /-- No more has been reassembled than was declared. -/
  data_le : x.receiving.data.length ≤ x.receiving.size
  /-- No more has been sent than there is. -/
  position_le : x.sending.position ≤ x.sending.message.length

variable {x : Session} {s : Conversation}

theorem Stands.intact (h : x.Stands q s) : x.Intact q := by
  refine ⟨fun hopen => ?_, h.receiving.length_le, h.sending.position_le⟩
  rw [h.isOver] at hopen
  have hexchanges := h.exchanges (Conversation.isOver_eq_false_iff.mp hopen)
  have hlength := congrArg List.length hexchanges
  rw [List.length_drop, List.length_cons] at hlength
  omega

theorem Occurs.stands {first : Exchange} {start limit : Instant}
    (hfirst : q.exchanges.head? = some first)
    (hlimit : Instant.after? start (c.longestWait q.timeout) = some limit)
    (h : Occurs c q first start limit x) : ∃ s, x.Stands q s := by
  obtain ⟨later, hexchanges⟩ := List.head?_eq_some_iff.mp hfirst
  induction h with
  | begun ht hbegin => exact ⟨_, (begin_tracks hexchanges hlimit _).of_eq_some hbegin⟩
  | heard _ now f hreceive ih =>
      obtain ⟨s, hs⟩ := ih
      exact ⟨_, (receive_tracks hs now f).of_eq_some hreceive⟩
  | ticked _ now htick ih =>
      obtain ⟨s, hs⟩ := ih
      exact ⟨_, (tick_tracks hs now).of_eq_some htick⟩
  | @sent x now frame sending _ hnext ih =>
      obtain ⟨s, hs⟩ := ih
      have hcapacity := Nat.le_of_lt (Conversation.two_le_capacity x.target)
      have hplain := Transmission.next_tracks hs.sending (capacity x.target) hcapacity now
      cases hsender : s.sender.next? (capacity x.target) now with
      | none =>
          rw [hsender] at hplain
          rw [show x.sending.next? (capacity x.target) now = some none from hplain] at hnext
          cases hnext
      | some next =>
          rw [hsender] at hplain
          obtain ⟨after, hafter, hsends⟩ := hplain
          rw [hafter] at hnext
          cases hnext
          exact ⟨{ s with sender := next.2 }, { hs with sending := hsends }⟩

end Session

/-- The result of a run in which no check has failed. -/
def unfailing {α : Type} (run : Run σ α) : Run σ (Option α) := fun w =>
  (run w).map fun (result, after) => (result.map some, after)

/-- Nothing that a bus delivers and no query can make a check fail: over every link, the engine with
positions goes as the engine of conversations goes, with its result, its world and its notes. All
positions of a session are in range at any time, and the sum of the start and the timeout can be
shown by a clock whenever the query has got past the check of its parameters. -/
theorem engine_unfailing :
    (∀ (σ : Type) (c : Settings) (q : Query) (link : Link σ) (rounds : Nat),
      engine c q link rounds = unfailing (IsoTp.engine c link rounds q)) ∧
    ∀ (c : Settings) (q : Query) (first : Exchange) (start limit : Instant),
      q.exchanges.head? = some first →
      Instant.after? start (c.longestWait q.timeout) = some limit →
      Instant.after? start q.timeout = some (start + q.timeout.nanos) ∧
        ∀ x, Session.Occurs c q first start limit x → x.Intact q := by
  refine ⟨fun σ c q link rounds => funext fun w => ?_,
    fun c q first start limit hfirst hlimit => ⟨Session.after?_timeout hlimit, fun x hx => ?_⟩⟩
  · have hfollows := engine_follows c q link rounds w
    unfold unfailing
    rcases hplain : IsoTp.engine c link rounds q w with _ | ⟨e | answers, after⟩
    · rw [hplain] at hfollows
      exact hfollows
    · rw [hplain] at hfollows
      exact hfollows
    · rw [hplain] at hfollows
      obtain ⟨_, hchecked, rfl⟩ := hfollows
      exact hchecked
  · obtain ⟨s, hs⟩ := hx.stands hfirst hlimit
    exact hs.intact

end Queries

/-- A unit whose first frame already holds all of its short answer, among frames that are empty or
out of place. -/
theorem engine_unfailing_overfull :
    let asking : Exchange := { request := [0x22, 0xF1, 0x90], expected := [0x62] }
    let q : Query :=
      { bus := 0
        targets := [{ address := 0x7D0 }]
        exchanges := [asking]
        timeout := .ofMillis 100 }
    let contents : List Bytes :=
      [[], [0x21, 0x01], [0x30, 0x00], [0x10, 0x03, 0x62, 0xF1, 0x90, 0x01], [], [0x21]]
    let script : List Scripted.Reading :=
      [{ takes := .ofMillis 10
         result := .ok (contents.map fun data => { address := 0x7D8, bus := 0, data }) }]
    (∃ answers after, engine {} q Scripted.Playback.link 3 { world := { readings := script } } =
        some (.ok (some answers), after) ∧
      answers.get? { address := 0x7D0 } = some (.ok [0x62, 0xF1, 0x90])) ∧
    Instant.after? 0 q.timeout = some (0 + q.timeout.nanos) ∧
    ∀ x, Session.Occurs {} q asking 0 10000000000 x → x.Intact q := by
  intro asking q contents script
  obtain ⟨answers, after, hrun, hanswer⟩ := Answers.exists_of_response
    (x := IsoTp.engine {} Scripted.Playback.link 3 q) (w := { world := { readings := script } })
    { address := 0x7D0 } [0x62, 0xF1, 0x90] (by decide +kernel)
  refine ⟨⟨answers, after, ?_, hanswer⟩,
    engine_unfailing.2 {} q asking 0 10000000000 rfl (by decide)⟩
  rw [engine_unfailing.1, unfailing, hrun]
  rfl

end EcuQuiet.IsoTp.Indexed
