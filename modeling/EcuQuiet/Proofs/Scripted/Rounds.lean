import EcuQuiet.Proofs.IsoTp.Courses
import EcuQuiet.Scripted.Playback

/-!
# Queries over a scripted bus

Over a scripted bus a query comes to plain functions of the script. Its frames go to the bus one by
one, up to the first that cannot be sent, and its rounds are a recursion on the readings. What is
noted plays no part in either, and what the rounds read does not depend on what is sent.
-/

namespace EcuQuiet

namespace Run

variable {σ α β : Type}

/-- What a run leads to, whatever is noted. -/
def outcome (x : Run σ α) (w : Logged σ) : Option (Except DiagnosticError α × σ) :=
  (x w).map fun (result, after) => (result, after.world)

theorem exists_of_outcome {x : Run σ α} {w : Logged σ} {result : Except DiagnosticError α}
    {world : σ} (h : x.outcome w = some (result, world)) :
    ∃ after, x w = some (result, after) ∧ after.world = world := by
  obtain ⟨⟨result, after⟩, hrun, hend⟩ := Option.map_eq_some_iff.mp h
  cases hend
  exact ⟨after, hrun, rfl⟩

theorem outcome_bind_ok {x : Run σ α} {f : α → Run σ β} {w : Logged σ} {a : α} {world : σ}
    {result? : Option (Except DiagnosticError β × σ)} (hx : x.outcome w = some (.ok a, world))
    (hf : ∀ w, w.world = world → (f a).outcome w = result?) : (x >>= f).outcome w = result? := by
  obtain ⟨middle, hrun, hworld⟩ := exists_of_outcome hx
  rw [← hf middle hworld, outcome, outcome, bind_apply, hrun]

theorem outcome_bind_error {x : Run σ α} {f : α → Run σ β} {w : Logged σ} {e : DiagnosticError}
    {world : σ} (hx : x.outcome w = some (.error e, world)) :
    (x >>= f).outcome w = some (.error e, world) := by
  obtain ⟨middle, hrun, rfl⟩ := exists_of_outcome hx
  rw [outcome, bind_apply, hrun]
  rfl

end Run

namespace Scripted.Playback

open IsoTp

/-! ### Readings -/

/-- The coming reading, of the script or after its end. -/
def next (p : Playback) : Reading := p.readings.head?.getD { takes := p.idle, result := .ok [] }

/-- The bus after the coming reading. -/
def read (p : Playback) : Playback := { p with readings := p.readings.tail }.advance p.next.takes

theorem receive_eq (p : Playback) :
    p.receive = { result := p.next.result, world := p.read } := by
  obtain ⟨clock, idle, readings, faults, sent⟩ := p
  cases readings <;> rfl

/-- What the next readings give, each with the clock after it, up to one that fails. -/
def heard : Nat → Playback → Readings
  | 0, _ => []
  | n + 1, p =>
    match p.next.result with
    | .error _ => []
    | .ok batch => (p.read.clock, batch) :: heard n p.read

theorem heard_ok {p : Playback} {batch : List Frame} (h : p.next.result = .ok batch) (n : Nat) :
    heard (n + 1) p = (p.read.clock, batch) :: heard n p.read := by
  rw [heard, h]

theorem heard_error {p : Playback} {cause : BusError} (h : p.next.result = .error cause)
    (n : Nat) : heard n p = [] := by
  cases n with
  | zero => rfl
  | succ n => rw [heard, h]

/-- That two buses have the same script still to come, at the same time. -/
structure Alike (p p' : Playback) : Prop where
  clock : p.clock = p'.clock
  idle : p.idle = p'.idle
  readings : p.readings = p'.readings

namespace Alike

variable {p p' p'' : Playback}

theorem trans (h : Alike p p') (h' : Alike p' p'') : Alike p p'' :=
  ⟨h.clock.trans h'.clock, h.idle.trans h'.idle, h.readings.trans h'.readings⟩

theorem next (h : Alike p p') : p.next = p'.next := by
  rw [Playback.next, Playback.next, h.idle, h.readings]

theorem read (h : Alike p p') : Alike p.read p'.read where
  clock := by simp only [Playback.read, advance, h.clock, h.next]
  idle := h.idle
  readings := by simp only [Playback.read, advance, h.readings]

theorem heard (h : Alike p p') (n : Nat) : Playback.heard n p = Playback.heard n p' := by
  induction n generalizing p p' with
  | zero => rfl
  | succ n ih => rw [Playback.heard, Playback.heard, h.next, h.read.clock, ih h.read]

end Alike

/-! ### Sends -/

/-- Sends frames one by one, up to the first that cannot be sent. -/
def sendAll : List Frame → Playback → Except BusError Unit × Playback
  | [], p => (.ok (), p)
  | f :: rest, p =>
    match (p.send [f]).result with
    | .error cause => (.error cause, (p.send [f]).world)
    | .ok () => sendAll rest (p.send [f]).world

theorem send_alike (frames : List Frame) (p : Playback) : Alike (p.send frames).world p := by
  obtain ⟨clock, idle, readings, faults, sent⟩ := p
  cases faults <;> exact ⟨rfl, rfl, rfl⟩

/-- Sends leave the readings and the clock alone. -/
theorem sendAll_alike (frames : List Frame) (p : Playback) : Alike (sendAll frames p).2 p := by
  induction frames generalizing p with
  | nil => exact ⟨rfl, rfl, rfl⟩
  | cons f rest ih =>
      have hsent := send_alike [f] p
      rw [sendAll]
      split
      · exact hsent
      · exact (ih (p.send [f]).world).trans hsent

/-- That all sends succeed. -/
def Reliable (p : Playback) : Prop := ∀ fault ∈ p.faults, fault = none

theorem Reliable.send {p : Playback} (h : p.Reliable) (frames : List Frame) :
    (p.send frames).result = .ok () ∧ (p.send frames).world.Reliable ∧
      (p.send frames).world.sent = p.sent ++ frames.map (p.clock, ·) := by
  obtain ⟨clock, idle, readings, faults, sent⟩ := p
  cases faults with
  | nil => exact ⟨rfl, h, rfl⟩
  | cons fault faults =>
      obtain ⟨hfault, hfaults⟩ := List.forall_mem_cons.mp h
      cases hfault
      exact ⟨rfl, hfaults, rfl⟩

/-- Sends that succeed leave all their frames on the bus. -/
theorem Reliable.sendAll {p : Playback} (h : p.Reliable) (frames : List Frame) :
    (sendAll frames p).1 = .ok () ∧ (Playback.sendAll frames p).2.Reliable ∧
      (Playback.sendAll frames p).2.sent = p.sent ++ frames.map (p.clock, ·) := by
  induction frames generalizing p with
  | nil => exact ⟨rfl, h, by simp [Playback.sendAll]⟩
  | cons f rest ih =>
      obtain ⟨hresult, hreliable, hsent⟩ := h.send [f]
      obtain ⟨hok, hrest, hall⟩ := ih hreliable
      rw [Playback.sendAll, hresult]
      refine ⟨hok, hrest, ?_⟩
      rw [hall, hsent, (send_alike [f] p).clock]
      simp

/-! ### Rounds -/

section

variable (c : Settings) (q : Query)

/-- A round of a query whose conversations are not all over. -/
def round (all : List Conversation) (p : Playback) :
    Except DiagnosticError (List Conversation) × Playback :=
  match p.next.result with
  | .error cause => (.error (.bus cause), p.read)
  | .ok batch =>
    match p.read.sendAll (Output.frames (Round.play c q p.read.clock batch all).2) with
    | (.error cause, p) => (.error (.bus cause), p)
    | (.ok (), p') => (.ok (Round.play c q p.read.clock batch all).1, p')

/-- The rounds of a query: its result, and the bus afterwards. -/
def listen : Nat → List Conversation → Playback → Option (Except DiagnosticError Answers × Playback)
  | 0, _, _ => none
  | rounds + 1, all, p =>
    if all.all (·.isOver) then some (.ok (Round.answers all), p)
    else
      match round c q all p with
      | (.error reason, p) => some (.error reason, p)
      | (.ok all, p) => listen rounds all p

variable {c q}

/-- A query that begins: its opening frames, and its rounds. -/
def converse (o : Opening c q) (rounds : Nat) (p : Playback) :
    Option (Except DiagnosticError Answers × Playback) :=
  match sendAll (Output.frames (Deed.outputs o.asking)) p with
  | (.error cause, p) => some (.error (.bus cause), p)
  | (.ok (), p) => listen c q rounds o.begun p

end

variable {c : Settings} {q : Query}

/-- Of what is to be done, only the frames make a difference to the bus. -/
theorem outcome_perform (outputs : List Output) (w : Logged Playback) :
    (Output.perform link outputs).outcome w =
      some ((sendAll (Output.frames outputs) w.world).1.mapError .bus,
        (sendAll (Output.frames outputs) w.world).2) := by
  induction outputs generalizing w with
  | nil => rfl
  | cons output rest ih =>
      cases output with
      | note event => exact ih (w.note event)
      | send f =>
          have htransmit : (link.transmit f).outcome w =
              some ((w.world.send [f]).result.mapError .bus, (w.world.send [f]).world) := rfl
          rw [Output.perform, Output.frames_send, sendAll]
          cases hresult : (w.world.send [f]).result with
          | error cause =>
              rw [hresult] at htransmit
              exact Run.outcome_bind_error htransmit
          | ok =>
              rw [hresult] at htransmit
              refine Run.outcome_bind_ok htransmit fun w' hw' => ?_
              rw [ih, hw']

theorem outcome_step {all : List Conversation} (hopen : ¬ all.all (·.isOver))
    (w : Logged Playback) :
    (step c q link all).outcome w =
      some ((round c q all w.world).1.map .inl, (round c q all w.world).2) := by
  have hbatch : link.batch.outcome w =
      some (w.world.receive.result.mapError .bus, w.world.receive.world) := rfl
  rw [receive_eq] at hbatch
  rw [step, if_neg hopen, round]
  cases hresult : w.world.next.result with
  | error cause =>
      rw [hresult] at hbatch
      exact Run.outcome_bind_error hbatch
  | ok batch =>
      rw [hresult] at hbatch
      refine Run.outcome_bind_ok hbatch fun w' hw' => ?_
      have hclock : link.clock.outcome w' = some (.ok w'.world.clock, w'.world) := rfl
      refine Run.outcome_bind_ok hclock fun w'' hw'' => ?_
      rw [hw'] at hw'' ⊢
      have hperform := outcome_perform
        (Round.play c q w.world.read.clock batch all).2 w''
      rw [hw''] at hperform
      dsimp only at hperform ⊢
      rcases hsends : sendAll _ w.world.read with ⟨cause | _, after⟩
      · rw [hsends] at hperform
        exact Run.outcome_bind_error hperform
      · rw [hsends] at hperform
        exact Run.outcome_bind_ok hperform fun w''' hw''' => by rw [← hw''']; rfl

/-- The rounds of the engine are those of the script. -/
theorem outcome_loop (rounds : Nat) (all : List Conversation) (w : Logged Playback) :
    (Run.loop (step c q link) rounds all).outcome w = listen c q rounds all w.world := by
  induction rounds generalizing all w with
  | zero => rfl
  | succ rounds ih =>
      rw [listen, Run.outcome, Run.loop_succ]
      by_cases hover : all.all (·.isOver) = true
      · rw [step, if_pos hover, if_pos hover]
        rfl
      · rw [if_neg hover]
        have hstep := outcome_step (c := c) (q := q) hover w
        obtain ⟨after, hrun, hworld⟩ := Run.exists_of_outcome hstep
        rw [hrun]
        rcases hround : round c q all w.world with ⟨reason | all, p⟩
        · rw [hround] at hworld
          cases hworld
          rfl
        · rw [hround] at hworld
          cases hworld
          exact ih all after

/-- A query that waits comes to its opening frames and its rounds. -/
theorem outcome_engine (htimeout : q.timeout ≠ .zero) (hsendable : isSendable q)
    (o : Opening c q) {w : Logged Playback} (hstart : o.start = w.world.clock) (rounds : Nat) :
    (engine c link rounds q).outcome w = converse o rounds w.world := by
  have hclock : link.clock.outcome w = some (.ok w.world.clock, w.world) := rfl
  have hrange := o.range
  rw [hstart] at hrange
  have hasked : q.targets.map (Conversation.begin c q o.first o.later w.world.clock o.limit) =
      q.targets.map o.ask := by rw [← hstart]; rfl
  rw [engine, o.exchanges]
  dsimp only
  rw [hsendable, Bool.not_true, if_neg Bool.false_ne_true]
  refine Run.outcome_bind_ok hclock fun w' hw' => ?_
  rw [hrange]
  dsimp only
  rw [hasked, ← o.outputs_asking, if_neg htimeout, converse]
  have hperform := outcome_perform (Deed.outputs o.asking) w'
  rw [hw'] at hperform
  rcases hsends : sendAll _ w.world with ⟨cause | _, after⟩
  · rw [hsends] at hperform
    exact Run.outcome_bind_error hperform
  · rw [hsends] at hperform
    refine Run.outcome_bind_ok hperform fun w'' (hw'' : w''.world = after) => ?_
    rw [← hw'']
    exact outcome_loop rounds o.begun w''

/-- A query that cannot begin is refused before anything is sent. -/
theorem outcome_engine_refused {w : Logged Playback}
    (h : ¬ (isSendable q ∧ ∃ o : Opening c q, o.start = w.world.clock)) (rounds : Nat) :
    (engine c link rounds q).outcome w = some (.error .invalidParameter, w.world) := by
  rw [engine]
  cases hexchanges : q.exchanges with
  | nil => rfl
  | cons first later =>
      dsimp only
      by_cases hsendable : isSendable q = true
      · rw [hsendable, Bool.not_true, if_neg Bool.false_ne_true]
        have hclock : link.clock.outcome w = some (.ok w.world.clock, w.world) := rfl
        refine Run.outcome_bind_ok hclock fun w' hw' => ?_
        cases hrange : Instant.after? w.world.clock (c.longestWait q.timeout) with
        | none => rw [← hw']; rfl
        | some limit =>
            let o : Opening c q := ⟨first, later, w.world.clock, limit, hexchanges, hrange⟩
            exact absurd ⟨hsendable, o, rfl⟩ h
      · rw [Bool.eq_false_iff.mpr hsendable]
        rfl

/-- A query that has answers could begin. -/
theorem exists_opening {w after : Logged Playback} {rounds : Nat} {answers : Answers}
    (h : engine c link rounds q w = some (.ok answers, after)) :
    isSendable q ∧ ∃ o : Opening c q, o.start = w.world.clock := by
  by_contra hrefused
  have houtcome := outcome_engine_refused hrefused rounds
  rw [Run.outcome, h] at houtcome
  cases houtcome

/-! ### Rounds over a bus that sends everything -/

/-- A round reads a batch, and everything that it does is on the bus afterwards. -/
theorem Reliable.round {p : Playback} (h : p.Reliable) {batch : List Frame}
    (hbatch : p.next.result = .ok batch) (all : List Conversation) :
    ∃ after, round c q all p = (.ok (all.map (Conversation.through c q
          (Readings.events q.bus [(p.read.clock, batch)]))), after) ∧
      after.Reliable ∧ Alike after p.read ∧ after.sent = p.sent ++
        Deed.sends (Round.course c q (Readings.events q.bus [(p.read.clock, batch)]) all) := by
  have hread : p.read.Reliable := h
  obtain ⟨hok, hreliable, hsent⟩ :=
    hread.sendAll (Output.frames (Round.play c q p.read.clock batch all).2)
  have halike := sendAll_alike (Output.frames (Round.play c q p.read.clock batch all).2) p.read
  rcases hsends : Playback.sendAll _ p.read with ⟨sent, after⟩
  rw [hsends] at hok hreliable hsent halike
  cases hok
  refine ⟨after, ?_, hreliable, halike, ?_⟩
  · rw [Playback.round, hbatch]
    dsimp only
    rw [hsends, Round.play_eq]
  · rw [Round.sends_course]
    exact hsent

/-- The rounds end with answers if all conversations are over after some of them, and everything
that they did is on the bus afterwards. The rounds may end sooner than that: what is over stays as
it is. -/
theorem Reliable.listen {p : Playback} (h : p.Reliable) {rounds n : Nat} (hn : n < rounds)
    {all : List Conversation} (hover : (all.map (Conversation.through c q
      (Readings.events q.bus (heard n p)))).all (·.isOver)) :
    ∃ after, listen c q rounds all p = some (.ok (Round.answers (all.map
        (Conversation.through c q (Readings.events q.bus (heard n p))))), after) ∧
      after.sent = p.sent ++
        Deed.sends (Round.course c q (Readings.events q.bus (heard n p)) all) := by
  induction rounds generalizing n all p with
  | zero => exact absurd hn (Nat.not_lt_zero n)
  | succ rounds ih =>
      rw [Playback.listen]
      by_cases hended : all.all (·.isOver) = true
      · rw [if_pos hended, Round.through_over hended, Round.course_over hended]
        exact ⟨p, rfl, by simp [Deed.sends]⟩
      rw [if_neg hended]
      have hnothing : ¬ (all.map (Conversation.through c q
          (Readings.events q.bus []))).all (·.isOver) := by
        simpa [Readings.events] using hended
      cases n with
      | zero => exact absurd hover hnothing
      | succ n =>
          cases hresult : p.next.result with
          | error cause =>
              rw [heard_error hresult] at hover
              exact absurd hover hnothing
          | ok batch =>
              obtain ⟨middle, hround, hreliable, halike, hsent⟩ :=
                h.round (c := c) (q := q) hresult all
              rw [heard_ok hresult, Readings.events_cons, Round.map_through_append,
                ← halike.heard n] at hover ⊢
              obtain ⟨after, hlisten, hall⟩ := ih hreliable (Nat.lt_of_succ_lt_succ hn) hover
              refine ⟨after, ?_, ?_⟩
              · rw [hround]
                exact hlisten
              · rw [hall, hsent, Round.course_append, Deed.sends_append]
                exact Array.ext' (by simp)

/-- Rounds that end with answers end with all conversations over. -/
theorem Reliable.exists_over_of_listen {p : Playback} (h : p.Reliable) {rounds : Nat}
    {all : List Conversation} {answers : Answers} {after : Playback}
    (hlisten : Playback.listen c q rounds all p = some (.ok answers, after)) :
    ∃ n < rounds, (all.map (Conversation.through c q
      (Readings.events q.bus (heard n p)))).all (·.isOver) := by
  induction rounds generalizing all p with
  | zero => cases hlisten
  | succ rounds ih =>
      rw [Playback.listen] at hlisten
      split at hlisten
      next hended =>
        exact ⟨0, Nat.succ_pos rounds, by simpa [heard, Readings.events] using hended⟩
      next =>
        cases hresult : p.next.result with
        | error cause =>
            rw [Playback.round, hresult] at hlisten
            cases hlisten
        | ok batch =>
            obtain ⟨middle, hround, hreliable, halike, -⟩ :=
              h.round (c := c) (q := q) hresult all
            rw [hround] at hlisten
            obtain ⟨n, hn, hover⟩ := ih hreliable hlisten
            refine ⟨n + 1, Nat.succ_lt_succ hn, ?_⟩
            rw [heard_ok hresult, Readings.events_cons, Round.map_through_append,
              ← halike.heard n]
            exact hover

/-- The opening frames of a query go out, and its rounds begin. -/
theorem Reliable.opening {p : Playback} (h : p.Reliable) {o : Opening c q}
    (hstart : o.start = p.clock) :
    ∃ middle : Playback, middle.Reliable ∧ Alike middle p ∧
      middle.sent = p.sent ++ Deed.sends o.asking ∧
      ∀ rounds, converse o rounds p = Playback.listen c q rounds o.begun middle := by
  obtain ⟨hok, hreliable, hsent⟩ := h.sendAll (Output.frames (Deed.outputs o.asking))
  have halike := sendAll_alike (Output.frames (Deed.outputs o.asking)) p
  rcases hsends : Playback.sendAll _ p with ⟨sent, middle⟩
  rw [hsends] at hok hreliable hsent halike
  cases hok
  refine ⟨middle, hreliable, halike, ?_, fun rounds => by rw [converse, hsends]⟩
  rw [o.sends_asking, hstart]
  exact hsent

/-- A query ends with answers if all its conversations are over after some of its rounds, and all
that it did is on the bus afterwards. -/
theorem Reliable.converse {p : Playback} (h : p.Reliable) {o : Opening c q}
    (hstart : o.start = p.clock) {rounds n : Nat} (hn : n < rounds)
    (hover : (o.begun.map (Conversation.through c q
      (Readings.events q.bus (heard n p)))).all (·.isOver)) :
    ∃ after, converse o rounds p = some (.ok (Round.answers (o.begun.map
        (Conversation.through c q (Readings.events q.bus (heard n p))))), after) ∧
      after.sent = p.sent ++ Deed.sends (o.course (Readings.events q.bus (heard n p))) := by
  obtain ⟨middle, hreliable, halike, hsent, hrounds⟩ := h.opening hstart
  rw [← halike.heard n] at hover ⊢
  obtain ⟨after, hlisten, hall⟩ := hreliable.listen hn hover
  refine ⟨after, by rw [hrounds, hlisten], ?_⟩
  rw [hall, hsent, Opening.course, Deed.sends_append]
  exact Array.ext' (by simp)

theorem Reliable.exists_over_of_converse {p : Playback} (h : p.Reliable) {o : Opening c q}
    (hstart : o.start = p.clock) {rounds : Nat} {answers : Answers} {after : Playback}
    (hconverse : Playback.converse o rounds p = some (.ok answers, after)) :
    ∃ n < rounds, (o.begun.map (Conversation.through c q
      (Readings.events q.bus (heard n p)))).all (·.isOver) := by
  obtain ⟨middle, hreliable, halike, -, hrounds⟩ := h.opening hstart
  rw [hrounds] at hconverse
  obtain ⟨n, hn, hover⟩ := hreliable.exists_over_of_listen hconverse
  exact ⟨n, hn, by rwa [halike.heard n] at hover⟩

end Scripted.Playback

end EcuQuiet
