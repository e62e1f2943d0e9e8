import EcuQuiet.Proofs.Scripted.Rounds

/-!
# Frames that make no difference

A frame is noise at the moment at which it is handled if it is of another bus, or if every target
that is still waited for and answers on its address ignores what it says. Noise can be taken out of
everything that a script yields: the query has the same result, sends the same frames at the same
times, and waits for every target as long as before.
-/

namespace EcuQuiet

namespace IsoTp

variable {c : Settings} {q : Query} {now : Instant} {all : List Conversation}

/-! ### Noise in a batch -/

/-- A frame that no conversation has a use for as things stand. -/
def Noise (bus : UInt8) (all : List Conversation) (f : Frame) : Prop :=
  f.bus = bus → ∀ s ∈ all, s.isOver = false → s.address = f.address →
    ∀ content ∈ s.target.content? f.data, s.Ignores content

instance (s : Conversation) (content : Bytes) : Decidable (s.Ignores content) :=
  inferInstanceAs (Decidable (∀ head ∈ content.head?, 4 ≤ highHalf head ∨
    highHalf head = 2 ∧ s.receiver.assembly = none ∨ highHalf head = 3 ∧ s.sender.awaits = false))

instance (bus : UInt8) (all : List Conversation) (f : Frame) : Decidable (Noise bus all f) :=
  inferInstanceAs (Decidable (f.bus = bus → ∀ s ∈ all, s.isOver = false → s.address = f.address →
    ∀ content ∈ s.target.content? f.data, s.Ignores content))

namespace Round

/-- Conversations after one frame of the interface, and what they want done about it. -/
def handle (c : Settings) (q : Query) (now : Instant) (f : Frame) (all : List Conversation) :
    List Conversation × List Output :=
  deliver c q now ([f].filter (·.bus = q.bus)) all

theorem deliver_filter_cons (f : Frame) (rest : List Frame) (all : List Conversation) :
    deliver c q now ((f :: rest).filter (·.bus = q.bus)) all =
      ((deliver c q now (rest.filter (·.bus = q.bus)) (handle c q now f all).1).1,
        (handle c q now f all).2 ++
          (deliver c q now (rest.filter (·.bus = q.bus)) (handle c q now f all).1).2) := by
  by_cases hbus : f.bus = q.bus <;> simp [handle, deliver, hbus]

theorem each_of_idle {step : Conversation → Conversation × List Output}
    (h : ∀ s ∈ all, (step s).1 = s ∧ Output.frames (step s).2 = []) :
    (each step all).1 = all ∧ Output.frames (each step all).2 = [] := by
  induction all with
  | nil => exact ⟨rfl, rfl⟩
  | cons s rest ih =>
      obtain ⟨⟨hsame, hnothing⟩, hrest⟩ := List.forall_mem_cons.mp h
      obtain ⟨hall, hframes⟩ := ih hrest
      simp only [each, List.map_cons, List.flatMap_cons, Output.frames_append] at hall hframes ⊢
      exact ⟨by rw [hsame, hall], by rw [hnothing, hframes, List.append_nil]⟩

end Round

/-- A conversation ignores what noise says to it. -/
theorem Noise.ignores {f : Frame} (h : Noise q.bus all f) (hbus : f.bus = q.bus)
    {s : Conversation} (hs : s ∈ all) {content : Bytes} (htold : s.told? f = some content) :
    s.Ignores content := by
  rw [Conversation.told?] at htold
  split at htold
  next hopen =>
    simp only [Bool.and_eq_true, Bool.not_eq_true', decide_eq_true_eq] at hopen
    exact h hbus s hs hopen.1 hopen.2 content htold
  next => cases htold

/-- Noise changes no conversation and has nothing sent. -/
theorem Noise.handle (c : Settings) (now : Instant) {f : Frame} (h : Noise q.bus all f) :
    (Round.handle c q now f all).1 = all ∧
      Output.frames (Round.handle c q now f all).2 = [] := by
  by_cases hbus : f.bus = q.bus
  · have hidle : ∀ s ∈ all, (s.receive c q now f).1 = s ∧
        Output.frames (s.receive c q now f).2 = [] := by
      intro s hs
      rw [Conversation.receive_eq]
      cases htold : s.told? f with
      | none => exact ⟨rfl, rfl⟩
      | some content => exact Conversation.hear_of_ignores (h.ignores hbus hs htold)
    simpa [Round.handle, Round.deliver, hbus] using Round.each_of_idle hidle
  · simp [Round.handle, Round.deliver, hbus]

/-- Noise taken out of a batch: some frames are kept, and each of the others is noise when it is
handled. -/
inductive Strips (c : Settings) (q : Query) (now : Instant) :
    List Conversation → List Frame → List Frame → Prop
  | done {all : List Conversation} : Strips c q now all [] []
  | kept {all : List Conversation} {f : Frame} {rest left : List Frame}
      (hrest : Strips c q now (Round.handle c q now f all).1 rest left) :
      Strips c q now all (f :: rest) (f :: left)
  | dropped {all : List Conversation} {f : Frame} {rest left : List Frame}
      (hnoise : Noise q.bus all f)
      (hrest : Strips c q now (Round.handle c q now f all).1 rest left) :
      Strips c q now all (f :: rest) left

theorem Strips.deliver {batch left : List Frame} (h : Strips c q now all batch left) :
    (Round.deliver c q now (left.filter (·.bus = q.bus)) all).1 =
        (Round.deliver c q now (batch.filter (·.bus = q.bus)) all).1 ∧
      Output.frames (Round.deliver c q now (left.filter (·.bus = q.bus)) all).2 =
        Output.frames (Round.deliver c q now (batch.filter (·.bus = q.bus)) all).2 := by
  -- the conversations are those that have handled every frame so far, noise included
  induction h with
  | done => exact ⟨rfl, rfl⟩
  | kept _ ih =>
      rw [Round.deliver_filter_cons, Round.deliver_filter_cons]
      exact ⟨ih.1, by rw [Output.frames_append, Output.frames_append, ih.2]⟩
  | dropped hnoise _ ih =>
      obtain ⟨hall, hnothing⟩ := hnoise.handle c now
      rw [Round.deliver_filter_cons, Output.frames_append, hnothing, List.nil_append, ← ih.1,
        ← ih.2, hall]
      exact ⟨rfl, rfl⟩

/-- A round without the noise does what it does with it. -/
theorem Strips.play {batch left : List Frame} (h : Strips c q now all batch left) :
    (Round.play c q now left all).1 = (Round.play c q now batch all).1 ∧
      Output.frames (Round.play c q now left all).2 =
        Output.frames (Round.play c q now batch all).2 := by
  obtain ⟨hall, hframes⟩ := h.deliver
  simp only [Round.play, Output.frames_append, hall, hframes, and_self]

end IsoTp

namespace Scripted

open IsoTp

/-! ### Noise in a script -/

/-- Noise taken out of the readings of a script that is followed from some time on by conversations;
after a reading that fails nothing is handled any more. -/
inductive Stripped (c : Settings) (q : Query) :
    Instant → List Conversation → List Reading → List Reading → Prop
  | ended {now : Instant} {all : List Conversation} : Stripped c q now all [] []
  | failed {now : Instant} {all : List Conversation} {takes : Span} {cause : BusError}
      {rest left : List Reading} :
      Stripped c q now all ({ takes, result := .error cause } :: rest)
        ({ takes, result := .error cause } :: left)
  | read {now : Instant} {all : List Conversation} {takes : Span} {batch kept : List Frame}
      {rest left : List Reading} (hbatch : Strips c q (now + takes.nanos) all batch kept)
      (hrest : Stripped c q (now + takes.nanos)
        (Round.play c q (now + takes.nanos) batch all).1 rest left) :
      Stripped c q now all ({ takes, result := .ok batch } :: rest)
        ({ takes, result := .ok kept } :: left)

namespace Playback

variable {c : Settings} {q : Query}

theorem send_readings (frames : List Frame) (p : Playback) (readings : List Reading) :
    ({ p with readings } : Playback).send frames =
      { result := (p.send frames).result, world := { (p.send frames).world with readings } } := by
  obtain ⟨clock, idle, _, faults, sent⟩ := p
  cases faults <;> rfl

/-- Sends do not depend on what the script yields. -/
theorem sendAll_readings (frames : List Frame) (p : Playback) (readings : List Reading) :
    sendAll frames { p with readings } =
      ((sendAll frames p).1, { (sendAll frames p).2 with readings }) := by
  induction frames generalizing p with
  | nil => rfl
  | cons f rest ih =>
      rw [sendAll, sendAll, send_readings]
      dsimp only
      cases (p.send [f]).result with
      | error => rfl
      | ok => exact ih _

/-- What is seen of an end: the result, the clock, and everything that was sent. -/
def seen (outcome : Option (Except DiagnosticError Answers × Playback)) :
    Option (Except DiagnosticError Answers × Instant × Array (Instant × Frame)) :=
  outcome.map fun (result, p) => (result, p.clock, p.sent)

/-- The next reading of a script that has not come to its end. -/
theorem read_cons {p : Playback} {reading : Reading} {rest : List Reading}
    (h : p.readings = reading :: rest) :
    p.next = reading ∧
      p.read = { p with clock := p.clock + reading.takes.nanos, readings := rest } := by
  obtain ⟨clock, idle, readings, faults, sent⟩ := p
  cases h
  exact ⟨rfl, rfl⟩

/-- A round over a script without the noise does what it does over the script itself, and leaves a
script without the noise. -/
theorem round_stripped {all : List Conversation} {p : Playback} {reading stripped : Reading}
    {rest left : List Reading} (hscript : p.readings = reading :: rest)
    (h : Stripped c q p.clock all (reading :: rest) (stripped :: left)) :
    round c q all { p with readings := stripped :: left } =
        ((round c q all p).1, { (round c q all p).2 with readings := left }) ∧
      ∀ played, (round c q all p).1 = .ok played →
        Stripped c q (round c q all p).2.clock played (round c q all p).2.readings left := by
  obtain ⟨hnext, hread⟩ := read_cons hscript
  obtain ⟨hnext', hread'⟩ := read_cons (p := { p with readings := stripped :: left }) rfl
  rw [round, round, hnext, hread, hnext', hread']
  cases h with
  | failed => exact ⟨rfl, fun played hplayed => by cases hplayed⟩
  | @read _ _ takes batch kept _ _ hbatch hrest =>
      obtain ⟨hall, hframes⟩ := hbatch.play
      have halike := sendAll_alike
        (Output.frames (Round.play c q (p.clock + takes.nanos) batch all).2)
        { p with clock := p.clock + takes.nanos, readings := rest }
      have hsends := sendAll_readings
        (Output.frames (Round.play c q (p.clock + takes.nanos) batch all).2)
        { p with clock := p.clock + takes.nanos, readings := rest } left
      dsimp only at hsends ⊢
      rw [hall, hframes, hsends]
      rcases hsent : sendAll _ { p with clock := p.clock + takes.nanos, readings := rest } with
        ⟨cause | _, after⟩
      · exact ⟨rfl, fun played hplayed => by cases hplayed⟩
      · rw [hsent] at halike
        refine ⟨rfl, fun played hplayed => ?_⟩
        cases hplayed
        dsimp only at halike ⊢
        rw [halike.clock, halike.readings]
        exact hrest

/-- Rounds over a script without the noise lead to what they lead to over the script itself. -/
theorem listen_stripped {rounds : Nat} {all : List Conversation} {p : Playback}
    {readings : List Reading} (h : Stripped c q p.clock all p.readings readings) :
    seen (listen c q rounds all { p with readings }) = seen (listen c q rounds all p) := by
  induction rounds generalizing all p readings with
  | zero => rfl
  | succ rounds ih =>
      rw [listen, listen]
      by_cases hover : all.all (·.isOver) = true
      · rw [if_pos hover, if_pos hover]
        rfl
      rw [if_neg hover, if_neg hover]
      cases hscript : p.readings with
      | nil =>
          rw [hscript] at h
          cases h
          rw [← hscript]
      | cons reading rest =>
          rw [hscript] at h
          obtain ⟨stripped, left, rfl⟩ : ∃ stripped left, readings = stripped :: left := by
            cases h <;> exact ⟨_, _, rfl⟩
          obtain ⟨hround, hleft⟩ := round_stripped hscript h
          rw [hround]
          rcases hsame : round c q all p with ⟨reason | all, after⟩
          · rfl
          · rw [hsame] at hleft
            exact ih (hleft all rfl)

/-- Readings without the noise take conversations where they take them with it. -/
theorem through_heard_stripped {n : Nat} {all : List Conversation} {p : Playback}
    {readings : List Reading} (h : Stripped c q p.clock all p.readings readings) :
    all.map (Conversation.through c q (Readings.events q.bus (heard n { p with readings }))) =
      all.map (Conversation.through c q (Readings.events q.bus (heard n p))) := by
  induction n generalizing all p readings with
  | zero => rfl
  | succ n ih =>
      cases hscript : p.readings with
      | nil =>
          rw [hscript] at h
          cases h
          rw [← hscript]
      | cons reading rest =>
          rw [hscript] at h
          obtain ⟨hnext, hread⟩ := read_cons hscript
          cases h with
          | @failed _ _ takes cause _ left =>
              obtain ⟨hnext', -⟩ := read_cons
                (p := { p with readings := { takes, result := .error cause } :: left }) rfl
              rw [heard, heard, hnext, hnext']
          | @read _ _ takes batch kept _ left hbatch hrest =>
              obtain ⟨hnext', hread'⟩ := read_cons
                (p := { p with readings := { takes, result := .ok kept } :: left }) rfl
              have hround := hbatch.play.1
              rw [Round.play_eq, Round.play_eq] at hround
              rw [Round.play_eq] at hrest
              dsimp only at hround
              rw [heard, heard, hnext, hnext', hread, hread']
              dsimp only
              rw [Readings.events_cons, Readings.events_cons _ _ batch, Round.map_through_append,
                Round.map_through_append, hround]
              exact ih (p := { p with clock := p.clock + takes.nanos, readings := rest }) hrest

theorem converse_stripped {o : Opening c q} {p : Playback} (hstart : o.start = p.clock)
    {readings : List Reading} (h : Stripped c q o.start o.begun p.readings readings)
    (rounds : Nat) :
    seen (converse o rounds { p with readings }) = seen (converse o rounds p) := by
  have halike := sendAll_alike (Output.frames (Deed.outputs o.asking)) p
  rw [converse, converse, sendAll_readings]
  rcases hsent : sendAll _ p with ⟨cause | _, after⟩
  · rfl
  · rw [hsent] at halike
    refine listen_stripped ?_
    dsimp only at halike
    rw [halike.clock, halike.readings, ← hstart]
    exact h

end Playback

open Playback

/-- Noise is ignored. A query over a script that noise has been taken out of has the same result,
ends at the same time, and sends the same frames at the same times as over the script itself; and
after any number of readings every target is waited for as before, its deadline included. -/
theorem noise_ignored {c : Settings} {q : Query} (htimeout : q.timeout ≠ .zero) {p : Playback}
    {readings : List Reading} (hnoise : ∀ o : Opening c q, o.start = p.clock →
      Stripped c q o.start o.begun p.readings readings) :
    (∀ rounds notes,
      seen ((engine c link rounds q).outcome { world := { p with readings }, notes }) =
        seen ((engine c link rounds q).outcome { world := p, notes })) ∧
    ∀ o : Opening c q, o.start = p.clock → ∀ n, ∀ t ∈ q.targets,
      o.after (Readings.events q.bus (heard n { p with readings })) t =
        o.after (Readings.events q.bus (heard n p)) t := by
  refine ⟨fun rounds notes => ?_, fun o hstart n => ?_⟩
  · by_cases hbegins : isSendable q = true ∧ ∃ o : Opening c q, o.start = p.clock
    · obtain ⟨hsendable, o, hstart⟩ := hbegins
      rw [outcome_engine htimeout hsendable o (w := { world := p, notes }) hstart,
        outcome_engine htimeout hsendable o (w := { world := { p with readings }, notes }) hstart]
      exact converse_stripped hstart (hnoise o hstart) rounds
    · rw [outcome_engine_refused (w := { world := p, notes }) hbegins,
        outcome_engine_refused (w := { world := { p with readings }, notes }) hbegins]
      rfl
  · have hstripped := hnoise o hstart
    rw [hstart] at hstripped
    have hthrough := through_heard_stripped (n := n) hstripped
    rw [o.begun_through, o.begun_through] at hthrough
    exact List.map_inj_left.mp hthrough

/-- A query of a unit behind a gateway. -/
def asking : Query where
  bus := 0
  targets := [{ address := 0x7D0, subAddress := some 0x0F }]
  exchanges := [{ request := [0x3E, 0x00], expected := [0x7E, 0x00] }]
  timeout := .ofMillis 100

/-- A bus on which the unit asks for more time and then answers, with noise in between: a frame of
another bus, one of another address, one without the extra byte of the unit, one that is empty
after it, one of an unknown kind, a stray consecutive frame, a flow control that nobody waits for,
and a frame after the answer. -/
def noisy : List Reading :=
  [{ takes := .ofMillis 10
     result := .ok
      [{ address := 0x7D8, bus := 1, data := [0x0F, 0x02, 0x7E, 0x00] },
        { address := 0x123, bus := 0, data := [0x01, 0x02] },
        { address := 0x7D8, bus := 0, data := [0x02, 0x7E, 0x00] },
        { address := 0x7D8, bus := 0, data := [0x0F] },
        { address := 0x7D8, bus := 0, data := [0x0F, 0x03, 0x7F, 0x3E, 0x78] },
        { address := 0x7D8, bus := 0, data := [0x0F, 0x40, 0x00] }] },
    { takes := .ofMillis 1000
      result := .ok
        [{ address := 0x7D8, bus := 0, data := [0x0F, 0x21, 0x01] },
          { address := 0x7D8, bus := 0, data := [0x0F, 0x30, 0x00, 0x00] },
          { address := 0x7D8, bus := 0, data := [0x0F, 0x02, 0x7E, 0x00] },
          { address := 0x7D8, bus := 0, data := [0x0F, 0x02, 0x7E, 0x01] }] }]

/-- The same without the noise. -/
def quiet : List Reading :=
  [{ takes := .ofMillis 10
     result := .ok [{ address := 0x7D8, bus := 0, data := [0x0F, 0x03, 0x7F, 0x3E, 0x78] }] },
    { takes := .ofMillis 1000
      result := .ok [{ address := 0x7D8, bus := 0, data := [0x0F, 0x02, 0x7E, 0x00] }] }]

theorem noise_ignored_asking :
    (∀ o : Opening {} asking, o.start = 0 → Stripped {} asking o.start o.begun noisy quiet) ∧
    (∀ rounds, seen ((engine {} link rounds asking).outcome { world := { readings := quiet } }) =
      seen ((engine {} link rounds asking).outcome { world := { readings := noisy } })) ∧
    ∃ answers after, engine {} link 5 asking { world := { readings := noisy } } =
        some (.ok answers, after) ∧
      answers.get? { address := 0x7D0, subAddress := some 0x0F } = some (.ok [0x7E, 0x00]) := by
  have hnoise : ∀ o : Opening {} asking, o.start = 0 →
      Stripped {} asking o.start o.begun noisy quiet := by
    intro o hstart
    let begins : Opening {} asking := ⟨_, _, 0, 10000000000, rfl, by decide⟩
    obtain rfl : o = begins := Opening.eq_of_start hstart
    refine .read (.dropped ?_ (.dropped ?_ (.dropped ?_ (.dropped ?_ (.kept (.dropped ?_
      .done)))))) (.read (.dropped ?_ (.dropped ?_ (.kept (.dropped ?_ .done)))) .ended)
    all_goals decide +kernel
  have hignored := noise_ignored (p := { readings := noisy }) (by decide) hnoise
  exact ⟨hnoise, fun rounds => hignored.1 rounds #[],
    Answers.exists_of_response _ [0x7E, 0x00] (by decide +kernel)⟩

end Scripted

end EcuQuiet
