import EcuQuiet.Proofs.IsoTp.Courses
import EcuQuiet.Scripted.Playback

/-!
# What a request for more time does to a wait

A response that asks for more time sets a deadline of its own: the pending wait from the moment it
comes. Where this wait is at least as long as the timeout of the query, such a response never moves
a deadline to an earlier time, and no target is given up before the timeout has passed since the
start. Where it is shorter, both fail: a target that asks for more time is given up sooner than one
that says nothing.
-/

namespace EcuQuiet.IsoTp

variable {c : Settings} {q : Query}

/-- Times that do not go back, from a start on. -/
def Rising (start : Instant) (times : List Instant) : Prop := (start :: times).Pairwise (· ≤ ·)

theorem Rising.head {start now : Instant} {times : List Instant}
    (h : Rising start (now :: times)) : start ≤ now :=
  List.rel_of_pairwise_cons h List.mem_cons_self

theorem Rising.tail {start now : Instant} {times : List Instant}
    (h : Rising start (now :: times)) : Rising now times :=
  h.of_cons

theorem Rising.cons {start now : Instant} {times : List Instant} (hnow : start ≤ now)
    (h : Rising now times) : Rising start (now :: times) := by
  refine List.pairwise_cons.mpr ⟨fun time htime => ?_, h⟩
  rcases List.mem_cons.mp htime with rfl | htime
  · exact hnow
  · exact Nat.le_trans hnow (List.rel_of_pairwise_cons h htime)

/-- The events of readings whose times do not go back are in the order of time. -/
theorem Rising.events {start : Instant} {readings : Readings}
    (h : Rising start (readings.map (·.1))) (bus : UInt8) :
    Rising start ((Readings.events bus readings).map (·.1)) := by
  induction readings generalizing start with
  | nil => exact h
  | cons reading rest ih =>
      obtain ⟨now, batch⟩ := reading
      have hnow : start ≤ now := h.head
      have hrest : Rising now ((Readings.events bus rest).map (·.1)) := ih h.tail
      have htimes : (Readings.events bus [(now, batch)]).map (·.1) =
          (batch.filter (·.bus = bus)).map (fun _ => now) ++ [now] := by
        simp [Readings.events, Function.comp_def]
      rw [Readings.events_cons, List.map_append, htimes, List.append_assoc]
      induction batch.filter (·.bus = bus) generalizing start with
      | nil => exact .cons hnow hrest
      | cons f frames ihframes =>
          have hagain : Rising now (now :: rest.map (·.1)) := .cons (Nat.le_refl now) h.tail
          exact .cons hnow (ihframes hagain (Nat.le_refl now))

/-! ### How a deadline moves -/

namespace Conversation

variable {now : Instant} {s after : Conversation} {content : Bytes} {frames : List Frame}

/-- Hearing content leaves a deadline as it is, or sets it anew: to the timeout from now, or to the
pending wait. The timeout is not what a request for more time sets it to. -/
theorem Hears.deadline (h : Hears c q now content s after frames) :
    after.limit = s.limit ∧
      (after.deadline = s.deadline ∨
        after.deadline = (s.extend now c.pendingWait).deadline ∨
          after.deadline = (s.extend now q.timeout).deadline ∧
            ∀ response, (s.receiver.feed content).2 = .completed response →
              isPending response = false) := by
  cases h with
  | ignored | halted | faulty | refused | unacceptable | answered => exact ⟨rfl, .inl rfl⟩
  | pending => simp
  | part hfeed | due hfeed | granted hfeed | held hfeed =>
      refine ⟨by simp, .inr (.inr ⟨by simp, fun response hcompleted => ?_⟩)⟩
      rw [hfeed] at hcompleted
      cases hcompleted
  | next hfeed hpositive =>
      refine ⟨by simp, .inr (.inr ⟨by simp, fun response hcompleted => ?_⟩)⟩
      rw [hfeed] at hcompleted
      cases hcompleted
      exact isPending_of_positive hpositive

/-- Nothing that is heard makes a target one that was given up. -/
theorem Hears.status_ne (h : Hears c q now content s after frames) (hopen : s.isOver = false) :
    after.status ≠ .unanswered := by
  have hwaiting := isOver_eq_false_iff.mp hopen
  cases h <;> simp [conclude, hwaiting]

theorem hear_of_pending {receiver : Receiver} {response : Bytes}
    (hfeed : s.receiver.feed content = (receiver, .completed response))
    (hpending : isPending response = true) :
    (s.hear c q now content).1 = { s with receiver }.extend now c.pendingWait := by
  obtain ⟨hnegative, hcode⟩ : response.head? = some Uds.negativeResponse ∧
      (Uds.NegativeResponse.ofByte (response.getD 2 0)).isPending = true := by
    simpa [isPending] using hpending
  simp only [hear, hfeed, respond, hnegative, hcode, if_true]

end Conversation

/-! ### Waits while targets ask for more time -/

namespace Opening

variable (o : Opening c q)

theorem limit_eq : o.limit = o.start + (c.longestWait q.timeout).nanos :=
  (Instant.after?_eq_some_iff.mp o.range).1

theorem limit_le : o.limit ≤ Instant.latest := (Instant.after?_eq_some_iff.mp o.range).2

theorem timeout_le : o.start + q.timeout.nanos ≤ o.limit := by
  rw [o.limit_eq, Settings.longestWait, Span.nanos_max]
  exact Nat.add_le_add_left (Nat.le_max_left ..) o.start

/-- Whatever the conversation with a target hears while time does not go back, a request for more
time does not move its deadline to an earlier time, and it is not given up before the timeout has
passed since the start. -/
def Lengthens (t : Target) : Prop :=
  ∀ readings : Readings, Rising o.start (readings.map (·.1)) →
    ∀ step ∈ (o.ask t).1.steps c q (Readings.events q.bus readings),
      (∀ response, step.response? = some response → isPending response = true →
        step.before.deadline ≤ step.after.deadline) ∧
      (step.before.isOver = false → step.after.status = .unanswered →
        o.start + q.timeout.nanos ≤ step.time)

/-- A wait at some time: as long as the timeout from the start, and no longer than a target may ask
for now. -/
structure Waited (now : Instant) (s : Conversation) : Prop where
  limit : s.limit = o.limit
  start_le : o.start ≤ now
  le_deadline : o.start + q.timeout.nanos ≤ s.deadline
  deadline_le : s.deadline ≤ min (now + c.pendingWait.nanos) o.limit

namespace Waited

variable {o} {now later : Instant} {s s' : Conversation}

theorem of_eq (h : o.Waited now s) (hlimit : s'.limit = s.limit)
    (hdeadline : s'.deadline = s.deadline) : o.Waited now s' :=
  ⟨hlimit.trans h.limit, h.start_le, hdeadline ▸ h.le_deadline, hdeadline ▸ h.deadline_le⟩

theorem of_le (h : o.Waited now s) (hnow : now ≤ later) : o.Waited later s := by
  have hdeadline := h.deadline_le
  refine ⟨h.limit, Nat.le_trans h.start_le hnow, h.le_deadline, ?_⟩
  simp only [Instant] at *
  omega

theorem ask (hlong : q.timeout ≤ c.pendingWait) (t : Target) : o.Waited o.start (o.ask t).1 :=
  ⟨rfl, Nat.le_refl _, Nat.le_refl _,
    Nat.le_min.mpr ⟨Nat.add_le_add_left hlong o.start, o.timeout_le⟩⟩

theorem extend (h : o.Waited now s) (hnow : now ≤ later) {wait : Span}
    (hlong : q.timeout ≤ wait) (hwait : wait ≤ c.pendingWait) :
    o.Waited later (s.extend later wait) := by
  have hstart := Nat.le_trans h.start_le hnow
  have hdeadline := s.deadline_extend (h.limit ▸ o.limit_le) later wait
  rw [h.limit] at hdeadline
  refine ⟨h.limit, hstart, ?_, ?_⟩
  · rw [hdeadline]
    exact Nat.le_min.mpr ⟨Nat.add_le_add hstart hlong, o.timeout_le⟩
  · rw [hdeadline, Nat.le_min]
    exact ⟨Nat.le_trans (Nat.min_le_left ..) (Nat.add_le_add_left hwait later),
      Nat.min_le_right ..⟩

/-- A request for more time does not make a wait shorter. -/
theorem deadline_le_extend (h : o.Waited now s) (hnow : now ≤ later) :
    s.deadline ≤ (s.extend later c.pendingWait).deadline := by
  rw [s.deadline_extend (h.limit ▸ o.limit_le), h.limit]
  have hdeadline := h.deadline_le
  simp only [Instant] at *
  omega

/-- What is heard keeps such a wait, and no request for more time makes it shorter. -/
theorem hear (h : o.Waited now s) (hlong : q.timeout ≤ c.pendingWait) (hnow : now ≤ later)
    {content : Bytes} {frames : List Frame}
    (hheard : s.Hears c q later content s' frames) :
    o.Waited later s' ∧
      ∀ response, (s.receiver.feed content).2 = .completed response →
        isPending response = true → s.deadline ≤ s'.deadline := by
  have hrefl : ∀ span : Span, span ≤ span := fun span => Span.le_iff.mpr (Nat.le_refl _)
  obtain ⟨hlimit, hdeadline | hdeadline | ⟨hdeadline, hother⟩⟩ := hheard.deadline
  · exact ⟨(h.of_le hnow).of_eq hlimit hdeadline, fun _ _ _ => Nat.le_of_eq hdeadline.symm⟩
  · have hextended := h.extend hnow hlong (hrefl c.pendingWait)
    refine ⟨hextended.of_eq (by rw [hlimit, s.limit_extend]) hdeadline, fun _ _ _ => ?_⟩
    rw [hdeadline]
    exact h.deadline_le_extend hnow
  · have hextended := h.extend hnow (hrefl q.timeout) hlong
    refine ⟨hextended.of_eq (by rw [hlimit, s.limit_extend]) hdeadline, ?_⟩
    intro response hcompleted hpending
    rw [hother response hcompleted] at hpending
    cases hpending

/-- A step keeps such a wait. No request for more time makes it shorter, and it ends no sooner than
the timeout. -/
theorem step (h : o.Waited now s) (hlong : q.timeout ≤ c.pendingWait) (hnow : now ≤ later)
    (event : Event) :
    o.Waited later (s.step c q later event).after ∧
      (∀ response, (s.step c q later event).response? = some response →
        isPending response = true → s.deadline ≤ (s.step c q later event).after.deadline) ∧
      (s.isOver = false → (s.step c q later event).after.status = .unanswered →
        o.start + q.timeout.nanos ≤ later) := by
  cases event with
  | clock =>
      cases hover : s.isOver with
      | true =>
          rw [s.step_over hover]
          exact ⟨h.of_le hnow, nofun, nofun⟩
      | false =>
          have htick : (s.step c q later .clock).after = _ :=
            (Conversation.tick_open (c := c) (q := q) hover).1
          rw [htick]
          refine ⟨(h.of_le hnow).of_eq rfl rfl, nofun, fun _ hunanswered => ?_⟩
          dsimp only at hunanswered
          split at hunanswered
          next hlate => exact Nat.le_trans h.le_deadline hlate
          next => cases hunanswered
  | frame f =>
      obtain ⟨htold, hstep⟩ | ⟨content, htold, hheard⟩ := s.step_frame (c := c) (q := q) later f
      · rw [hstep]
        refine ⟨h.of_le hnow, fun _ _ _ => Nat.le_refl _, fun hopen hunanswered => ?_⟩
        rw [Conversation.isOver_eq_false_iff.mp hopen] at hunanswered
        cases hunanswered
      · obtain ⟨hwaited, hpending⟩ := h.hear hlong hnow hheard
        refine ⟨hwaited, fun response hresponse => ?_, fun hopen hunanswered => ?_⟩
        · exact hpending response (Conversation.feed_of_completes? htold hresponse)
        · exact absurd hunanswered (hheard.status_ne hopen)

theorem steps (h : o.Waited now s) (hlong : q.timeout ≤ c.pendingWait)
    {events : List (Instant × Event)} (hevents : Rising now (events.map (·.1))) :
    ∀ step ∈ s.steps c q events,
      (∀ response, step.response? = some response → isPending response = true →
        step.before.deadline ≤ step.after.deadline) ∧
      (step.before.isOver = false → step.after.status = .unanswered →
        o.start + q.timeout.nanos ≤ step.time) := by
  induction events generalizing now s with
  | nil => exact fun _ h => absurd h List.not_mem_nil
  | cons event rest ih =>
      obtain ⟨later, event⟩ := event
      obtain ⟨hafter, hstep⟩ := h.step hlong hevents.head event
      exact List.forall_mem_cons.mpr ⟨hstep, ih hafter hevents.tail⟩

end Waited

/-- The single frame with which a target asks for more time. -/
def pendingFrame (t : Target) : Frame where
  address := (o.ask t).1.address
  bus := q.bus
  data := t.wrap (ofHalves 0 3 :: [0x7F, 0x22, 0x78])

/-- A target that asks for more time at once is waited for until the pending wait from the start
ends. -/
theorem step_pendingFrame (t : Target) :
    ((o.ask t).1.step c q o.start (.frame (o.pendingFrame t))).response? =
        some [0x7F, 0x22, 0x78] ∧
      ((o.ask t).1.step c q o.start (.frame (o.pendingFrame t))).after.deadline =
        min (o.start + c.pendingWait.nanos) o.limit := by
  have htold : (o.ask t).1.told? (o.pendingFrame t) =
      some (ofHalves 0 3 :: [0x7F, 0x22, 0x78]) := by
    simp [Conversation.told?, pendingFrame, Conversation.isOver, ask, Conversation.begin,
      Target.content?_wrap]
  have hfeed : (o.ask t).1.receiver.feed (ofHalves 0 3 :: [0x7F, 0x22, 0x78]) =
      ((o.ask t).1.receiver.fresh, .completed [0x7F, 0x22, 0x78]) := by
    simpa using @Receiver.feed_single (o.ask t).1.receiver [0x7F, 0x22, 0x78] [] (by simp) (by simp)
  refine ⟨Conversation.completes?_of_feed htold hfeed, ?_⟩
  have hafter : ((o.ask t).1.step c q o.start (.frame (o.pendingFrame t))).after =
      { (o.ask t).1 with receiver := (o.ask t).1.receiver.fresh }.extend o.start c.pendingWait := by
    simp only [Conversation.step, Conversation.receive_eq, htold, Option.elim_some]
    exact Conversation.hear_of_pending hfeed rfl
  rw [hafter]
  exact Conversation.deadline_extend o.limit_le o.start c.pendingWait

end Opening

/-- Asking for more time lengthens the wait for a target exactly if the pending wait is no shorter
than the timeout of the query. -/
theorem lengthens_iff (o : Opening c q) (t : Target) :
    o.Lengthens t ↔ q.timeout ≤ c.pendingWait := by
  constructor
  · intro hlengthens
    obtain ⟨hresponse, hdeadline⟩ := o.step_pendingFrame t
    have hevents : Readings.events q.bus [(o.start, [o.pendingFrame t])] =
        [(o.start, .frame (o.pendingFrame t)), (o.start, .clock)] := by
      simp [Readings.events, Opening.pendingFrame]
    have hrising : Rising o.start [o.start] :=
      .cons (Nat.le_refl _) (List.pairwise_singleton ..)
    have hstep := hlengthens [(o.start, [o.pendingFrame t])] hrising
    rw [hevents] at hstep
    have hlater := (hstep _ List.mem_cons_self).1 _ hresponse rfl
    rw [hdeadline] at hlater
    exact Nat.le_of_add_le_add_left (Nat.le_trans hlater (Nat.min_le_left ..))
  · intro hlong readings hrising
    exact (Opening.Waited.ask hlong t).steps hlong (hrising.events q.bus)

/-- A query of one unit. -/
def patient (timeout : Span) : Query where
  bus := 0
  targets := [{ address := 0x7D0 }]
  exchanges := [{ request := [0x22, 0xF1, 0x90], expected := [0x62, 0xF1, 0x90] }]
  timeout

/-- With the default settings a wait of two seconds is lengthened, and one of ten is not. -/
theorem lengthens_default :
    (∃ o : Opening {} (patient { nanos := 2000000000 }),
      o.Lengthens { address := 0x7D0 }) ∧
    ∃ o : Opening {} (patient { nanos := 10000000000 }),
      ¬ o.Lengthens { address := 0x7D0 } := by
  have hexchanges : ∀ timeout, (patient timeout).exchanges =
    { request := [0x22, 0xF1, 0x90], expected := [0x62, 0xF1, 0x90] } :: [] := fun _ => rfl
  let short : Opening {} (patient { nanos := 2000000000 }) :=
    ⟨_, [], 0, 10000000000, hexchanges _, by decide⟩
  let long : Opening {} (patient { nanos := 10000000000 }) :=
    ⟨_, [], 0, 10000000000, hexchanges _, by decide⟩
  exact ⟨⟨short, (lengthens_iff short _).mpr (by decide)⟩,
    ⟨long, fun h => absurd ((lengthens_iff long _).mp h) (by decide)⟩⟩

/-- With the default settings, a target that has ten seconds is given up after four when it asks for
more time at once. -/
theorem given_up_early :
    ((engine {} Scripted.Playback.link 5 (patient { nanos := 10000000000 })
        { world := { readings :=
            [ { takes := { nanos := 10000000 },
                result := .ok [{ address := 0x7D8, bus := 0, data := [0x03, 0x7F, 0x22, 0x78] }] },
              { takes := { nanos := 4000000000 }, result := .ok [] },
              { takes := { nanos := 1000000000 },
                result := .ok [{ address := 0x7D8, bus := 0,
                                 data := [0x04, 0x62, 0xF1, 0x90, 0x2A] }] }] } }).map
      fun (result, after) => (result.toOption.map (·.entries.map (·.1)), after.world.clock)) =
      some (some [], 4010000000) := by
  decide +kernel

end EcuQuiet.IsoTp
