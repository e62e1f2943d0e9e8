import EcuQuiet.Proofs.Answers
import EcuQuiet.Proofs.IsoTp.Courses
import EcuQuiet.Proofs.IsoTp.Refusals
import EcuQuiet.Proofs.IsoTp.Segmentation

/-!
# Chains of requests

A query sends a target one request after the other, and each of them only when the one before has
had its response. The frames that a target is sent are, flow controls apart, beginnings of the
segmentations of the requests, in their order; every beginning but the first one starts in the step
that takes in the accepted response to the request before it. An answer means that all requests went
this way, and a target that has an answer, or was given up, is sent nothing more.
-/

namespace EcuQuiet.IsoTp

variable {c : Settings} {q : Query}

/-! ### Frames of requests -/

/-- The frames that carry a message to a target. -/
def Settings.segments (c : Settings) (bus : UInt8) (t : Target) (message : Bytes) : List Frame :=
  (segmentation (capacity t) message).map (c.frame bus t)

/-- The frames for a target that are no flow controls of ours. -/
def Settings.requests (c : Settings) (bus : UInt8) (t : Target) (frames : List Frame) :
    List Frame :=
  frames.filter (· ≠ c.frame bus t c.flowControl)

/-- What a frame to a target looks like: it is for the address of the target, on the bus, starts
with its extra address byte if it has one, and has eight bytes, or fewer if frames are not filled
up. -/
structure Settings.Addressed (c : Settings) (bus : UInt8) (t : Target) (f : Frame) : Prop where
  address : f.address = t.address
  bus : f.bus = bus
  length_le : f.data.length ≤ frameSize
  full : c.padded = true → f.data.length = frameSize
  subAddress : t.subAddress.toList <+: f.data

namespace Settings

variable (c) (bus : UInt8) (t : Target)

@[simp]
theorem requests_nil : c.requests bus t [] = [] := rfl

@[simp]
theorem requests_append (first rest : List Frame) :
    c.requests bus t (first ++ rest) = c.requests bus t first ++ c.requests bus t rest := by
  simp [requests]

@[simp]
theorem requests_flowControl : c.requests bus t [c.frame bus t c.flowControl] = [] := by
  simp [requests]

@[simp]
theorem requests_startFrame (message : Bytes) :
    c.requests bus t [c.startFrame bus t message] = [c.startFrame bus t message] := by
  simp [requests, c.startFrame_ne_flowControl bus t message]

variable {bus t}

theorem requests_of_segments {frames : List Frame} {message : Bytes}
    (h : ∀ f ∈ frames, f ∈ c.segments bus t message) : c.requests bus t frames = frames := by
  refine List.filter_eq_self.mpr fun f hf => ?_
  obtain ⟨content, hcontent, rfl⟩ := List.mem_map.mp (h f hf)
  simpa using c.frame_ne_flowControl bus t hcontent

theorem segments_eq_cons (message : Bytes) :
    c.segments bus t message = c.startFrame bus t message ::
      ((Sender.start (capacity t) message).2.remaining (capacity t)).map (c.frame bus t) := by
  rw [segments, ← Sender.start_remaining, List.map_cons, startFrame]

theorem addressed_frame {content : Bytes} (h : content.length ≤ capacity t) :
    c.Addressed bus t (c.frame bus t content) := by
  have hcapacity := capacity_eq t
  have hlength := length_wrap t content
  have hwrap : (t.wrap content).length ≤ frameSize := by
    simp only [frameSize] at hlength ⊢
    omega
  refine ⟨rfl, rfl, ?_, fun hpadded => ?_, ?_⟩
  · rw [frame]
    split
    · rw [pad, List.rightpad, List.length_append, List.length_replicate]
      omega
    · exact hwrap
  · rw [frame, if_pos hpadded, pad, List.rightpad, List.length_append, List.length_replicate]
    omega
  · have hprefix : t.subAddress.toList <+: t.wrap content := List.prefix_append ..
    rw [frame]
    split
    · exact hprefix.trans (List.prefix_append ..)
    · exact hprefix

theorem addressed_of_mem_segments {f : Frame} {message : Bytes}
    (h : f ∈ c.segments bus t message) : c.Addressed bus t f := by
  obtain ⟨content, hcontent, rfl⟩ := List.mem_map.mp h
  exact c.addressed_frame (length_of_mem_segmentation (Conversation.two_le_capacity t) hcontent)

theorem addressed_flowControl : c.Addressed bus t (c.frame bus t c.flowControl) := by
  have hcapacity := capacity_eq t
  refine c.addressed_frame ?_
  simp only [flowControl, List.length_cons, List.length_nil]
  omega

end Settings

/-! ### What a step does to a request -/

/-- A step that takes in an accepted response to an exchange. -/
structure Step.Accepts (step : Step) (e : Exchange) (response : Bytes) : Prop where
  completed : step.response? = some response
  positive : response.head? ≠ some Uds.negativeResponse
  accepted : e.accepts response = true

namespace Conversation

variable {now : Instant} {s : Conversation}

/-- A conversation that has sent the frames of its current request up to what its sender still has
to hand out. -/
structure Underway (c : Settings) (q : Query) (opening : List Frame) (s : Conversation) : Prop where
  nonempty : opening ≠ []
  live : s.sender.Live
  segments : opening ++ (s.sender.remaining (capacity s.target)).map (c.frame q.bus s.target) =
    c.segments q.bus s.target s.current.request

/-- What a step does to the request under way: it goes on with it, it moves on to the next one, or
it comes to the answer. Only in the last case does the target have an answer. -/
inductive Carries (c : Settings) (q : Query) (opening : List Frame) (step : Step) : Prop
  | stays
      (hunderway : Underway c q (opening ++ c.requests q.bus step.before.target step.frames)
        step.after)
      (hcurrent : step.after.current = step.before.current)
      (hlater : step.after.later = step.before.later)
      (hstatus : ∀ response, step.after.status ≠ .answered (.ok response))
  | moves {response : Bytes} (haccepts : step.Accepts step.before.current response)
      (hlater : step.before.later = step.after.current :: step.after.later)
      (hframes : c.requests q.bus step.before.target step.frames =
        [c.startFrame q.bus step.before.target step.after.current.request])
      (hunderway : Underway c q
        [c.startFrame q.bus step.before.target step.after.current.request] step.after)
      (hstatus : ∀ response, step.after.status ≠ .answered (.ok response))
  | answers {response : Bytes} (haccepts : step.Accepts step.before.current response)
      (hlater : step.before.later = [])
      (hframes : c.requests q.bus step.before.target step.frames = [])
      (hunderway : Underway c q opening step.after)
      (hstatus : step.after.status = .answered (.ok response))

theorem underway_start {t : Target} {e : Exchange} (htarget : s.target = t)
    (hcurrent : s.current = e) (hsender : s.sender = (Sender.start (capacity t) e.request).2) :
    Underway c q [c.startFrame q.bus t e.request] s := by
  refine ⟨List.cons_ne_nil _ _, hsender ▸ Sender.live_start t e.request, ?_⟩
  rw [hsender, hcurrent, htarget, c.segments_eq_cons, List.singleton_append]

namespace Underway

variable {opening : List Frame}

/-- Nothing but what has been sent, the sender, the target and the exchange tell whether a request
is under way. -/
theorem of_eq (h : Underway c q opening s) {after : Conversation}
    (htarget : after.target = s.target) (hcurrent : after.current = s.current)
    (hlive : after.sender.Live)
    (hremaining : after.sender.remaining (capacity s.target) =
      s.sender.remaining (capacity s.target)) : Underway c q opening after := by
  refine ⟨h.nonempty, hlive, ?_⟩
  rw [htarget, hcurrent, hremaining, h.segments]

theorem of_sender_eq (h : Underway c q opening s) {after : Conversation}
    (htarget : after.target = s.target) (hcurrent : after.current = s.current)
    (hsender : after.sender = s.sender) : Underway c q opening after :=
  h.of_eq htarget hcurrent (hsender ▸ h.live) (by rw [hsender])

/-- The clock lets the request go on. -/
theorem tick (h : Underway c q opening s) (hopen : s.isOver = false) (now : Instant) :
    Underway c q (opening ++ c.requests q.bus s.target (s.step c q now .clock).frames)
      (s.step c q now .clock).after := by
  have hsize := two_le_capacity s.target
  have hremaining :=
    @Sender.remaining_burstUpTo (capacity s.target) now s.sender hsize h.live s.sender.rest.length
  obtain ⟨hlive, -⟩ :=
    @Sender.burstUpTo_complete (capacity s.target) now s.sender hsize h.live _ (Nat.le_refl _)
  obtain ⟨hafter, hframes⟩ := @tick_open c q now s hopen
  have hstep : (s.step c q now .clock).after = _ := hafter
  have hsent : (s.step c q now .clock).frames =
      ((s.sender.burst (capacity s.target) now).map (·.1)).map (c.frame q.bus s.target) := by
    rw [List.map_map]
    exact hframes
  have hsegments := h.segments
  rw [hremaining, List.map_append, ← List.append_assoc] at hsegments
  have hrequests : c.requests q.bus s.target (s.step c q now .clock).frames =
      (s.step c q now .clock).frames := by
    rw [hsent]
    have hmem : ∀ f ∈ ((s.sender.burst (capacity s.target) now).map (·.1)).map
        (c.frame q.bus s.target), f ∈ c.segments q.bus s.target s.current.request := by
      intro f hf
      rw [← hsegments]
      exact List.mem_append_left _ (List.mem_append_right _ hf)
    exact c.requests_of_segments hmem
  rw [hrequests, hsent, hstep]
  exact ⟨List.append_ne_nil_of_left_ne_nil h.nonempty _, hlive, hsegments⟩

/-- A step that sends no frame of a request and leaves the sender what it had goes on with it. -/
theorem carries (h : Underway c q opening s) {step : Step} (hbefore : step.before = s)
    (hframes : c.requests q.bus s.target step.frames = [])
    (hcurrent : step.after.current = s.current) (hlater : step.after.later = s.later)
    (htarget : step.after.target = s.target) (hlive : step.after.sender.Live)
    (hremaining : step.after.sender.remaining (capacity s.target) =
      s.sender.remaining (capacity s.target))
    (hstatus : ∀ response, step.after.status ≠ .answered (.ok response)) :
    Carries c q opening step := by
  subst hbefore
  refine .stays ?_ hcurrent hlater hstatus
  rw [hframes, List.append_nil]
  exact h.of_eq htarget hcurrent hlive hremaining

/-- What is heard leaves the request as it is, moves on to the next one, or is the answer. -/
theorem hear (h : Underway c q opening s) (hopen : s.isOver = false) {step : Step}
    (hbefore : step.before = s) {content : Bytes}
    (hresponse : ∀ response, (s.receiver.feed content).2 = .completed response →
      step.response? = some response)
    (hheard : Hears c q now content s step.after step.frames) : Carries c q opening step := by
  have hwaiting := isOver_eq_false_iff.mp hopen
  have hlive := h.live
  generalize hframes : step.frames = frames at hheard
  generalize hafter : step.after = after at hheard
  cases hheard with
  | ignored => apply h.carries hbefore <;> simp [hframes, hafter, hwaiting, hlive]
  | part | held | pending => apply h.carries hbefore <;> simp [hframes, hafter, hwaiting, hlive]
  | due => apply h.carries hbefore <;> simp [hframes, hafter, hwaiting, hlive]
  | @granted sender _ hpermit =>
      have hgranted := Sender.live_granted hpermit hlive
      have hremaining : sender.remaining (capacity s.target) =
          s.sender.remaining (capacity s.target) := Sender.remaining_granted hpermit
      apply h.carries hbefore <;> simp [hframes, hafter, hwaiting, hgranted, hremaining]
  | halted | faulty | refused | unacceptable =>
      apply h.carries hbefore <;> simp [hframes, hafter, hlive, conclude]
  | answered hfeed hpositive haccepts hlater =>
      subst hbefore
      refine .answers ⟨hresponse _ (by rw [hfeed]), hpositive, haccepts⟩ hlater
        (by rw [hframes]; rfl) ?_ (by rw [hafter]; rfl)
      rw [hafter]
      exact h.of_sender_eq rfl rfl rfl
  | next hfeed hpositive haccepts hlater =>
      subst hbefore
      refine .moves ⟨hresponse _ (by rw [hfeed]), hpositive, haccepts⟩ ?_ ?_ ?_ ?_
      · rw [hafter, hlater]
      · rw [hframes, hafter, c.requests_startFrame]
      · rw [hafter]
        exact underway_start (by simp) rfl rfl
      · simp [hafter, hwaiting]

/-- Every step of a conversation that waits carries its request on in one of these ways. -/
theorem step (h : Underway c q opening s) (hopen : s.isOver = false) (now : Instant)
    (event : Event) : Carries c q opening (s.step c q now event) := by
  cases event with
  | frame f =>
      obtain ⟨-, hstep⟩ | ⟨content, htold, hheard⟩ := s.step_frame (c := c) (q := q) now f
      · rw [hstep]
        have hwaiting := isOver_eq_false_iff.mp hopen
        apply h.carries rfl <;> simp [Step.frames, hwaiting, h.live]
      · refine h.hear hopen rfl (fun response hcompleted => ?_) hheard
        cases hfeed : s.receiver.feed content with
        | mk receiver reception =>
            rw [hfeed] at hcompleted
            exact completes?_of_feed htold (hfeed.trans (congrArg _ hcompleted))
  | clock =>
      obtain ⟨hafter, -⟩ := @tick_open c q now s hopen
      have hstep : (s.step c q now .clock).after = _ := hafter
      refine .stays (h.tick hopen now) (by rw [hstep]; rfl) (by rw [hstep]; rfl) fun response => ?_
      rw [hstep]
      dsimp only
      split <;> simp

end Underway

end Conversation

/-! ### Legs of a chain -/

/-- The legs of a chain of requests to a target, one for each exchange that has begun: `opening` was
sent of the first one before the steps. -/
structure Legs (c : Settings) (bus : UInt8) (t : Target) (opening : List Frame)
    (exchanges : List Exchange) (steps : List Step) (legs : List (List Frame)) : Prop where
  /-- A leg is a beginning of the frames of its request. -/
  segments : ∀ (k : Nat) (leg : List Frame), legs[k]? = some leg → leg ≠ [] ∧
    ∃ e : Exchange, exchanges[k]? = some e ∧ leg <+: c.segments bus t e.request
  /-- A further leg starts when those before it have been sent, in a step that takes in an accepted
  response to the last request of these. -/
  moves : ∀ (k : Nat) (leg : List Frame), legs[k + 1]? = some leg →
    ∃ (before : List Step) (step : Step) (after : List Step) (e : Exchange) (response : Bytes),
    steps = before ++ step :: after ∧ exchanges[k]? = some e ∧ step.Accepts e response ∧
      opening ++ c.requests bus t (before.flatMap Step.frames) = (legs.take (k + 1)).flatten ∧
      c.requests bus t step.frames = leg.take 1

/-- All exchanges have begun, and when all frames of the requests had been sent, the response to the
last one was taken in. -/
structure Completes (c : Settings) (bus : UInt8) (t : Target) (opening : List Frame)
    (exchanges : List Exchange) (steps : List Step) (legs : List (List Frame))
    (response : Bytes) : Prop where
  length_eq : legs.length = exchanges.length
  accepts : ∃ (before : List Step) (step : Step) (after : List Step) (e : Exchange),
    steps = before ++ step :: after ∧ exchanges.getLast? = some e ∧ step.Accepts e response ∧
    opening ++ c.requests bus t (before.flatMap Step.frames) = legs.flatten

section Legs

variable {bus : UInt8} {t : Target} {opening sent : List Frame} {exchanges : List Exchange}
  {e : Exchange} {step : Step} {steps : List Step} {legs : List (List Frame)} {response : Bytes}

theorem Legs.single (hopening : opening ≠ []) (hsegments : opening <+: c.segments bus t e.request) :
    Legs c bus t opening (e :: exchanges) steps [opening] := by
  refine ⟨fun k leg hleg => ?_, fun k leg hleg => ?_⟩
  · cases k with
    | zero =>
        obtain rfl : opening = leg := by simpa using hleg
        exact ⟨hopening, e, rfl, hsegments⟩
    | succ k => simp at hleg
  · simp at hleg

/-- A step that goes on with the first leg. -/
theorem Legs.cons_stays (h : Legs c bus t (opening ++ c.requests bus t step.frames) exchanges steps
    legs) : Legs c bus t opening exchanges (step :: steps) legs := by
  refine ⟨h.segments, fun k leg hleg => ?_⟩
  obtain ⟨before, move, after, e, response, rfl, he, haccepts, hsent, hmove⟩ := h.moves k leg hleg
  refine ⟨step :: before, move, after, e, response, rfl, he, haccepts, ?_, hmove⟩
  simpa [List.append_assoc] using hsent

theorem Completes.cons_stays (h : Completes c bus t (opening ++ c.requests bus t step.frames)
    exchanges steps legs response) :
    Completes c bus t opening exchanges (step :: steps) legs response := by
  obtain ⟨hlength, before, final, after, e, rfl, he, haccepts, hsent⟩ := h
  refine ⟨hlength, step :: before, final, after, e, rfl, he, haccepts, ?_⟩
  simpa [List.append_assoc] using hsent

/-- A step that moves on to a further leg. -/
theorem Legs.cons_moves {f : Frame} (h : Legs c bus t [f] exchanges steps legs)
    (hsent : [f] ++ sent = legs.flatten) (hstep : c.requests bus t step.frames = [f])
    (haccepts : step.Accepts e response) (hopening : opening ≠ [])
    (hsegments : opening <+: c.segments bus t e.request) :
    Legs c bus t opening (e :: exchanges) (step :: steps) (opening :: legs) := by
  refine ⟨fun k leg hleg => ?_, fun k leg hleg => ?_⟩
  · cases k with
    | zero =>
        obtain rfl : opening = leg := by simpa using hleg
        exact ⟨hopening, e, rfl, hsegments⟩
    | succ k => simpa using h.segments k leg (by simpa using hleg)
  · cases k with
    | zero =>
        have hfirst : legs[0]? = some leg := by simpa using hleg
        obtain ⟨rest, rfl⟩ : ∃ rest, legs = leg :: rest := by
          cases legs with
          | nil => simp at hfirst
          | cons head rest => exact ⟨rest, by simpa using hfirst⟩
        obtain ⟨frame, frames, rfl⟩ := List.exists_cons_of_ne_nil (h.segments 0 leg hfirst).1
        obtain rfl : f = frame := by simpa using (List.cons.inj hsent).1
        exact ⟨[], step, steps, e, response, rfl, rfl, haccepts, by simp, by simpa using hstep⟩
    | succ k =>
        obtain ⟨before, move, after, e', response', rfl, he, haccepts', hbefore, hmove⟩ :=
          h.moves k leg (by simpa using hleg)
        refine ⟨step :: before, move, after, e', response', rfl, by simpa using he, haccepts', ?_,
          hmove⟩
        simp [hstep, ← hbefore]

theorem Completes.cons_moves {f : Frame} (h : Completes c bus t [f] exchanges steps legs response)
    (hstep : c.requests bus t step.frames = [f]) :
    Completes c bus t opening (e :: exchanges) (step :: steps) (opening :: legs) response := by
  obtain ⟨hlength, before, final, after, last, rfl, hlast, haccepts, hsent⟩ := h
  refine ⟨by simp [hlength], step :: before, final, after, last, rfl, ?_, haccepts, ?_⟩
  · simp [List.getLast?_cons, hlast]
  · simp [hstep, ← hsent]

end Legs

namespace Conversation

variable {s : Conversation} {opening : List Frame}

theorem frames_steps_over (hover : s.isOver = true) (events : List (Instant × Event)) :
    (s.steps c q events).flatMap Step.frames = [] := by
  refine List.flatMap_eq_nil_iff.mpr fun step hstep => ?_
  rw [Step.frames, (steps_over hover events step hstep).2.2]
  rfl

theorem Underway.opening_prefix (h : Underway c q opening s) :
    opening <+: c.segments q.bus s.target s.current.request := by
  rw [← h.segments]
  exact List.prefix_append ..

/-- What a conversation sends from now on continues its request and chains the later ones to it. -/
theorem Underway.exists_legs (h : Underway c q opening s)
    (hstatus : ∀ response, s.status ≠ .answered (.ok response))
    (events : List (Instant × Event)) : ∃ legs,
      opening ++ c.requests q.bus s.target ((s.steps c q events).flatMap Step.frames) =
        legs.flatten ∧
      Legs c q.bus s.target opening (s.current :: s.later) (s.steps c q events) legs ∧
      ∀ response, (s.through c q events).status = .answered (.ok response) →
        Completes c q.bus s.target opening (s.current :: s.later) (s.steps c q events) legs
          response := by
  -- `opening` is what has been sent of the request under way: a step that goes on with the request
  -- adds to it, and one that moves on to the next request starts it anew
  induction events generalizing s opening with
  | nil =>
      exact ⟨[opening], by simp [steps], .single h.nonempty h.opening_prefix,
        fun response hresponse => absurd hresponse (hstatus response)⟩
  | cons event rest ih =>
      obtain ⟨now, event⟩ := event
      cases hover : s.isOver with
      | true =>
          refine ⟨[opening], ?_, .single h.nonempty h.opening_prefix, fun response hresponse => ?_⟩
          · rw [frames_steps_over hover]
            simp
          · rw [through_over hover] at hresponse
            exact absurd hresponse (hstatus response)
      | false =>
          have htarget := target_step (c := c) (q := q) now event s
          have hbefore : (s.step c q now event).before = s := rfl
          rw [steps, List.flatMap_cons, Settings.requests_append, through_cons]
          cases h.step hover now event with
          | stays hafter hcurrent hlater hstatus =>
              obtain ⟨legs, hsent, hlegs, hcompletes⟩ := ih hafter hstatus
              rw [hbefore] at hcurrent hlater hsent hlegs hcompletes
              rw [htarget, hcurrent, hlater] at hlegs hcompletes
              rw [htarget, List.append_assoc] at hsent
              exact ⟨legs, hsent, hlegs.cons_stays,
                fun response hresponse => (hcompletes response hresponse).cons_stays⟩
          | moves haccepts hlater hframes hafter hstatus =>
              obtain ⟨legs, hsent, hlegs, hcompletes⟩ := ih hafter hstatus
              rw [hbefore] at haccepts hlater hframes hsent hlegs hcompletes
              rw [htarget] at hsent hlegs hcompletes
              rw [hframes, hlater]
              refine ⟨opening :: legs, by rw [hsent, List.flatten_cons],
                hlegs.cons_moves hsent hframes haccepts h.nonempty h.opening_prefix,
                fun response hresponse => (hcompletes response hresponse).cons_moves hframes⟩
          | answers haccepts hlater hframes hafter hstatus =>
              have hdone : (s.step c q now event).after.isOver = true := by
                rw [isOver, hstatus]
              rw [hbefore] at haccepts hlater hframes
              rw [hframes, frames_steps_over hdone, hlater]
              refine ⟨[opening], by simp, .single h.nonempty h.opening_prefix,
                fun response hresponse => ?_⟩
              rw [through_over hdone, hstatus] at hresponse
              cases hresponse
              exact ⟨rfl, [], _, _, s.current, rfl, rfl, haccepts, by simp⟩

end Conversation

/-! ### What was sent of a chain -/

/-- A beginning of nonempty parts put together is some of the parts and a beginning of the next. -/
theorem exists_flatten_of_prefix {α : Type} {parts : List (List α)} (hparts : [] ∉ parts)
    {sent : List α} (h : sent <+: parts.flatten) : ∃ begun : List (List α), begun.flatten = sent ∧
      ∀ (k : Nat) (first : List α), begun[k]? = some first → first ≠ [] ∧
        begun.take k = parts.take k ∧ ∃ part, parts[k]? = some part ∧ first <+: part := by
  induction parts generalizing sent with
  | nil => exact ⟨[], (List.prefix_nil.mp h).symm, nofun⟩
  | cons part rest ih =>
      rw [List.mem_cons, not_or] at hparts
      obtain ⟨hpart, hrest⟩ := hparts
      rw [List.flatten_cons] at h
      obtain hfirst | ⟨later, rfl⟩ := List.prefix_or_prefix_of_prefix h (List.prefix_append part _)
      · by_cases hsent : sent = []
        · exact ⟨[], hsent.symm, nofun⟩
        · refine ⟨[sent], by simp, fun k first hk => ?_⟩
          cases k with
          | zero =>
              obtain rfl : sent = first := by simpa using hk
              exact ⟨hsent, rfl, part, rfl, hfirst⟩
          | succ k => simp at hk
      · obtain ⟨begun, rfl, hbegun⟩ := ih hrest ((List.prefix_append_right_inj part).mp h)
        refine ⟨part :: begun, rfl, fun k first hk => ?_⟩
        cases k with
        | zero =>
            obtain rfl : part = first := by simpa using hk
            exact ⟨Ne.symm hpart, rfl, part, rfl, List.prefix_rfl⟩
        | succ k =>
            obtain ⟨hfirst, htake, hfound⟩ := hbegun k first (by simpa using hk)
            exact ⟨hfirst, by simp [htake], by simpa using hfound⟩

/-- The legs of what was sent up to some point. -/
theorem Legs.of_prefix {bus : UInt8} {t : Target} {opening sent : List Frame}
    {exchanges : List Exchange} {steps : List Step} {legs : List (List Frame)}
    (h : Legs c bus t opening exchanges steps legs) (hsent : sent <+: legs.flatten) :
    ∃ begun, begun.flatten = sent ∧ Legs c bus t opening exchanges steps begun := by
  have hparts : [] ∉ legs := by
    intro hmem
    obtain ⟨k, hk⟩ := List.mem_iff_getElem?.mp hmem
    exact (h.segments k [] hk).1 rfl
  obtain ⟨begun, rfl, hbegun⟩ := exists_flatten_of_prefix hparts hsent
  refine ⟨begun, rfl, fun k leg hleg => ?_, fun k leg hleg => ?_⟩
  · obtain ⟨hne, -, part, hpart, hprefix⟩ := hbegun k leg hleg
    obtain ⟨-, e, he, hsegments⟩ := h.segments k part hpart
    exact ⟨hne, e, he, hprefix.trans hsegments⟩
  · obtain ⟨hne, htake, part, hpart, ⟨rest, rfl⟩⟩ := hbegun (k + 1) leg hleg
    obtain ⟨before, step, after, e, response, hsteps, he, haccepts, hbefore, hmove⟩ :=
      h.moves k _ hpart
    refine ⟨before, step, after, e, response, hsteps, he, haccepts, htake ▸ hbefore, ?_⟩
    rw [hmove, List.take_append_of_le_length (List.length_pos_of_ne_nil hne)]

/-- What a query sends to a target, and when: the steps are those of its conversation. -/
structure Chained (c : Settings) (q : Query) (t : Target) (opening : Frame)
    (result : Except DiagnosticError Answers) (steps : List Step) (sent : List Frame) : Prop where
  sent_prefix : sent <+: opening :: steps.flatMap Step.frames
  /-- In a run that does not fail, all is sent that the steps ask for. -/
  whole : ∀ answers, result = .ok answers → sent = opening :: steps.flatMap Step.frames
  addressed : ∀ f ∈ sent, c.Addressed q.bus t f
  /-- Once the target has an answer or was given up, it is sent nothing more. -/
  silent : ∀ before step after, steps = before ++ step :: after → step.after.isOver = true →
    ∀ later ∈ after, later.frames = []
  /-- Without flow controls, what is sent are the legs of a chain, and with an answer all of it. -/
  legs : ∃ legs, c.requests q.bus t sent = legs.flatten ∧
    Legs c q.bus t [opening] q.exchanges steps legs ∧
    ∀ answers response, result = .ok answers → answers.get? t = some (.ok response) →
      Completes c q.bus t [opening] q.exchanges steps legs response

theorem Conversation.eq_steps_of_append {events : List (Instant × Event)} {s : Conversation}
    {before after : List Step} {step : Step}
    (h : s.steps c q events = before ++ step :: after) :
    ∃ rest, after = step.after.steps c q rest := by
  induction events generalizing s before with
  | nil => simp [steps] at h
  | cons event events ih =>
      cases before with
      | nil =>
          obtain ⟨rfl, rfl⟩ := List.cons.inj h
          exact ⟨events, rfl⟩
      | cons first before => exact ih (List.cons.inj h).2

/-- Nothing but frames of the chain and flow controls of ours is sent to a target. -/
theorem Legs.addressed {bus : UInt8} {t : Target} {opening sent : List Frame}
    {exchanges : List Exchange} {steps : List Step} {legs : List (List Frame)}
    (h : Legs c bus t opening exchanges steps legs)
    (hsent : c.requests bus t sent = legs.flatten) : ∀ f ∈ sent, c.Addressed bus t f := by
  intro f hf
  by_cases hflow : f = c.frame bus t c.flowControl
  · rw [hflow]
    exact c.addressed_flowControl
  · have hrequest : f ∈ c.requests bus t sent := List.mem_filter.mpr ⟨hf, by simpa using hflow⟩
    rw [hsent] at hrequest
    obtain ⟨leg, hleg, hf⟩ := List.mem_flatten.mp hrequest
    obtain ⟨k, hk⟩ := List.mem_iff_getElem?.mp hleg
    obtain ⟨-, e, -, hsegments⟩ := h.segments k leg hk
    exact c.addressed_of_mem_segments (hsegments.subset hf)

/-- The frames of the whole course for one target: the first one of its first request, and those of
the steps of its conversation. -/
theorem Opening.frames_share_course (o : Opening c q) {i : Nat} {t : Target}
    (h : q.targets[i]? = some t) (events : List (Instant × Event)) :
    (Deed.sends (Deed.share i (o.course events))).map (·.2) =
      c.startFrame q.bus t o.first.request ::
        ((o.ask t).1.steps c q events).flatMap Step.frames := by
  rw [o.sends_share_course h]
  simp [List.map_flatMap, Function.comp_def]

/-- What the course of a query has sent to a target at some point makes a chain; answers must have
come of the whole course. -/
theorem Opening.chained (o : Opening c q) {t : Target} {events : List (Instant × Event)}
    {result : Except DiagnosticError Answers} {sent : List Frame}
    (hsent : sent <+: c.startFrame q.bus t o.first.request ::
      ((o.ask t).1.steps c q events).flatMap Step.frames)
    (hwhole : ∀ answers, result = .ok answers → sent = c.startFrame q.bus t o.first.request ::
      ((o.ask t).1.steps c q events).flatMap Step.frames)
    (hanswers : ∀ answers response, result = .ok answers →
      answers.get? t = some (.ok response) →
        (o.after events t).status = .answered (.ok response)) :
    Chained c q t (c.startFrame q.bus t o.first.request) result ((o.ask t).1.steps c q events)
      sent := by
  have hunderway : (o.ask t).1.Underway c q [c.startFrame q.bus t o.first.request] :=
    Conversation.underway_start rfl rfl rfl
  have hwaiting : ∀ response, (o.ask t).1.status ≠ .answered (.ok response) := nofun
  have hexchanges : (o.ask t).1.current :: (o.ask t).1.later = q.exchanges := o.exchanges.symm
  have htarget : (o.ask t).1.target = t := rfl
  obtain ⟨all, hall, hlegs, hcompletes⟩ := hunderway.exists_legs hwaiting events
  rw [hexchanges, htarget] at hlegs hcompletes
  have hrequests : c.requests q.bus t (c.startFrame q.bus t o.first.request ::
      ((o.ask t).1.steps c q events).flatMap Step.frames) = all.flatten := by
    rw [← List.singleton_append, Settings.requests_append, Settings.requests_startFrame, ← hall,
      htarget]
  have hbegun : c.requests q.bus t sent <+: all.flatten := hrequests ▸ hsent.filter _
  have hchain : ∃ legs, c.requests q.bus t sent = legs.flatten ∧
      Legs c q.bus t [c.startFrame q.bus t o.first.request] q.exchanges
        ((o.ask t).1.steps c q events) legs ∧
      ∀ answers response, result = .ok answers → answers.get? t = some (.ok response) →
        Completes c q.bus t [c.startFrame q.bus t o.first.request] q.exchanges
          ((o.ask t).1.steps c q events) legs response := by
    -- answers come of the whole course, so that nothing of the chain is missing then
    cases result with
    | ok answers =>
        exact ⟨all, hwhole answers rfl ▸ hrequests, hlegs, fun answers response hresult hget =>
          hcompletes response (hanswers answers response hresult hget)⟩
    | error reason =>
        obtain ⟨legs, hflatten, hlegs⟩ := hlegs.of_prefix hbegun
        exact ⟨legs, hflatten.symm, hlegs, nofun⟩
  refine ⟨hsent, hwhole, ?_, fun before step after hsteps hover => ?_, hchain⟩
  · obtain ⟨legs, hflatten, hlegs, -⟩ := hchain
    exact hlegs.addressed hflatten
  · obtain ⟨rest, rfl⟩ := Conversation.eq_steps_of_append hsteps
    intro later hlater
    rw [Step.frames, (Conversation.steps_over hover rest later hlater).2.2]
    rfl

/-- Over every link, what a query that waits sends to a target makes a chain of its requests. If it
cannot work with its arguments, it says so and sends nothing. Otherwise it begins when it first
reads the clock; the frames that it gives to the link are those of the course that follows from what
its record says was received and read, and all of them unless the last one cannot be sent; and the
share of every target in them is such a chain. -/
theorem requests_chained (c : Settings) (q : Query) {σ : Type} (link : Link σ) {rounds : Nat}
    {w : Logged σ} {result : Except DiagnosticError Answers} {record : Logged (Recorded σ)}
    (htimeout : q.timeout ≠ .zero)
    (hrun : engine c link.recorded rounds q (Recorded.blank w) = some (result, record)) :
    (Refused c q (link.now w.world).1 ∧ result = .error .invalidParameter ∧
        Use.frames record.world.uses.toList = []) ∨
      (¬Refused c q (link.now w.world).1 ∧
        ∃ (o : Opening c q) (rest : List Use) (events : List (Instant × Event))
            (done : List Deed),
          record.world.uses.toList = .read o.start :: rest ∧
          events = Readings.events q.bus (Readings.ofUses record.world.uses.toList) ∧
          Account (o.course events) (q.targets.map (o.after events)) result
            record.world.uses.toList done ∧
          ∀ i t, q.targets[i]? = some t →
            Chained c q t (c.startFrame q.bus t o.first.request) result
              ((o.ask t).1.steps c q events) ((Deed.sends (Deed.share i done)).map (·.2))) := by
  have hqueried := (engine_records link c q rounds).from_blank hrun
  by_cases hrefused : Refused c q (link.now w.world).1
  · have hrecorded : Refused c q (link.recorded.now (Recorded.blank w).world).1 := hrefused
    obtain ⟨rfl, hworld⟩ := ends_of_refused hrecorded hrun
    refine .inl ⟨hrefused, rfl, ?_⟩
    cases hworld with
    | inl hworld | inr hworld =>
        rw [hworld]
        rfl
  refine .inr ⟨hrefused, ?_⟩
  obtain ⟨rfl, -⟩ | ⟨o, rest, done, huses, haccount⟩ := hqueried.course htimeout
  · exact absurd (refused_of_run hrun) hrefused
  refine ⟨o, rest, _, done, huses, rfl, haccount, fun i t ht => ?_⟩
  refine o.chained ?_ (fun answers hresult => ?_) fun answers response hresult hget => ?_
  · rw [← o.frames_share_course ht]
    exact ((haccount.begins.filter _).filterMap _).map _
  · subst hresult
    rw [haccount.of_ok.1, o.frames_share_course ht]
  · subst hresult
    obtain ⟨-, -, rfl⟩ := haccount.of_ok
    exact (o.get?_answers_eq_some_iff.mp hget).2

/-- A query that enters a session and then writes, to a unit behind a gateway and to another one. -/
def writing : Query where
  bus := 0
  targets := [{ address := 0x7D0, subAddress := some 0x0F }, { address := 0x7E0 }]
  exchanges :=
    [{ request := [0x10, 0x03], expected := [0x50, 0x03] },
      { request := [0x2E, 0xF1, 0x90, 1, 2, 3, 4, 5, 6, 7], expected := [0x6E, 0xF1, 0x90] }]
  timeout := .ofMillis 1000

/-- A bus on which the first unit does what it is asked, and the other one refuses the session. -/
def obliging : Scripted.Playback where
  readings :=
    [{ takes := .ofMillis 10
       result := .ok
        [{ address := 0x7E8, bus := 0, data := [0x03, 0x7F, 0x10, 0x22] },
          { address := 0x7D8, bus := 0, data := [0x0F, 0x02, 0x50, 0x03] }] },
      { takes := .ofMillis 10
        result := .ok [{ address := 0x7D8, bus := 0, data := [0x0F, 0x30, 0x00, 0x00] }] },
      { takes := .ofMillis 10
        result := .ok [{ address := 0x7D8, bus := 0, data := [0x0F, 0x03, 0x6E, 0xF1, 0x90] }] }]

theorem requests_chained_writing :
    ∃ (answers : Answers) (record : Logged (Recorded Scripted.Playback)) (o : Opening {} writing)
      (rest : List Use) (events : List (Instant × Event)) (done : List Deed),
      engine {} Scripted.Playback.link.recorded 5 writing (Recorded.blank { world := obliging }) =
        some (.ok answers, record) ∧
      answers.get? { address := 0x7D0, subAddress := some 0x0F } = some (.ok [0x6E, 0xF1, 0x90]) ∧
      record.world.uses.toList = .read o.start :: rest ∧
      events = Readings.events 0 (Readings.ofUses record.world.uses.toList) ∧
      Account (o.course events) (writing.targets.map (o.after events)) (.ok answers)
        record.world.uses.toList done ∧
      Chained {} writing { address := 0x7D0, subAddress := some 0x0F }
        (Settings.startFrame {} 0 { address := 0x7D0, subAddress := some 0x0F } [0x10, 0x03])
        (.ok answers)
        ((o.ask { address := 0x7D0, subAddress := some 0x0F }).1.steps {} writing events)
        ((Deed.sends (Deed.share 0 done)).map (·.2)) := by
  obtain ⟨answers, record, hrun, hget⟩ := Answers.exists_of_response
    (x := engine {} Scripted.Playback.link.recorded 5 writing)
    (w := Recorded.blank { world := obliging })
    { address := 0x7D0, subAddress := some 0x0F } [0x6E, 0xF1, 0x90] (by decide +kernel)
  obtain ⟨-, hresult, -⟩ | ⟨-, o, rest, events, done, huses, hevents, haccount, hchained⟩ :=
    requests_chained {} writing Scripted.Playback.link (by decide) hrun
  · cases hresult
  · have hfirst : o.first.request = [0x10, 0x03] := by
      have hexchanges : { request := [0x10, 0x03], expected := [0x50, 0x03] } :: _ =
        o.first :: o.later := o.exchanges
      rw [← (List.cons.inj hexchanges).1]
    have htarget := hchained 0 { address := 0x7D0, subAddress := some 0x0F } rfl
    rw [hfirst] at htarget
    exact ⟨answers, record, o, rest, events, done, hrun, hget, huses, hevents, haccount, htarget⟩

end EcuQuiet.IsoTp
