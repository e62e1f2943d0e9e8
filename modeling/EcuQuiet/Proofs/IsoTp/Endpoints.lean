import EcuQuiet.Proofs.IsoTp.Endings
import EcuQuiet.Proofs.IsoTp.Waiting

/-!
# A conversation and its endpoint

A conversation never changes the endpoint it is about. Every frame it sends is for that endpoint,
and frames that say nothing to the endpoint are lost on it, so that they can be taken out of a batch
without any difference to what the round does and notes.
-/

namespace EcuQuiet.IsoTp

theorem Output.mem_frames_iff {outputs : List Output} {f : Frame} :
    f ∈ Output.frames outputs ↔ .send f ∈ outputs := by
  induction outputs with
  | nil => simp
  | cons output rest ih => cases output <;> simp [ih]

namespace Conversation

/-- A conversation about an endpoint, which it listens to on the address that the endpoint answers
on. -/
structure About (c : Settings) (t : Target) (s : Conversation) : Prop where
  target : s.target = t
  address : s.address = responseAddress t.address c.responseOffset

variable {c : Settings} {q : Query} {t : Target} {s : Conversation}

@[simp]
theorem address_extend (s : Conversation) (now : Instant) (wait : Span) :
    (s.extend now wait).address = s.address := by
  simp only [extend]

theorem Hears.address {now : Instant} {content : Bytes} {after : Conversation}
    {frames : List Frame} (h : Hears c q now content s after frames) :
    after.address = s.address := by
  cases h <;> simp [conclude]

theorem address_step (now : Instant) (event : Event) (s : Conversation) :
    (s.step c q now event).after.address = s.address := by
  cases event with
  | frame f =>
      obtain ⟨-, hstep⟩ | ⟨content, -, hheard⟩ := s.step_frame (c := c) (q := q) now f
      · rw [hstep]
      · exact hheard.address
  | clock =>
      cases hover : s.isOver with
      | true => rw [step_over hover]
      | false =>
          have htick : (s.step c q now .clock).after = _ :=
            (tick_open (c := c) (q := q) hover).1
          rw [htick]

/-- What is sent on hearing something is for the target. -/
theorem Hears.frames_for {now : Instant} {content : Bytes} {after : Conversation}
    {frames : List Frame} (h : Hears c q now content s after frames) :
    ∀ f ∈ frames, ∃ content, f = c.frame q.bus s.target content := by
  cases h with
  | due => exact List.forall_mem_singleton.mpr ⟨_, rfl⟩
  | next => exact List.forall_mem_singleton.mpr ⟨_, rfl⟩
  | _ => exact fun _ hf => absurd hf List.not_mem_nil

theorem frames_step_for (now : Instant) (event : Event) (s : Conversation) :
    ∀ f ∈ (s.step c q now event).frames, ∃ content, f = c.frame q.bus s.target content := by
  cases event with
  | frame f =>
      obtain ⟨-, hstep⟩ | ⟨content, -, hheard⟩ := s.step_frame (c := c) (q := q) now f
      · rw [hstep]
        exact fun _ hf => absurd hf List.not_mem_nil
      · exact hheard.frames_for
  | clock =>
      cases hover : s.isOver with
      | true =>
          rw [step_over hover]
          exact fun _ hf => absurd hf List.not_mem_nil
      | false =>
          have hframes : (s.step c q now .clock).frames = _ :=
            (tick_open (c := c) (q := q) hover).2
          rw [hframes]
          intro f hf
          obtain ⟨⟨content, after⟩, -, rfl⟩ := List.mem_map.mp hf
          exact ⟨content, rfl⟩

namespace About

theorem begin (first : Exchange) (later : List Exchange) (start limit : Instant) :
    (Conversation.begin c q first later start limit t).1.About c t := ⟨rfl, rfl⟩

theorem step (h : s.About c t) (now : Instant) (event : Event) :
    (s.step c q now event).after.About c t :=
  ⟨(target_step now event s).trans h.target, (address_step now event s).trans h.address⟩

/-- What says nothing to the endpoint tells the conversation nothing. -/
theorem told?_eq_none (h : s.About c t) {f : Frame} (hsaid : said? c t f = none) :
    s.told? f = none := by
  rw [told?]
  split
  next hopen =>
    have haddress := (Bool.and_eq_true_iff.mp hopen).2
    rw [decide_eq_true_eq, h.address] at haddress
    rw [said?, if_pos haddress.symm] at hsaid
    rw [h.target, hsaid]
  next => rfl

end About

end Conversation

namespace Round

variable {c : Settings} {q : Query} {t : Target} {all : List Conversation}

theorem about_play (hall : ∀ s ∈ all, s.About c t) (now : Instant) (batch : List Frame) :
    ∀ s ∈ (play c q now batch all).1, s.About c t := by
  intro s hs
  obtain ⟨heard, hheard, rfl⟩ :=
    play_keeps (fun s now f h => h.step now (.frame f)) now batch hall hs
  exact hheard.step now .clock

/-- Conversations about an endpoint send frames to nothing else. -/
theorem frames_course_for (hall : ∀ s ∈ all, s.About c t) (events : List (Instant × Event)) :
    ∀ f ∈ Output.frames (Deed.outputs (course c q events all)),
      ∃ content, f = c.frame q.bus t content := by
  induction events generalizing all with
  | nil => exact fun _ hf => absurd hf List.not_mem_nil
  | cons event rest ih =>
      obtain ⟨now, event⟩ := event
      intro f hf
      rw [course, Deed.outputs_append, Output.frames_append, List.mem_append] at hf
      rcases hf with hf | hf
      · rw [Deed.outputs_ofAll, Output.mem_frames_iff, List.mem_flatten] at hf
        obtain ⟨outputs, houtputs, hf⟩ := hf
        obtain ⟨s, hs, rfl⟩ := List.mem_map.mp houtputs
        rw [← (hall s hs).target]
        exact s.frames_step_for now event f (Output.mem_frames_iff.mpr hf)
      · refine ih (fun s hs => ?_) f hf
        obtain ⟨earlier, hearlier, rfl⟩ := List.mem_map.mp hs
        exact (hall earlier hearlier).step now event

theorem frames_play_for (hall : ∀ s ∈ all, s.About c t) (now : Instant) (batch : List Frame) :
    ∀ f, .send f ∈ (play c q now batch all).2 → ∃ content, f = c.frame q.bus t content := by
  intro f hf
  rw [play_eq] at hf
  exact frames_course_for hall _ f (Output.mem_frames_iff.mpr hf)

/-- A frame that says nothing to the endpoint changes no conversation about it, and nothing is done
about it. -/
theorem each_unsaid (hall : ∀ s ∈ all, s.About c t) {f : Frame} (hsaid : said? c t f = none)
    (now : Instant) : each (Conversation.receive c q now f) all = (all, []) := by
  have hunheard : ∀ s ∈ all, s.receive c q now f = (s, []) := by
    intro s hs
    rw [Conversation.receive_eq, (hall s hs).told?_eq_none hsaid]
    rfl
  rw [each, List.map_congr_left hunheard]
  simp [Function.comp_def]

theorem deliver_said (now : Instant) (frames : List Frame) (hall : ∀ s ∈ all, s.About c t) :
    deliver c q now (frames.filter fun f => (said? c t f).isSome) all =
      deliver c q now frames all := by
  induction frames generalizing all with
  | nil => rfl
  | cons f rest ih =>
      rw [List.filter_cons]
      split
      next =>
        have hheard : ∀ s ∈ (each (Conversation.receive c q now f) all).1, s.About c t := by
          intro s hs
          simp only [each, List.map_map, List.mem_map, Function.comp_apply] at hs
          obtain ⟨earlier, hearlier, rfl⟩ := hs
          exact (hall earlier hearlier).step now (.frame f)
        dsimp only [deliver]
        rw [ih hheard]
      next hunsaid =>
        -- the frame is left out, but showing it would have changed no conversation
        have hnothing := each_unsaid (q := q) hall (by simpa using hunsaid) now
        rw [deliver, hnothing, ih hall]
        rfl

/-- A round does the same about a batch as about those of its frames that say something to the
endpoint. -/
theorem play_said (hall : ∀ s ∈ all, s.About c t) (now : Instant) {batch part : List Frame}
    (hpart : part.filter (fun f => (said? c t f).isSome) =
      batch.filter (fun f => (said? c t f).isSome)) :
    play c q now part all = play c q now batch all := by
  have hdeliver : deliver c q now (part.filter (·.bus = q.bus)) all =
      deliver c q now (batch.filter (·.bus = q.bus)) all := by
    rw [← deliver_said now (part.filter _) hall, ← deliver_said now (batch.filter _) hall,
      List.filter_comm, hpart, List.filter_comm]
  rw [play, play, hdeliver]

end Round

end EcuQuiet.IsoTp
