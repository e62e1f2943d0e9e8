import EcuQuiet.Proofs.Answers
import EcuQuiet.Proofs.IsoTp.Steps

/-!
# The course of a query

What the rounds of a query read comes to a series of events: the frames of the queried bus, batch by
batch, and the clock after each batch. All conversations go through the same events, each by itself.
What they do together, in the order in which it is done, is the course of the query; every deed in
it has an owner, so that the share of one target can be told from the shares of the others. The
frames that a query gives to the link are those of the beginning of its course, and of all of it
unless a frame cannot be sent.
-/

namespace EcuQuiet

namespace IsoTp

/-- What rounds read, one after the other: a batch, and the clock after it. -/
abbrev Readings : Type := List (Instant × List Frame)

/-- The events that the readings of some rounds are to conversations on a bus. -/
def Readings.events (bus : UInt8) (readings : Readings) : List (Instant × Event) :=
  readings.flatMap fun (now, batch) =>
    (batch.filter (·.bus = bus)).map (fun f => (now, Event.frame f)) ++ [(now, .clock)]

theorem Readings.events_cons (bus : UInt8) (now : Instant) (batch : List Frame)
    (rest : Readings) :
    events bus ((now, batch) :: rest) =
      events bus [(now, batch)] ++ events bus rest := by
  simp [events]

/-! ### Deeds -/

/-- Something that a query does: an output, the time of it, and whose it is, by the place of the
target in the query. -/
structure Deed where
  owner : Nat
  time : Instant
  output : Output

namespace Deed

/-- What one conversation wants done at a time. -/
def ofOutputs (owner : Nat) (now : Instant) (outputs : List Output) : List Deed :=
  outputs.map fun output => { owner, time := now, output }

/-- What conversations want done at one time, in their order; `owner` is the place of the first. -/
def ofAll (now : Instant) : (owner : Nat) → List (List Output) → List Deed
  | _, [] => []
  | owner, outputs :: rest => ofOutputs owner now outputs ++ ofAll now (owner + 1) rest

/-- What is done for one target. -/
def share (owner : Nat) (deeds : List Deed) : List Deed := deeds.filter (·.owner = owner)

/-- The outputs among deeds. -/
def outputs (deeds : List Deed) : List Output := deeds.map (·.output)

/-- The frames that deeds send, each with its time. -/
def sends (deeds : List Deed) : List (Instant × Frame) :=
  deeds.filterMap fun
    | { time, output := .send f, .. } => some (time, f)
    | _ => none

@[simp]
theorem share_append (owner : Nat) (first rest : List Deed) :
    share owner (first ++ rest) = share owner first ++ share owner rest := by
  simp [share]

@[simp]
theorem outputs_append (first rest : List Deed) :
    outputs (first ++ rest) = outputs first ++ outputs rest := by
  simp [outputs]

@[simp]
theorem sends_append (first rest : List Deed) :
    sends (first ++ rest) = sends first ++ sends rest := by
  simp [sends]

theorem frames_outputs (deeds : List Deed) :
    Output.frames (outputs deeds) = (sends deeds).map (·.2) := by
  induction deeds with
  | nil => rfl
  | cons deed rest ih =>
      obtain ⟨owner, time, event | f⟩ := deed
      · exact ih
      · exact congrArg (List.cons f) ih

@[simp]
theorem outputs_ofOutputs (owner : Nat) (now : Instant) (wanted : List Output) :
    outputs (ofOutputs owner now wanted) = wanted := by
  simp [outputs, ofOutputs, Function.comp_def]

@[simp]
theorem sends_ofOutputs (owner : Nat) (now : Instant) (wanted : List Output) :
    sends (ofOutputs owner now wanted) = (Output.frames wanted).map (now, ·) := by
  induction wanted with
  | nil => rfl
  | cons output rest ih =>
      cases output with
      | note event => exact ih
      | send f => exact congrArg (List.cons (now, f)) ih

theorem share_ofOutputs (owner : Nat) (now : Instant) (wanted : List Output) :
    share owner (ofOutputs owner now wanted) = ofOutputs owner now wanted := by
  simp [share, ofOutputs]

theorem share_ofOutputs_of_ne {owner other : Nat} (h : other ≠ owner) (now : Instant)
    (wanted : List Output) : share owner (ofOutputs other now wanted) = [] := by
  simp [share, ofOutputs, h]

theorem sends_flatMap {α : Type} (deeds : α → List Deed) (all : List α) :
    sends (all.flatMap deeds) = all.flatMap fun a => sends (deeds a) := by
  induction all with
  | nil => rfl
  | cons a rest ih => simp [ih]

@[simp]
theorem outputs_ofAll (now : Instant) (owner : Nat) (wanted : List (List Output)) :
    outputs (ofAll now owner wanted) = wanted.flatten := by
  induction wanted generalizing owner with
  | nil => rfl
  | cons first rest ih => simp [ofAll, ih]

@[simp]
theorem ofAll_nothing {α : Type} (now : Instant) (owner : Nat) (all : List α) :
    ofAll now owner (all.map fun _ => []) = [] := by
  induction all generalizing owner with
  | nil => rfl
  | cons _ rest ih => exact ih (owner + 1)

theorem share_ofAll_of_lt {owner first : Nat} (h : owner < first) (now : Instant)
    (wanted : List (List Output)) : share owner (ofAll now first wanted) = [] := by
  induction wanted generalizing first with
  | nil => rfl
  | cons outputs rest ih =>
      rw [ofAll, share_append, share_ofOutputs_of_ne (Nat.ne_of_gt h), List.nil_append]
      exact ih (Nat.lt_succ_of_lt h)

/-- Of what conversations want done, each has what it wants itself. -/
theorem share_ofAll {wanted : List (List Output)} {i : Nat} {outputs : List Output}
    (h : wanted[i]? = some outputs) (now : Instant) (first : Nat) :
    share (first + i) (ofAll now first wanted) = ofOutputs (first + i) now outputs := by
  induction wanted generalizing i first with
  | nil => simp at h
  | cons head rest ih =>
      rw [ofAll, share_append]
      cases i with
      | zero =>
          obtain rfl : head = outputs := by simpa using h
          rw [Nat.add_zero, share_ofOutputs, share_ofAll_of_lt (Nat.lt_succ_self first),
            List.append_nil]
      | succ i =>
          have hrest : rest[i]? = some outputs := by simpa using h
          have hplace : first + (i + 1) = first + 1 + i := by omega
          rw [share_ofOutputs_of_ne (by omega), List.nil_append, hplace]
          exact ih hrest (first + 1)

/-- What is done at one time sends its frames at that time. -/
theorem sends_eq_of_time {deeds : List Deed} {now : Instant}
    (h : ∀ deed ∈ deeds, deed.time = now) :
    sends deeds = (Output.frames (outputs deeds)).map (now, ·) := by
  induction deeds with
  | nil => rfl
  | cons deed rest ih =>
      obtain ⟨hdeed, hrest⟩ := List.forall_mem_cons.mp h
      obtain ⟨owner, time, event | f⟩ := deed
      · exact ih hrest
      · cases hdeed
        exact congrArg (List.cons _) (ih hrest)

theorem of_mem_ofAll {now : Instant} {first : Nat} {wanted : List (List Output)}
    {deed : Deed} (h : deed ∈ ofAll now first wanted) :
    deed.time = now ∧ deed.owner < first + wanted.length := by
  induction wanted generalizing first with
  | nil => cases h
  | cons outputs rest ih =>
      rw [ofAll, List.mem_append] at h
      rw [List.length_cons]
      obtain h | h := h
      · obtain ⟨output, -, rfl⟩ := List.mem_map.mp h
        exact ⟨rfl, by dsimp only; omega⟩
      · obtain ⟨htime, howner⟩ := ih h
        exact ⟨htime, by omega⟩

end Deed

/-! ### Rounds as events -/

namespace Round

variable (c : Settings) (q : Query)

/-- What conversations do at events, in the order in which it is done. -/
def course : List (Instant × Event) → List Conversation → List Deed
  | [], _ => []
  | (now, event) :: rest, all =>
    Deed.ofAll now 0 (all.map fun s => (s.step c q now event).outputs) ++
      course rest (all.map fun s => (s.step c q now event).after)

variable {c q}

@[simp]
theorem map_through_nil (all : List Conversation) :
    all.map (Conversation.through c q []) = all :=
  List.map_id all

@[simp]
theorem map_through_append (first rest : List (Instant × Event)) (all : List Conversation) :
    all.map (Conversation.through c q (first ++ rest)) =
      (all.map (Conversation.through c q first)).map (Conversation.through c q rest) := by
  simp [Conversation.through_append]

theorem map_through_cons (now : Instant) (event : Event) (rest : List (Instant × Event))
    (all : List Conversation) :
    all.map (Conversation.through c q ((now, event) :: rest)) =
      (all.map fun s => (s.step c q now event).after).map (Conversation.through c q rest) := by
  simp [Conversation.through_cons]

theorem course_append (first rest : List (Instant × Event)) (all : List Conversation) :
    course c q (first ++ rest) all =
      course c q first all ++ course c q rest (all.map (Conversation.through c q first)) := by
  induction first generalizing all with
  | nil => simp [course]
  | cons event first ih =>
      obtain ⟨now, event⟩ := event
      rw [List.cons_append, course, course, ih, map_through_cons, List.append_assoc]

/-- Of the course of all conversations, each has what it does itself. -/
theorem share_course {all : List Conversation} {i : Nat} {s : Conversation}
    (h : all[i]? = some s) (events : List (Instant × Event)) :
    Deed.share i (course c q events all) =
      (s.steps c q events).flatMap fun step => Deed.ofOutputs i step.time step.outputs := by
  induction events generalizing all s with
  | nil => rfl
  | cons event rest ih =>
      obtain ⟨now, event⟩ := event
      have hwanted : (all.map fun s => (s.step c q now event).outputs)[i]? =
          some (s.step c q now event).outputs := by simp [h]
      have hafter : (all.map fun s => (s.step c q now event).after)[i]? =
          some (s.step c q now event).after := by simp [h]
      have hfirst := Deed.share_ofAll hwanted now 0
      rw [Nat.zero_add] at hfirst
      rw [course, Deed.share_append, hfirst, ih hafter, Conversation.steps, List.flatMap_cons]
      rfl

/-- Conversations that are over do nothing. -/
theorem course_over {all : List Conversation} (h : all.all (·.isOver) = true)
    (events : List (Instant × Event)) : course c q events all = [] := by
  induction events with
  | nil => rfl
  | cons event rest ih =>
      obtain ⟨now, event⟩ := event
      have hall := List.all_eq_true.mp h
      have hwanted : (all.map fun s => (s.step c q now event).outputs) =
          all.map fun _ => [] :=
        List.map_congr_left fun s hs => by rw [Conversation.step_over (hall s hs)]
      have hafter : (all.map fun s => (s.step c q now event).after) = all := by
        refine (List.map_congr_left fun s hs => ?_).trans (List.map_id all)
        rw [Conversation.step_over (hall s hs)]
        rfl
      rw [course, hwanted, hafter, Deed.ofAll_nothing, ih, List.append_nil]

theorem through_over {all : List Conversation} (h : all.all (·.isOver) = true)
    (events : List (Instant × Event)) : all.map (Conversation.through c q events) = all := by
  refine (List.map_congr_left fun s hs => ?_).trans (List.map_id all)
  exact Conversation.through_over (List.all_eq_true.mp h s hs) events

theorem each_step (now : Instant) (event : Event) (all : List Conversation) :
    each (fun s => ((s.step c q now event).after, (s.step c q now event).outputs)) all =
      (all.map (Conversation.through c q [(now, event)]),
        Deed.outputs (course c q [(now, event)] all)) := by
  simp [each, course, Conversation.through, List.flatMap_def, Function.comp_def]

theorem deliver_eq (now : Instant) (frames : List Frame) (all : List Conversation) :
    deliver c q now frames all =
      (all.map (Conversation.through c q (frames.map fun f => (now, .frame f))),
        Deed.outputs (course c q (frames.map fun f => (now, .frame f)) all)) := by
  induction frames generalizing all with
  | nil => simp [deliver, course, Deed.outputs]
  | cons f rest ih =>
      have hfirst : each (Conversation.receive c q now f) all = _ := each_step now (.frame f) all
      have hevents : ((f :: rest).map fun f => (now, Event.frame f)) =
          [(now, .frame f)] ++ rest.map fun f => (now, .frame f) := rfl
      rw [deliver, hfirst, hevents, course_append, Deed.outputs_append, map_through_append]
      dsimp only
      rw [ih]

/-- A round takes every conversation through its events, and asks for what they do. -/
theorem play_eq (now : Instant) (batch : List Frame) (all : List Conversation) :
    play c q now batch all =
      (all.map (Conversation.through c q (Readings.events q.bus [(now, batch)])),
        Deed.outputs (course c q (Readings.events q.bus [(now, batch)]) all)) := by
  have hevents : Readings.events q.bus [(now, batch)] =
      (batch.filter (·.bus = q.bus)).map (fun f => (now, .frame f)) ++ [(now, .clock)] := by
    simp [Readings.events]
  have htick : ∀ all, each (Conversation.tick c q now) all = _ := each_step now .clock
  rw [play, deliver_eq]
  dsimp only
  rw [htick, hevents, course_append, Deed.outputs_append, map_through_append]

/-- Every deed in the course of some conversations is at the time of an event, and of one of
them. -/
theorem of_mem_course {events : List (Instant × Event)} {all : List Conversation} {deed : Deed}
    (h : deed ∈ course c q events all) :
    deed.time ∈ events.map (·.1) ∧ deed.owner < all.length := by
  induction events generalizing all with
  | nil => cases h
  | cons event rest ih =>
      obtain ⟨now, event⟩ := event
      rw [course, List.mem_append] at h
      obtain h | h := h
      · obtain ⟨htime, howner⟩ := Deed.of_mem_ofAll h
        exact ⟨by rw [htime]; exact List.mem_cons_self,
          by rwa [List.length_map, Nat.zero_add] at howner⟩
      · obtain ⟨htime, howner⟩ := ih h
        exact ⟨List.mem_cons_of_mem _ htime, by rwa [List.length_map] at howner⟩

/-- The frames of a round go out at its time. -/
theorem sends_course (now : Instant) (batch : List Frame) (all : List Conversation) :
    Deed.sends (course c q (Readings.events q.bus [(now, batch)]) all) =
      (Output.frames (play c q now batch all).2).map (now, ·) := by
  rw [play_eq]
  refine Deed.sends_eq_of_time fun deed hdeed => ?_
  have htime := (of_mem_course hdeed).1
  simp only [Readings.events, List.flatMap_cons, List.flatMap_nil, List.append_nil,
    List.map_append, List.map_map, List.map_cons, List.map_nil, List.mem_append, List.mem_map,
    Function.comp_apply, List.mem_singleton] at htime
  obtain ⟨_, _, htime⟩ | htime := htime
  · exact htime.symm
  · exact htime

/-- An answer is one that a conversation with the target came to. -/
theorem exists_answered {all : List Conversation} {t : Target} {a : Answer}
    (h : (answers all).get? t = some a) : ∃ s ∈ all, s.target = t ∧ s.status = .answered a := by
  obtain ⟨s, hs, hanswer⟩ := List.mem_filterMap.mp (Answers.mem_of_get?_ofList h)
  rw [Conversation.answer?] at hanswer
  split at hanswer
  next hstatus =>
    cases hanswer
    exact ⟨s, hs, rfl, hstatus⟩
  next => cases hanswer

end Round

/-! ### Queries -/

/-- How a query begins that is put to its targets: with the first exchange, at a time from which a
clock can show the end of its longest wait. -/
structure Opening (c : Settings) (q : Query) where
  first : Exchange
  later : List Exchange
  start : Instant
  limit : Instant
  exchanges : q.exchanges = first :: later
  range : Instant.after? start (c.longestWait q.timeout) = some limit

namespace Opening

variable {c : Settings} {q : Query}

/-- A query begins in one way only at a time. -/
theorem eq_of_start {o o' : Opening c q} (h : o.start = o'.start) : o = o' := by
  obtain ⟨first, later, start, limit, hexchanges, hrange⟩ := o
  obtain ⟨first', later', start', limit', hexchanges', hrange'⟩ := o'
  cases h
  cases hexchanges.symm.trans hexchanges'
  cases hrange.symm.trans hrange'
  rfl

/-- The conversation in which a target is first asked, and what asking it takes. -/
def ask (o : Opening c q) (t : Target) : Conversation × List Output :=
  Conversation.begin c q o.first o.later o.start o.limit t

/-- The conversations that the query begins with. -/
def begun (o : Opening c q) : List Conversation := (q.targets.map o.ask).map (·.1)

/-- What asking all targets takes. -/
def asking (o : Opening c q) : List Deed :=
  Deed.ofAll o.start 0 ((q.targets.map o.ask).map (·.2))

/-- All that the query does when these are the events. -/
def course (o : Opening c q) (events : List (Instant × Event)) : List Deed :=
  o.asking ++ Round.course c q events o.begun

theorem outputs_asking (o : Opening c q) :
    Deed.outputs o.asking = (q.targets.map o.ask).flatMap (·.2) := by
  rw [asking, Deed.outputs_ofAll, List.flatMap_def]

/-- The frames of the opening go out at the start. -/
theorem sends_asking (o : Opening c q) :
    Deed.sends o.asking = (Output.frames (Deed.outputs o.asking)).map (o.start, ·) :=
  Deed.sends_eq_of_time fun _ hdeed => (Deed.of_mem_ofAll hdeed).1

theorem getElem?_begun (o : Opening c q) {i : Nat} {t : Target} (h : q.targets[i]? = some t) :
    o.begun[i]? = some (o.ask t).1 := by
  simp [begun, h]

/-- The conversation with a target after some events. -/
def after (o : Opening c q) (events : List (Instant × Event)) (t : Target) : Conversation :=
  (o.ask t).1.through c q events

theorem target_after (o : Opening c q) (events : List (Instant × Event)) (t : Target) :
    (o.after events t).target = t :=
  Conversation.target_through ..

theorem begun_through (o : Opening c q) (events : List (Instant × Event)) :
    o.begun.map (Conversation.through c q events) = q.targets.map (o.after events) := by
  simp [begun, after, Function.comp_def]

/-- The answer of a target is the one that its own conversation came to. -/
theorem get?_answers_eq_some_iff (o : Opening c q) {events : List (Instant × Event)} {t : Target}
    {a : Answer} :
    (Round.answers (q.targets.map (o.after events))).get? t = some a ↔
      t ∈ q.targets ∧ (o.after events t).status = .answered a := by
  have hown : ∀ {a}, (Round.answers (q.targets.map (o.after events))).get? t = some a →
      t ∈ q.targets ∧ (o.after events t).status = .answered a := by
    intro a h
    obtain ⟨s, hs, htarget, hstatus⟩ := Round.exists_answered h
    obtain ⟨u, hu, rfl⟩ := List.mem_map.mp hs
    rw [target_after] at htarget
    rw [← htarget]
    exact ⟨hu, hstatus⟩
  refine ⟨hown, fun ⟨ht, hstatus⟩ => ?_⟩
  have hentry : (t, a) ∈ (q.targets.map (o.after events)).filterMap (·.answer?) := by
    refine List.mem_filterMap.mpr ⟨o.after events t, List.mem_map_of_mem ht, ?_⟩
    rw [Conversation.answer?, hstatus, target_after]
  obtain ⟨b, hb⟩ := Option.isSome_iff_exists.mp (Answers.isSome_get?_ofList hentry)
  have hother := (hown hb).2
  rw [hstatus] at hother
  cases hother
  exact hb

/-- The share of one target: its opening, and what its conversation does. -/
theorem share_course (o : Opening c q) {i : Nat} {t : Target} (h : q.targets[i]? = some t)
    (events : List (Instant × Event)) :
    Deed.share i (o.course events) =
      Deed.ofOutputs i o.start (o.ask t).2 ++
        ((o.ask t).1.steps c q events).flatMap fun step =>
          Deed.ofOutputs i step.time step.outputs := by
  have hwanted : ((q.targets.map o.ask).map (·.2))[i]? = some (o.ask t).2 := by simp [h]
  have hopening := Deed.share_ofAll hwanted o.start 0
  rw [Nat.zero_add] at hopening
  rw [course, asking, Deed.share_append, hopening, Round.share_course (o.getElem?_begun h)]

/-- What is sent to one target, with the times. -/
theorem sends_share_course (o : Opening c q) {i : Nat} {t : Target} (h : q.targets[i]? = some t)
    (events : List (Instant × Event)) :
    Deed.sends (Deed.share i (o.course events)) =
      (o.start, c.startFrame q.bus t o.first.request) ::
        ((o.ask t).1.steps c q events).flatMap fun step => step.frames.map (step.time, ·) := by
  have hopening : Output.frames (o.ask t).2 = [c.startFrame q.bus t o.first.request] := rfl
  rw [o.share_course h, Deed.sends_append, Deed.sends_ofOutputs, hopening, Deed.sends_flatMap]
  simp [Step.frames]

end Opening

/-- What the rounds of a query read, as its uses tell it. -/
def Readings.ofUses : List Use → Readings
  | [] => []
  | .received (.ok batch) :: .read now :: rest => (now, batch) :: ofUses rest
  | _ :: rest => ofUses rest

/-- A run that ends with a frame that cannot be sent: this is the last use, and it says why. -/
def Unsent {α : Type} (result : Except DiagnosticError α) (uses : List Use) : Prop :=
  ∃ before frame cause, uses = before ++ [.sent [frame] (.error cause)] ∧
    result = .error (.bus cause)

theorem not_unsent_ok {α : Type} (a : α) (uses : List Use) : ¬Unsent (.ok a) uses := by
  rintro ⟨before, frame, cause, -, hresult⟩
  cases hresult

/-- What ends a part of a run with an error ends the run with it. -/
theorem Unsent.after {α β : Type} {reason : DiagnosticError} {uses : List Use}
    (h : Unsent (.error reason : Except DiagnosticError α) uses) (first : List Use) :
    Unsent (.error reason : Except DiagnosticError β) (first ++ uses) := by
  obtain ⟨before, frame, cause, rfl, hresult⟩ := h
  cases hresult
  exact ⟨first ++ before, frame, cause, (List.append_assoc ..).symm, rfl⟩

theorem Unsent.append_left {α : Type} {result : Except DiagnosticError α} {uses : List Use}
    (h : Unsent result uses) (first : List Use) : Unsent result (first ++ uses) := by
  cases result with
  | ok a => exact absurd h (not_unsent_ok a uses)
  | error reason => exact h.after first

/-- Outputs are performed up to the first frame that cannot be sent. -/
theorem Performed.exists_prefix {outputs : List Output} {result : Except DiagnosticError Unit}
    {uses : List Use} (h : Performed outputs result uses) :
    ∃ done, done <+: outputs ∧ Use.frames uses = Output.frames done ∧
      (done = outputs ∨ Unsent result uses) := by
  induction h with
  | nil => exact ⟨[], List.prefix_rfl, rfl, .inl rfl⟩
  | @note event rest _ _ _ ih =>
      obtain ⟨done, hdone, hframes, hwhole⟩ := ih
      exact ⟨.note event :: done, List.prefix_cons_inj _ |>.mpr hdone, hframes,
        hwhole.imp_left (congrArg (List.cons _))⟩
  | @sent frame rest _ _ _ ih =>
      obtain ⟨done, hdone, hframes, hwhole⟩ := ih
      refine ⟨.send frame :: done, List.prefix_cons_inj _ |>.mpr hdone,
        congrArg (List.cons frame) hframes, ?_⟩
      exact hwhole.imp (congrArg (List.cons _)) fun hunsent => hunsent.append_left [_]
  | @failed frame rest cause =>
      exact ⟨[.send frame], List.prefix_append [.send frame] rest, rfl,
        .inr ⟨[], frame, cause, rfl, rfl⟩⟩

/-- Deeds whose outputs are performed are done up to the first frame that cannot be sent. -/
theorem Performed.exists_done {deeds : List Deed} {result : Except DiagnosticError Unit}
    {uses : List Use} (h : Performed (Deed.outputs deeds) result uses) :
    ∃ done, done <+: deeds ∧ Use.frames uses = (Deed.sends done).map (·.2) ∧
      (done = deeds ∨ Unsent result uses) := by
  obtain ⟨outputs, houtputs, hframes, hwhole⟩ := h.exists_prefix
  have htaken : outputs = Deed.outputs (deeds.take outputs.length) := by
    rw [Deed.outputs, List.map_take]
    exact List.prefix_iff_eq_take.mp houtputs
  refine ⟨deeds.take outputs.length, List.take_prefix .., ?_, hwhole.imp_left fun hall => ?_⟩
  · rw [hframes, ← Deed.frames_outputs, ← htaken]
  · refine List.take_of_length_le (Nat.le_of_eq ?_)
    rw [hall, Deed.outputs, List.length_map]

/-- Deeds whose outputs are performed to the end are all done. -/
theorem Performed.frames_eq {deeds : List Deed} {uses : List Use}
    (h : Performed (Deed.outputs deeds) (.ok ()) uses) :
    Use.frames uses = (Deed.sends deeds).map (·.2) := by
  obtain ⟨done, -, hframes, hwhole⟩ := h.exists_done
  rwa [hwhole.resolve_right (not_unsent_ok () uses)] at hframes

theorem Performed.ofUses_append {outputs : List Output} {result : Except DiagnosticError Unit}
    {sends : List Use} (h : Performed outputs result sends) (rest : List Use) :
    Readings.ofUses (sends ++ rest) = Readings.ofUses rest := by
  induction h with
  | nil => rfl
  | note _ ih => exact ih
  | sent _ ih => exact ih
  | failed => rfl

/-- The deeds that account for some uses: the beginning of a course, and all of it unless a frame
cannot be sent. Answers are those that the conversations came to, and they are over then. -/
structure Account (course : List Deed) (all : List Conversation)
    (result : Except DiagnosticError Answers) (uses : List Use) (done : List Deed) : Prop where
  begins : done <+: course
  frames : Use.frames uses = (Deed.sends done).map (·.2)
  whole : done = course ∨ Unsent result uses
  answers : ∀ answers, result = .ok answers →
    all.all (·.isOver) = true ∧ answers = Round.answers all

namespace Account

variable {course done : List Deed} {all : List Conversation}
  {result : Except DiagnosticError Answers} {uses : List Use}

theorem of_ok {answers : Answers} (h : Account course all (.ok answers) uses done) :
    done = course ∧ all.all (·.isOver) = true ∧ answers = Round.answers all :=
  ⟨h.whole.resolve_right (not_unsent_ok answers uses), h.answers answers rfl⟩

/-- A run accounts for what it does after deeds that are all done. -/
theorem append (h : Account course all result uses done) {deeds : List Deed} {first : List Use}
    (hfirst : Use.frames first = (Deed.sends deeds).map (·.2)) :
    Account (deeds ++ course) all result (first ++ uses) (deeds ++ done) where
  begins := (List.prefix_append_right_inj deeds).mpr h.begins
  frames := by rw [Use.frames_append, hfirst, h.frames, Deed.sends_append, List.map_append]
  whole := h.whole.imp (congrArg (deeds ++ ·)) (·.append_left first)
  answers := h.answers

end Account

theorem Listened.course {c : Settings} {q : Query} {all : List Conversation}
    {result : Except DiagnosticError Answers} {uses : List Use} (h : Listened c q all result uses) :
    ∃ done, Account (Round.course c q (Readings.events q.bus (Readings.ofUses uses)) all)
      (all.map (Conversation.through c q (Readings.events q.bus (Readings.ofUses uses))))
      result uses done := by
  induction h with
  | @ended all hover =>
      refine ⟨[], ⟨List.prefix_rfl, rfl, .inl rfl, fun answers hok => ?_⟩⟩
      cases hok
      exact ⟨by simpa [Readings.events, Readings.ofUses] using hover,
        by simp [Readings.events, Readings.ofUses]⟩
  | failed => exact ⟨[], ⟨List.prefix_rfl, rfl, .inl rfl, nofun⟩⟩
  | @unsent all batch now reason sends hopen hsends =>
      have hread : Readings.ofUses (.received (.ok batch) :: .read now :: sends) =
          [(now, batch)] := by
        rw [Readings.ofUses, ← List.append_nil sends, hsends.ofUses_append]
        rfl
      rw [Round.play_eq] at hsends
      obtain ⟨done, hdone, hframes, hwhole⟩ := hsends.exists_done
      rw [hread]
      exact ⟨done, hdone, hframes, hwhole.imp_right (·.after [.received (.ok batch), .read now]),
        nofun⟩
  | @round all batch now result sends rest hopen hsends hrest ih =>
      have hread : Readings.ofUses (.received (.ok batch) :: .read now :: sends ++ rest) =
          (now, batch) :: Readings.ofUses rest := by
        rw [List.cons_append, List.cons_append, Readings.ofUses, hsends.ofUses_append]
      rw [Round.play_eq] at hsends ih
      obtain ⟨further, hfurther⟩ := ih
      rw [hread, Readings.events_cons, Round.course_append, Round.map_through_append]
      exact ⟨_, hfurther.append hsends.frames_eq⟩

/-- A query that waits refuses its arguments and sends nothing; or it sends the beginning of the
course that its readings give, and all of it unless a frame cannot be sent. Its answers are those
of its conversations after these readings. -/
theorem Queried.course {c : Settings} {q : Query} {result : Except DiagnosticError Answers}
    {uses : List Use} (h : Queried c q result uses) (htimeout : q.timeout ≠ .zero) :
    (result = .error .invalidParameter ∧ Use.frames uses = []) ∨
      ∃ (o : Opening c q) (rest : List Use) (done : List Deed), uses = .read o.start :: rest ∧
        Account (o.course (Readings.events q.bus (Readings.ofUses uses)))
          (q.targets.map (o.after (Readings.events q.bus (Readings.ofUses uses))))
          result uses done := by
  cases h with
  | refused => exact .inl ⟨rfl, rfl⟩
  | outOfRange => exact .inl ⟨rfl, rfl⟩
  | unheard _ _ _ hzero => exact absurd hzero htimeout
  | @unsent first later start limit reason sends hexchanges hrange hsends =>
      let o : Opening c q := ⟨first, later, start, limit, hexchanges, hrange⟩
      have hsends : Performed ((q.targets.map o.ask).flatMap (·.2)) _ _ := hsends
      have hread : Readings.ofUses (.read start :: sends) = [] := by
        rw [Readings.ofUses, ← List.append_nil sends, hsends.ofUses_append]
        · rfl
        · nofun
      rw [← o.outputs_asking] at hsends
      obtain ⟨done, hdone, hframes, hwhole⟩ := hsends.exists_done
      have hcourse : o.course [] = o.asking := List.append_nil _
      refine .inr ⟨o, sends, done, rfl, ?_⟩
      rw [hread, Readings.events, List.flatMap_nil, hcourse]
      exact ⟨hdone, hframes, hwhole.imp_right (·.after [.read start]), nofun⟩
  | @heard first later start limit result sends rest hexchanges hrange hsends _ hrest =>
      let o : Opening c q := ⟨first, later, start, limit, hexchanges, hrange⟩
      have hsends : Performed ((q.targets.map o.ask).flatMap (·.2)) _ _ := hsends
      have hrest : Listened c q o.begun result rest := hrest
      have hread : Readings.ofUses (.read start :: sends ++ rest) = Readings.ofUses rest := by
        rw [List.cons_append, Readings.ofUses, hsends.ofUses_append]
        nofun
      rw [← o.outputs_asking] at hsends
      obtain ⟨further, hfurther⟩ := hrest.course
      refine .inr ⟨o, sends ++ rest, o.asking ++ further, rfl, ?_⟩
      rw [hread, ← o.begun_through]
      exact hfurther.append hsends.frames_eq

end IsoTp

end EcuQuiet
