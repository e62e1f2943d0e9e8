import EcuQuiet.Proofs.Scripted.Rounds

/-!
# Targets that are asked together

The conversations of a query share its rounds and nothing else. What a query finds out about a
target, and what it sends to it, is what a query of this target alone would find out and send over
the same script, however many targets are asked with it and in whatever order. A query that ends has
read only so much of a script; one that yields no more after finitely many readings stands for all.
-/

namespace EcuQuiet

namespace IsoTp

variable {c : Settings} {q : Query}

/-! ### Queries that differ in their targets -/

/-- A conversation takes the bus and the timeout from its query, and not the targets. -/
theorem Conversation.step_targets (c : Settings) (q : Query) (targets : List Target)
    (now : Instant) (event : Event) (s : Conversation) :
    s.step c { q with targets } now event = s.step c q now event := rfl

theorem Conversation.through_targets (c : Settings) (q : Query) (targets : List Target)
    (events : List (Instant × Event)) (s : Conversation) :
    s.through c { q with targets } events = s.through c q events := rfl

theorem Conversation.steps_targets (c : Settings) (q : Query) (targets : List Target)
    (events : List (Instant × Event)) (s : Conversation) :
    s.steps c { q with targets } events = s.steps c q events := by
  induction events generalizing s with
  | nil => rfl
  | cons event rest ih => rw [steps, steps, step_targets, ih]

namespace Opening

variable (o : Opening c q)

/-- The same beginning of a query of other targets. -/
def retarget (targets : List Target) : Opening c { q with targets } where
  first := o.first
  later := o.later
  start := o.start
  limit := o.limit
  exchanges := o.exchanges
  range := o.range

theorem after_retarget (targets : List Target) (events : List (Instant × Event)) (t : Target) :
    (o.retarget targets).after events t = o.after events t :=
  Conversation.through_targets ..

/-! ### What is found out about a target -/

/-- Answers depend on which targets are asked, and not on how often or in which order. -/
theorem get?_answers_retarget {targets : List Target} {t : Target}
    (h : t ∈ targets ↔ t ∈ q.targets) (events : List (Instant × Event)) :
    (Round.answers (targets.map ((o.retarget targets).after events))).get? t =
      (Round.answers (q.targets.map (o.after events))).get? t := by
  refine Option.ext fun a => ?_
  rw [(o.retarget targets).get?_answers_eq_some_iff, o.get?_answers_eq_some_iff, after_retarget]
  exact and_congr_left' h

/-! ### What is sent to a target -/

/-- Every deed of a query is done for one of its targets. -/
theorem owner_lt {events : List (Instant × Event)} {deed : Deed} (h : deed ∈ o.course events) :
    deed.owner < q.targets.length := by
  obtain h | h := List.mem_append.mp h
  · simpa using (Deed.of_mem_ofAll h).2
  · simpa [begun] using (Round.of_mem_course h).2

/-- A target is sent what it would be sent alone. -/
theorem sends_course_alone {i : Nat} {t : Target} (h : q.targets[i]? = some t)
    (events : List (Instant × Event)) :
    Deed.sends ((o.retarget [t]).course events) =
      Deed.sends (Deed.share i (o.course events)) := by
  have hall : Deed.share 0 ((o.retarget [t]).course events) = (o.retarget [t]).course events :=
    List.filter_eq_self.mpr fun deed hdeed => by
      simpa using Nat.lt_one_iff.mp ((o.retarget [t]).owner_lt hdeed)
  have hfirst : ({ q with targets := [t] } : Query).targets[0]? = some t := rfl
  rw [← hall, (o.retarget [t]).sends_share_course hfirst, o.sends_share_course h,
    Conversation.steps_targets]
  rfl

end Opening

end IsoTp

namespace Scripted

open IsoTp Playback

variable {c : Settings} {q : Query} {rounds : Nat} {w : Logged Playback}

/-- A query whose conversations come to their end within its rounds has the answers that they came
to, and has sent all that they asked for. -/
theorem engine_of_over (hreliable : w.world.Reliable) (hsendable : isSendable q)
    (htimeout : q.timeout ≠ .zero) {o : Opening c q} (hstart : o.start = w.world.clock) {n : Nat}
    (hn : n < rounds) (hover : ∀ t ∈ q.targets,
      (o.after (Readings.events q.bus (heard n w.world)) t).isOver = true) :
    ∃ after, engine c link rounds q w = some (.ok (Round.answers
        (q.targets.map (o.after (Readings.events q.bus (heard n w.world))))), after) ∧
      after.world.sent = w.world.sent ++
        Deed.sends (o.course (Readings.events q.bus (heard n w.world))) := by
  have hall : (q.targets.map (o.after (Readings.events q.bus (heard n w.world)))).all
      (·.isOver) = true := by
    simpa using hover
  rw [← o.begun_through] at hall ⊢
  obtain ⟨world, hconverse, hsent⟩ := hreliable.converse hstart hn hall
  rw [← outcome_engine htimeout hsendable o hstart] at hconverse
  obtain ⟨after, hrun, rfl⟩ := Run.exists_of_outcome hconverse
  exact ⟨after, hrun, hsent⟩

/-- Targets that are asked together do not get in each other's way. If a query over a script has
answers, then each of its targets, asked alone over the same script, has the same answer and is sent
the same frames at the same times; and the answers are the same however often, and in whatever
order, the targets are asked. -/
theorem answers_alone {answers : Answers} {after : Logged Playback}
    (hreliable : w.world.Reliable) (htimeout : q.timeout ≠ .zero)
    (hrun : engine c link rounds q w = some (.ok answers, after)) :
    ∃ (o : Opening c q) (n : Nat), o.start = w.world.clock ∧
      after.world.sent = w.world.sent ++
        Deed.sends (o.course (Readings.events q.bus (heard n w.world))) ∧
      (∀ i t, q.targets[i]? = some t → ∃ alone ended,
        engine c link rounds { q with targets := [t] } w = some (.ok alone, ended) ∧
        alone.get? t = answers.get? t ∧
        ended.world.sent = w.world.sent ++ Deed.sends
          (Deed.share i (o.course (Readings.events q.bus (heard n w.world))))) ∧
      ∀ targets, (∀ t, t ∈ targets ↔ t ∈ q.targets) → ∃ ended,
        engine c link rounds { q with targets } w = some (.ok answers, ended) := by
  obtain ⟨hsendable, o, hstart⟩ := exists_opening hrun
  have houtcome : converse o rounds w.world = some (.ok answers, after.world) := by
    rw [← outcome_engine htimeout hsendable o hstart, Run.outcome, hrun]
    rfl
  obtain ⟨n, hn, hover⟩ := hreliable.exists_over_of_converse hstart houtcome
  rw [o.begun_through] at hover
  have hends : ∀ t ∈ q.targets,
      (o.after (Readings.events q.bus (heard n w.world)) t).isOver = true := by
    simpa using hover
  obtain ⟨ended, hsame, hsent⟩ := engine_of_over hreliable hsendable htimeout hstart hn hends
  rw [hrun] at hsame
  cases hsame
  -- the readings after which all conversations are over end every query of some of the targets: a
  -- conversation that is over stays as it is, and does nothing more, when further readings come
  refine ⟨o, n, hstart, hsent, fun i t ht => ?_, fun targets hmembers => ?_⟩
  · have hmem : t ∈ q.targets := List.mem_of_getElem? ht
    obtain ⟨ended, halone, hsent⟩ := engine_of_over (q := { q with targets := [t] })
      (o := o.retarget [t]) hreliable hsendable htimeout hstart hn
      (List.forall_mem_singleton.mpr (hends t hmem))
    refine ⟨_, ended, halone, ?_, ?_⟩
    · exact o.get?_answers_retarget (by simpa using hmem) _
    · rw [hsent, ← o.sends_course_alone ht]
  · obtain ⟨ended, htogether, -⟩ := engine_of_over (q := { q with targets })
      (o := o.retarget targets) hreliable hsendable htimeout hstart hn
      (fun t ht => hends t ((hmembers t).mp ht))
    have hanswers := Answers.ext_get? fun t => o.get?_answers_retarget (hmembers t)
      (Readings.events q.bus (heard n w.world))
    exact ⟨ended, by rw [← hanswers, htogether]⟩

/-- A query of two units behind one gateway, of which the first is asked twice. -/
def behindGateway : Query where
  bus := 0
  targets := [{ address := 0x7D0, subAddress := some 0x0F },
    { address := 0x7D0, subAddress := some 0x10 }, { address := 0x7D0, subAddress := some 0x0F }]
  exchanges := [{ request := [0x3E, 0x00], expected := [0x7E, 0x00] }]
  timeout := .ofMillis 100

/-- A bus on which the first of the two units answers, and the second one only after a while. -/
def unhurried : Playback where
  readings :=
    [{ takes := .ofMillis 10
       result := .ok
        [{ address := 0x7D8, bus := 0, data := [0x0F, 0x02, 0x7E, 0x00] },
          { address := 0x7D8, bus := 0, data := [0x10, 0x03, 0x7F, 0x3E, 0x78] }] },
      { takes := .ofMillis 1000
        result := .ok [{ address := 0x7D8, bus := 0, data := [0x10, 0x02, 0x7E, 0x00] }] }]

theorem answers_alone_behindGateway :
    ∃ answers alone after ended,
      engine {} link 5 behindGateway { world := unhurried } = some (.ok answers, after) ∧
      answers.get? { address := 0x7D0, subAddress := some 0x10 } = some (.ok [0x7E, 0x00]) ∧
      engine {} link 5 { behindGateway with
          targets := [{ address := 0x7D0, subAddress := some 0x10 }] } { world := unhurried } =
        some (.ok alone, ended) ∧
      alone.get? { address := 0x7D0, subAddress := some 0x10 } = some (.ok [0x7E, 0x00]) := by
  obtain ⟨answers, after, hrun, hget⟩ := Answers.exists_of_response
    (x := engine {} link 5 behindGateway) (w := { world := unhurried })
    { address := 0x7D0, subAddress := some 0x10 } [0x7E, 0x00] (by decide +kernel)
  obtain ⟨o, n, -, -, halone, -⟩ :=
    answers_alone (fun _ h => absurd h List.not_mem_nil) (by decide) hrun
  obtain ⟨alone, ended, hended, hsame, -⟩ := halone 1 _ rfl
  exact ⟨answers, alone, after, ended, hrun, hget, hended, hsame.trans hget⟩

end Scripted

end EcuQuiet
