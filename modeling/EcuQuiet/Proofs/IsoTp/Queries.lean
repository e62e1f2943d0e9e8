import EcuQuiet.IsoTp.Engine
import EcuQuiet.Proofs.Bus.Contract
import EcuQuiet.Proofs.Bus.Ending
import EcuQuiet.Proofs.Bus.Recording

/-!
# What a query over frames does

The uses that a query makes of the link, with the result they lead to: one reading of the clock and
the first frames, and then, round after round, a batch, a reading of the clock, and the frames of
the round. Recording them changes nothing, and over a link with a bounded number of readings every
query ends.
-/

namespace EcuQuiet.IsoTp

open Run

/-- The frames that some outputs send. -/
def Output.frames (outputs : List Output) : List Frame :=
  outputs.filterMap fun
    | .send f => some f
    | .note _ => none

/-- The uses that outputs are performed with, and whether all of them could be. -/
inductive Performed : List Output → Except DiagnosticError Unit → List Use → Prop
  | nil : Performed [] (.ok ()) []
  | note {event : Note} {rest : List Output} {result : Except DiagnosticError Unit}
      {uses : List Use} (hrest : Performed rest result uses) :
      Performed (.note event :: rest) result uses
  | sent {frame : Frame} {rest : List Output} {result : Except DiagnosticError Unit}
      {uses : List Use} (hrest : Performed rest result uses) :
      Performed (.send frame :: rest) result (.sent [frame] (.ok ()) :: uses)
  | failed {frame : Frame} {rest : List Output} {cause : BusError} :
      Performed (.send frame :: rest) (.error (.bus cause)) [.sent [frame] (.error cause)]

/-- The uses of the rounds of a query that has come to certain conversations, and its result. -/
inductive Listened (c : Settings) (q : Query) :
    List Conversation → Except DiagnosticError Answers → List Use → Prop
  | ended {all : List Conversation} (hover : all.all (·.isOver)) :
      Listened c q all (.ok (Round.answers all)) []
  | failed {all : List Conversation} {cause : BusError} (hopen : ¬ all.all (·.isOver)) :
      Listened c q all (.error (.bus cause)) [.received (.error cause)]
  | unsent {all : List Conversation} {batch : List Frame} {now : Instant}
      {reason : DiagnosticError} {sends : List Use} (hopen : ¬ all.all (·.isOver))
      (hsends : Performed (Round.play c q now batch all).2 (.error reason) sends) :
      Listened c q all (.error reason) (.received (.ok batch) :: .read now :: sends)
  | round {all : List Conversation} {batch : List Frame} {now : Instant}
      {result : Except DiagnosticError Answers} {sends rest : List Use}
      (hopen : ¬ all.all (·.isOver))
      (hsends : Performed (Round.play c q now batch all).2 (.ok ()) sends)
      (hrest : Listened c q (Round.play c q now batch all).1 result rest) :
      Listened c q all result (.received (.ok batch) :: .read now :: sends ++ rest)

/-- The uses of a query, and its result. -/
inductive Queried (c : Settings) (q : Query) :
    Except DiagnosticError Answers → List Use → Prop
  | refused (hrefused : q.exchanges = [] ∨ isSendable q = false) :
      Queried c q (.error .invalidParameter) []
  | outOfRange {start : Instant} (hsendable : isSendable q)
      (hrange : Instant.after? start (c.longestWait q.timeout) = none) :
      Queried c q (.error .invalidParameter) [.read start]
  | unsent {first : Exchange} {later : List Exchange} {start limit : Instant}
      {reason : DiagnosticError} {sends : List Use} (hexchanges : q.exchanges = first :: later)
      (hrange : Instant.after? start (c.longestWait q.timeout) = some limit)
      (hsends : Performed
        ((q.targets.map (Conversation.begin c q first later start limit)).flatMap (·.2))
        (.error reason) sends) :
      Queried c q (.error reason) (.read start :: sends)
  | unheard {first : Exchange} {later : List Exchange} {start limit : Instant}
      {sends : List Use} (hexchanges : q.exchanges = first :: later)
      (hrange : Instant.after? start (c.longestWait q.timeout) = some limit)
      (hsends : Performed
        ((q.targets.map (Conversation.begin c q first later start limit)).flatMap (·.2))
        (.ok ()) sends)
      (htimeout : q.timeout = .zero) :
      Queried c q (.ok .empty) (.read start :: sends)
  | heard {first : Exchange} {later : List Exchange} {start limit : Instant}
      {result : Except DiagnosticError Answers} {sends rest : List Use}
      (hexchanges : q.exchanges = first :: later)
      (hrange : Instant.after? start (c.longestWait q.timeout) = some limit)
      (hsends : Performed
        ((q.targets.map (Conversation.begin c q first later start limit)).flatMap (·.2))
        (.ok ()) sends)
      (htimeout : q.timeout ≠ .zero)
      (hrest : Listened c q
        ((q.targets.map (Conversation.begin c q first later start limit)).map (·.1)) result rest) :
      Queried c q result (.read start :: sends ++ rest)

/-! ### Queries of one target -/

/-- The conversation after frames were shown to it, one after the other, and what it wants done. -/
def Conversation.receiveAll (c : Settings) (q : Query) (now : Instant) :
    List Frame → Conversation → Conversation × List Output
  | [], s => (s, [])
  | f :: rest, s =>
    let (s, first) := s.receive c q now f
    let (s, further) := receiveAll c q now rest s
    (s, first ++ further)

theorem deliver_singleton (c : Settings) (q : Query) (now : Instant) (frames : List Frame)
    (s : Conversation) :
    Round.deliver c q now frames [s] =
      ([(s.receiveAll c q now frames).1], (s.receiveAll c q now frames).2) := by
  induction frames generalizing s with
  | nil => rfl
  | cons f rest ih =>
      simp only [Round.deliver, Round.each, List.map_cons, List.map_nil, List.flatMap_cons,
        List.flatMap_nil, List.append_nil, ih, Conversation.receiveAll]

theorem play_singleton (c : Settings) (q : Query) (now : Instant) (batch : List Frame)
    (s : Conversation) :
    Round.play c q now batch [s] =
      ([((s.receiveAll c q now (batch.filter (·.bus = q.bus))).1.tick c q now).1],
        (s.receiveAll c q now (batch.filter (·.bus = q.bus))).2 ++
          ((s.receiveAll c q now (batch.filter (·.bus = q.bus))).1.tick c q now).2) := by
  simp only [Round.play, deliver_singleton, Round.each, List.map_cons, List.map_nil,
    List.flatMap_cons, List.flatMap_nil, List.append_nil]

variable {σ : Type} (link : Link σ) (c : Settings) (q : Query)

/-- A query that has sent its first frame, and waits, is a loop over its one conversation. -/
theorem engine_eq_loop {t : Target} {e : Exchange} {start limit : Instant}
    {w read middle : Logged σ} (htargets : q.targets = [t]) (hexchanges : q.exchanges = [e])
    (hsendable : isSendable q) (hwaits : q.timeout ≠ .zero)
    (hread : link.clock w = some (.ok start, read))
    (hrange : Instant.after? start (c.longestWait q.timeout) = some limit)
    (hperform : Output.perform link (Conversation.begin c q e [] start limit t).2 read =
      some (.ok (), middle)) (rounds : Nat) :
    engine c link rounds q w =
      loop (step c q link) rounds [(Conversation.begin c q e [] start limit t).1] middle := by
  rw [engine, hexchanges]
  dsimp only
  rw [hsendable, Bool.not_true, if_neg Bool.false_ne_true, bind_apply, hread]
  dsimp only
  rw [hrange]
  dsimp only
  rw [htargets, List.map_cons, List.map_nil, List.flatMap_cons, List.flatMap_nil, List.append_nil,
    bind_apply, hperform]
  dsimp only
  rw [if_neg hwaits]
  rfl

/-! ### Records -/

theorem perform_records (outputs : List Output) :
    Records (Output.perform link.recorded outputs) (Performed outputs) := by
  induction outputs with
  | nil => exact Records.pure _ .nil
  | cons output rest ih =>
      cases output with
      | note event =>
          apply Records.note_bind
          intro w result after hrun
          obtain ⟨uses, huses, hrest⟩ := ih w result after hrun
          exact ⟨uses, huses, .note hrest⟩
      | send frame =>
          apply link.records_transmit_bind
          · intro cause
            exact .failed
          · intro w result after hrun
            obtain ⟨uses, huses, hrest⟩ := ih w result after hrun
            exact ⟨uses, huses, .sent hrest⟩

theorem step_records (all : List Conversation) :
    Records (step c q link.recorded all) (GoesOn (Listened c q) all) := by
  rw [step]
  by_cases hover : all.all (·.isOver)
  · rw [if_pos hover]
    exact Records.pure _ (.ended hover)
  · rw [if_neg hover]
    apply link.records_batch_bind
    · intro cause
      exact .failed hover
    · intro batch
      apply link.records_clock_bind
      intro now
      apply Records.bind (perform_records link _)
      · intro reason sends hsends
        exact .unsent hover hsends
      · intro _ sends hsends
        apply Records.pure
        intro result rest hrest
        rw [List.append_nil]
        exact .round hover hsends hrest

/-- Whatever a query comes to, its record shows how. -/
theorem engine_records (rounds : Nat) :
    Records (engine c link.recorded rounds q) (Queried c q) := by
  rw [engine]
  cases hexchanges : q.exchanges with
  | nil => exact Records.fail _ (.refused (Or.inl hexchanges))
  | cons first later =>
      dsimp only
      by_cases hsendable : isSendable q
      · rw [hsendable, Bool.not_true, if_neg Bool.false_ne_true]
        apply link.records_clock_bind
        intro start
        cases hrange : Instant.after? start (c.longestWait q.timeout) with
        | none =>
            apply Records.note_bind
            exact Records.fail _ (.outOfRange hsendable hrange)
        | some limit =>
            apply Records.bind (perform_records link _)
            · intro reason sends hsends
              exact .unsent hexchanges hrange hsends
            · intro _ sends hsends
              by_cases htimeout : q.timeout = .zero
              · rw [if_pos htimeout]
                apply Records.note_bind
                apply Records.pure
                rw [List.append_nil]
                exact .unheard hexchanges hrange hsends htimeout
              · rw [if_neg htimeout]
                have hloop := Records.loop (step_records link c q) rounds
                  ((q.targets.map (Conversation.begin c q first later start limit)).map (·.1))
                intro w result after hrun
                obtain ⟨rest, hrest, hlistened⟩ := hloop w result after hrun
                exact ⟨rest, hrest, .heard hexchanges hrange hsends htimeout hlistened⟩
      · rw [Bool.eq_false_iff.mpr hsendable, Bool.not_false, if_pos rfl]
        exact Records.fail _ (.refused (Or.inr (Bool.eq_false_iff.mpr hsendable)))

/-! ### The record changes nothing -/

theorem perform_mirrors (outputs : List Output) :
    Mirrors (Output.perform link.recorded outputs) (Output.perform link outputs) := by
  induction outputs with
  | nil => exact .pure _
  | cons output rest ih =>
      cases output with
      | note event => exact Mirrors.bind (.note event) fun _ => ih
      | send frame => exact Mirrors.bind (link.transmit_recorded frame) fun _ => ih

theorem step_mirrors (all : List Conversation) :
    Mirrors (step c q link.recorded all) (step c q link all) := by
  rw [step, step]
  by_cases hover : all.all (·.isOver)
  · rw [if_pos hover, if_pos hover]
    exact .pure _
  · rw [if_neg hover, if_neg hover]
    apply Mirrors.bind link.batch_recorded
    intro batch
    apply Mirrors.bind link.clock_recorded
    intro now
    exact Mirrors.bind (perform_mirrors link _) fun _ => .pure _

theorem engine_mirrors (rounds : Nat) :
    Mirrors (engine c link.recorded rounds q) (engine c link rounds q) := by
  rw [engine, engine]
  cases q.exchanges with
  | nil => exact .fail _
  | cons first later =>
      dsimp only
      by_cases hsendable : isSendable q
      · rw [hsendable, Bool.not_true, if_neg Bool.false_ne_true, if_neg Bool.false_ne_true]
        apply Mirrors.bind link.clock_recorded
        intro start
        cases Instant.after? start (c.longestWait q.timeout) with
        | none => exact Mirrors.bind (.note _) fun _ => .fail _
        | some limit =>
            apply Mirrors.bind (perform_mirrors link _)
            intro _
            by_cases htimeout : q.timeout = .zero
            · rw [if_pos htimeout, if_pos htimeout]
              exact Mirrors.bind (.note _) fun _ => .pure _
            · rw [if_neg htimeout, if_neg htimeout]
              exact Mirrors.loop (step_mirrors link c q) rounds _
      · rw [Bool.eq_false_iff.mpr hsendable, Bool.not_false, if_pos rfl, if_pos rfl]
        exact .fail _

/-! ### Bounded readings -/

variable {bound : Nat}

theorem limited_perform_ends (outputs : List Output) :
    Ends Allowance.left bound (Output.perform link.limited outputs) := by
  induction outputs with
  | nil => exact .pure _
  | cons output rest ih =>
      cases output with
      | note event => exact Ends.bind (.note event) fun _ => ih
      | send frame => exact Ends.bind (link.limited_transmit_ends frame) fun _ => ih

theorem limited_step_spends (all : List Conversation) :
    Spends Allowance.left bound (step c q link.limited all) := by
  rw [step]
  by_cases hover : all.all (·.isOver)
  · rw [if_pos hover]
    apply Spends.of_ends (.pure _)
    rintro w result after hrun ⟨next, rfl⟩
    cases hrun
  · rw [if_neg hover]
    apply link.limited_batch_spends
    intro batch
    apply Ends.bind link.limited_clock_ends
    intro now
    exact Ends.bind (limited_perform_ends link _) fun _ => .pure _

/-- A query ends when it is allowed more rounds than there are readings left. -/
theorem limited_engine_ends : Ends Allowance.left bound (engine c link.limited bound q) := by
  rw [engine]
  cases q.exchanges with
  | nil => exact .fail _
  | cons first later =>
      dsimp only
      by_cases hsendable : isSendable q
      · rw [hsendable, Bool.not_true, if_neg Bool.false_ne_true]
        apply Ends.bind link.limited_clock_ends
        intro start
        cases Instant.after? start (c.longestWait q.timeout) with
        | none => exact Ends.bind (.note _) fun _ => .fail _
        | some limit =>
            apply Ends.bind (limited_perform_ends link _)
            intro _
            by_cases htimeout : q.timeout = .zero
            · rw [if_pos htimeout]
              exact Ends.bind (.note _) fun _ => .pure _
            · rw [if_neg htimeout]
              exact Ends.loop (limited_step_spends link c q) _
      · rw [Bool.eq_false_iff.mpr hsendable, Bool.not_false, if_pos rfl]
        exact .fail _

/-! ### Contracts of a query -/

section Contracts

variable {cutOff : Prop} {I P : σ → Prop} {R : List Frame → σ → Prop}
  {S : List Frame → Instant → σ → Prop} {N M : Instant → σ → Prop}
  {J : List Conversation → σ → Prop} {Q : Except DiagnosticError Answers → σ → Prop}

/-- What is left after outputs were performed: more of the query, or its failure. -/
def Goes (Q : Except DiagnosticError Answers → σ → Prop) (I : σ → Prop) :
    Except DiagnosticError Unit → σ → Prop
  | .error e, world => Q (.error e) world
  | .ok (), world => I world

/-- Outputs keep what sending their frames keeps. -/
theorem perform_keeps {outputs : List Output} (hsend : ∀ frame, .send frame ∈ outputs →
      ∀ world, I world → I (link.send [frame] world).world) :
    Keeps cutOff I (Output.perform link outputs) := by
  induction outputs with
  | nil => exact Meets.pure _ fun _ h => h
  | cons output rest ih =>
      have hrest := ih fun frame hframe => hsend frame (List.mem_cons_of_mem _ hframe)
      cases output with
      | note event => exact Meets.note_bind event hrest
      | send frame =>
          have hframe := hsend frame List.mem_cons_self
          exact link.meets_transmit_bind (fun world _ h _ => hframe world h)
            (fun world h _ => hframe world h) hrest

/-- A round, use by use: `R` after the bus was read, `S` after the clock was. -/
theorem step_meets {all : List Conversation}
    (hover : all.all (·.isOver) = true → ∀ world, P world → Q (.ok (Round.answers all)) world)
    (hfailed : ¬all.all (·.isOver) = true → ∀ world cause, P world →
      (link.receive world).result = .error cause →
        Q (.error (.bus cause)) (link.receive world).world)
    (hreceived : ¬all.all (·.isOver) = true → ∀ world batch, P world →
      (link.receive world).result = .ok batch → R batch (link.receive world).world)
    (hnow : ∀ batch world, R batch world → S batch (link.now world).1 (link.now world).2)
    (hplayed : ∀ batch now, Meets cutOff (S batch now)
      (Output.perform link (Round.play c q now batch all).2)
      (Goes Q (J (Round.play c q now batch all).1))) :
    Meets cutOff P (step c q link all) (Continues J Q) := by
  rw [step]
  by_cases hend : all.all (·.isOver)
  · rw [if_pos hend]
    exact Meets.pure _ (hover hend)
  · rw [if_neg hend]
    apply link.meets_batch_bind (Q := Continues J Q) (hfailed hend) (hreceived hend)
    intro batch
    apply link.meets_clock_bind (hnow batch)
    intro now
    exact Meets.bind (hplayed batch now) (fun _ _ h => h) fun _ => Meets.pure _ fun _ h => h

/-- A query, part by part: `N` after the clock was read, `M` after the first frames were sent. -/
theorem engine_meets {rounds : Nat}
    (hrefused : q.exchanges = [] ∨ isSendable q = false → ∀ world, P world →
      Q (.error .invalidParameter) world)
    (hnow : ∀ world, P world → N (link.now world).1 (link.now world).2)
    (hrange : ∀ start, Instant.after? start (c.longestWait q.timeout) = none → ∀ world,
      N start world → Q (.error .invalidParameter) world)
    (hasked : ∀ first later start limit, q.exchanges = first :: later →
      Instant.after? start (c.longestWait q.timeout) = some limit →
        Meets cutOff (N start) (Output.perform link
          ((q.targets.map (Conversation.begin c q first later start limit)).flatMap (·.2)))
          (Goes Q (M start)))
    (hunheard : q.timeout = .zero → ∀ start world, M start world → Q (.ok .empty) world)
    (hheard : q.timeout ≠ .zero → ∀ first later start limit, q.exchanges = first :: later →
      Instant.after? start (c.longestWait q.timeout) = some limit →
        Meets cutOff (M start) (loop (step c q link) rounds
          ((q.targets.map (Conversation.begin c q first later start limit)).map (·.1))) Q) :
    Meets cutOff P (engine c link rounds q) Q := by
  rw [engine]
  cases hexchanges : q.exchanges with
  | nil => exact Meets.fail _ (hrefused (.inl hexchanges))
  | cons first later =>
      dsimp only
      by_cases hsendable : isSendable q
      · rw [hsendable, Bool.not_true, if_neg Bool.false_ne_true]
        apply link.meets_clock_bind hnow
        intro start
        cases hlimit : Instant.after? start (c.longestWait q.timeout) with
        | none => exact Meets.note_bind _ (Meets.fail _ (hrange start hlimit))
        | some limit =>
            refine Meets.bind (hasked first later start limit hexchanges hlimit)
              (fun e world (h : Q (.error e) world) => h) fun _ => ?_
            by_cases htimeout : q.timeout = .zero
            · rw [if_pos htimeout]
              exact Meets.note_bind _ (Meets.pure _ (hunheard htimeout start))
            · rw [if_neg htimeout]
              exact hheard htimeout first later start limit hexchanges hlimit
      · have hunsendable : isSendable q = false := Bool.eq_false_iff.mpr hsendable
        rw [hunsendable, Bool.not_false, if_pos rfl]
        exact Meets.fail _ (hrefused (.inr hunsendable))

end Contracts

end EcuQuiet.IsoTp
