import EcuQuiet.Proofs.Bus.Ending
import EcuQuiet.Proofs.Disabling.Trials
import EcuQuiet.Scripted.Engine
import EcuQuiet.Scripted.Playback

/-!
# The course of a disabling

A disabling with valid options is a series of trials: each of them sound, all but the last one
failed, no more of them than allowed, and the outcome read off them. The record that shows the
trials changes nothing, and a disabling ends whenever its engine and its waiting for silence do.
-/

namespace EcuQuiet.Disabling

open Recorded Run

variable {σ : Type} {plain : Engine σ} {engine : Engine (Recorded σ)} (link : Link σ)
  (rounds : Nat) (o : Options)

/-! ### The record changes nothing -/

theorem awaitSilence_mirrors :
    Mirrors (awaitSilence link.recorded rounds o) (awaitSilence link rounds o) := by
  rw [awaitSilence, awaitSilence]
  cases o.watchedAddresses with
  | none =>
      apply Mirrors.bind (.note _)
      intro _
      exact Mirrors.bind (link.pause_recorded _) fun _ => .pure _
  | some addresses =>
      apply Mirrors.bind (.note _)
      intro _
      apply Mirrors.bind (Silence.watch_mirrors link rounds _ _ _ _)
      intro quiet
      cases quiet with
      | true => exact Mirrors.bind (.note _) fun _ => .pure _
      | false => exact Mirrors.bind (.note _) fun _ => .pure _

theorem attempt_mirrors (hengine : ∀ q, Mirrors (engine q) (plain q)) :
    Mirrors (attempt engine.recorded link.recorded rounds o) (attempt plain link rounds o) := by
  have hsession : Mirrors (enterSession engine.recorded o) (enterSession plain o) := by
    apply Mirrors.bind (Engine.recorded_mirrors (hengine _))
    intro answers
    apply Mirrors.bind (.ofExcept _)
    intro response
    exact Mirrors.bind (.noteAll _) fun _ => .ofExcept _
  apply Mirrors.bind hsession
  intro _
  apply Mirrors.bind (.note _)
  intro _
  apply Mirrors.bind (Engine.recorded_mirrors (hengine _))
  intro _
  exact Mirrors.bind (.note _) fun _ => awaitSilence_mirrors link rounds o

theorem attempts_mirrors {attempt : Run (Recorded σ) Silencing} {attempt' : Run σ Silencing}
    (h : Mirrors attempt attempt') (target : Target) (left made : Nat)
    (w : Logged (Recorded σ)) :
    (attempts attempt target left made w).map (fun (outcome, after) => (outcome, erase after)) =
      attempts attempt' target left made (erase w) := by
  induction left generalizing made w with
  | zero => rfl
  | succ left ih =>
      rw [attempts, attempts, ← h w]
      -- a failed attempt is the only one with further attempts behind it
      rcases attempt w with _ | ⟨reason | silencing, after⟩
      · rfl
      · exact ih (made + 1) _
      · rfl

theorem run_mirrors (hengine : ∀ q, Mirrors (engine q) (plain q)) (w : Logged (Recorded σ)) :
    (run engine.recorded link.recorded rounds o w).map
        (fun (outcome, after) => (outcome, erase after)) =
      run plain link rounds o (erase w) := by
  rw [run, run]
  cases o.validate with
  | error reason => rfl
  | ok _ => exact attempts_mirrors (attempt_mirrors link rounds o hengine) _ _ _ _

/-- A disabling as its record shows it, from the disabling alone. -/
theorem exists_recorded_run (hengine : ∀ q, Mirrors (engine q) (plain q)) {w after : Logged σ}
    {outcome : Outcome} (hrun : run plain link rounds o w = some (outcome, after)) :
    ∃ record, run engine.recorded link.recorded rounds o (blank w) = some (outcome, record) ∧
      erase record = after := by
  have hmirrors := run_mirrors link rounds o hengine (blank w)
  rw [erase_blank, hrun, Option.map_eq_some_iff] at hmirrors
  obtain ⟨⟨outcome', record⟩, hrecord, heq⟩ := hmirrors
  cases heq
  exact ⟨record, hrecord, rfl⟩

/-! ### A disabling ends when its parts do -/

variable {left : σ → Nat} {bound : Nat} {link rounds o}

theorem attempt_ends (hengine : ∀ q, Ends left bound (plain q))
    (hsilence : Ends left bound (awaitSilence link rounds o)) :
    Ends left bound (attempt plain link rounds o) := by
  have hsession : Ends left bound (enterSession plain o) := by
    apply Ends.bind (hengine _)
    intro answers
    apply Ends.bind (.ofExcept _)
    intro response
    exact Ends.bind (.noteAll _) fun _ => .ofExcept _
  apply Ends.bind hsession
  intro _
  apply Ends.bind (.note _)
  intro _
  apply Ends.bind (hengine _)
  intro _
  exact Ends.bind (.note _) fun _ => hsilence

theorem attempts_ends {attempt : Run σ Silencing} (h : Ends left bound attempt) (target : Target)
    (allowed made : Nat) (w : Logged σ) (hw : left w.world < bound) :
    (attempts attempt target allowed made w).isSome := by
  induction allowed generalizing made w with
  | zero => rfl
  | succ allowed ih =>
      obtain ⟨result, after, hrun, hle⟩ := h w hw
      rw [attempts, hrun]
      cases result with
      | ok silencing => rfl
      | error reason => exact ih _ _ (Nat.lt_of_le_of_lt hle hw)

theorem run_ends (hengine : ∀ q, Ends left bound (plain q))
    (hsilence : Ends left bound (awaitSilence link rounds o)) (w : Logged σ)
    (hw : left w.world < bound) : (run plain link rounds o w).isSome := by
  rw [run]
  cases o.validate with
  | error reason => rfl
  | ok _ => exact attempts_ends (attempt_ends hengine hsilence) _ _ _ _ hw

/-! ### What is asked of the engine -/

/-- A trial asks for the session, and for communication control if and only if the session was
granted. -/
theorem Trial.Sound.queries_eq {trial : Trial}
    (h : trial.Sound (fun _ _ meanwhile => meanwhile = []) o) :
    Use.queries trial.uses =
      sessionQuery o :: if granted o trial.session then [controlQuery o] else [] := by
  cases h with
  | refused hsession hrefused =>
      subst hsession
      rw [hrefused]
      rfl
  | unsent hsession hgranted hcontrol =>
      subst hsession hcontrol
      rw [hgranted]
      rfl
  | sent hsession hgranted hcontrol hsettled =>
      subst hsession hcontrol
      rw [hgranted, Use.queries_append, Use.queries_eq_nil hsettled.passive, List.append_nil]
      rfl

theorem queries_trials {trials : List Trial}
    (h : ∀ trial ∈ trials, trial.Sound (fun _ _ meanwhile => meanwhile = []) o) :
    Use.queries (trials.flatMap (·.uses)) = trials.flatMap fun trial =>
      sessionQuery o :: if granted o trial.session then [controlQuery o] else [] := by
  induction trials with
  | nil => rfl
  | cons trial trials ih =>
      obtain ⟨htrial, htrials⟩ := List.forall_mem_cons.mp h
      rw [List.flatMap_cons, List.flatMap_cons, Use.queries_append, htrial.queries_eq, ih htrials]

/-- With options that are not valid, nothing is asked of the engine and the link is not used. With
valid ones, a disabling is a series of trials. In each of them the engine is asked for the session,
and then for communication control if and only if the session was granted; the series ends with the
first trial that succeeds, or with the last one allowed. A disabling ends unless its engine or its
waiting for silence is cut off. -/
theorem run_course (engine : Engine σ) (link : Link σ) (rounds : Nat) (o : Options)
    (w : Logged σ) :
    (∀ reason, o.validate = .error reason →
      run engine.unrecorded.recorded link.recorded rounds o (blank w) =
        some ({ disabled := false, attempts := 0, silencing := .notReached },
          blank ((w.note (.disabling o.target)).note (.optionsRejected reason)))) ∧
    (o.validate = .ok () →
      ((∀ q w, (engine q w).isSome) → (∀ w, (awaitSilence link rounds o w).isSome) →
        (run engine link rounds o w).isSome) ∧
      ∀ outcome after, run engine link rounds o w = some (outcome, after) →
        ∃ (record : Logged (Recorded σ)) (trials : List Trial),
          run engine.unrecorded.recorded link.recorded rounds o (blank w) =
            some (outcome, record) ∧
          erase record = after ∧
          record.world.uses.toList = trials.flatMap (·.uses) ∧
          (∀ trial ∈ trials, trial.Sound (fun _ _ meanwhile => meanwhile = []) o) ∧
          record.world.queries = trials.flatMap (fun trial =>
            { bus := o.bus, targets := [o.target], timeout := o.timeout
              exchanges := [{ request := [0x10, 0x03], expected := [0x50, 0x03] }] } ::
            if granted o trial.session then
              [{ bus := o.bus, targets := [o.target], timeout := .zero
                 exchanges := [{ request := o.request, expected := [] }] }]
            else []) ∧
          trials.length ≤ o.retry.toNat ∧ outcome.attempts = trials.length ∧
          Concludes o.retry.toNat trials outcome.disabled outcome.silencing) := by
  refine ⟨?_, fun hvalid => ⟨?_, ?_⟩⟩
  · intro reason hinvalid
    rw [run, hinvalid]
    rfl
  · -- with nothing to spend, what ends at all ends with as much as before
    intro hengine hsilence
    refine @run_ends _ _ _ _ _ (fun _ => 0) 1 (fun q w _ => ?_) (fun w _ => ?_) w Nat.zero_lt_one
    · obtain ⟨⟨result, after⟩, hrun⟩ := Option.isSome_iff_exists.mp (hengine q w)
      exact ⟨result, after, hrun, Nat.le_refl _⟩
    · obtain ⟨⟨result, after⟩, hrun⟩ := Option.isSome_iff_exists.mp (hsilence w)
      exact ⟨result, after, hrun, Nat.le_refl _⟩
  · intro outcome after hrun
    obtain ⟨record, hrecord, herased⟩ :=
      exists_recorded_run link rounds o engine.unrecorded_mirrors hrun
    have hattempts := hrecord
    rw [run, hvalid] at hattempts
    obtain ⟨trials, hsound, huses, hcount, hconcludes⟩ :=
      attempts_records (attempt_records link rounds o engine.unrecorded_records) _ _ _ hattempts
    replace huses : record.world.uses.toList = trials.flatMap (·.uses) := huses
    rw [Nat.zero_add] at hcount
    refine ⟨record, trials, hrecord, herased, huses, hsound, ?_, ?_, hcount, hconcludes⟩
    · have hqueries : record.world.queries = Use.queries (trials.flatMap (·.uses)) := by
        rw [← huses]
        rfl
      rw [hqueries, queries_trials hsound]
      rfl
    · exact hconcludes.length_le

/-- The engine of a script answers nothing at first, and then that the session was entered. -/
def lateAnswer : Logged (Scripted.Prepared Scripted.Playback) where
  world :=
    { world := {}
      results := [.ok .empty, .ok (Answers.empty.insert default (.ok [0x50, 0x03]))] }

theorem run_course_lateAnswer :
    run (Engine.recorded (Engine.unrecorded Scripted.engine))
        (Link.recorded (Scripted.link Scripted.Playback.link)) 0 { request := [] }
        (blank lateAnswer) =
      some ({ disabled := false, attempts := 0, silencing := .notReached },
        blank ((lateAnswer.note (.disabling default)).note (.optionsRejected .invalidParameter))) ∧
    (run Scripted.engine (Scripted.link Scripted.Playback.link) 0 { retry := 3 }
      lateAnswer).isSome ∧
    ∃ (record : Logged (Recorded (Scripted.Prepared Scripted.Playback))) (trials : List Trial),
      record.world.uses.toList = trials.flatMap (·.uses) ∧ trials.length = 2 ∧
      Concludes 3 trials true (.left defaultDelay) := by
  have hrun : (run Scripted.engine (Scripted.link Scripted.Playback.link) 0 { retry := 3 }
      lateAnswer).map (·.1) = some ⟨true, 2, .left defaultDelay⟩ := by decide +kernel
  obtain ⟨⟨outcome, after⟩, hrun, rfl⟩ := Option.map_eq_some_iff.mp hrun
  obtain ⟨hends, hcourse⟩ := (run_course Scripted.engine (Scripted.link Scripted.Playback.link) 0
    { retry := 3 } lateAnswer).2 rfl
  obtain ⟨record, trials, -, -, huses, -, -, -, hattempts, hconcludes⟩ := hcourse _ _ hrun
  refine ⟨(run_course Scripted.engine (Scripted.link Scripted.Playback.link) 0 { request := [] }
    lateAnswer).1 _ rfl, hends ?_ ?_, record, trials, huses, hattempts.symm, hconcludes⟩
  · intro q w
    rw [Scripted.engine]
    cases w.world.results <;> rfl
  · intro w
    rfl

end EcuQuiet.Disabling
