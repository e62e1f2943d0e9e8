import EcuQuiet.Disabling.Attempts
import EcuQuiet.Proofs.Silence.Watched

/-!
# Trials of a disabling

A `Trial` is an attempt as its record shows it. What an attempt asks of its engine depends only on
the answers it is given, and a disabling makes one attempt after the other until one succeeds or
none is left. Engine and link are arbitrary: the engine may answer whatever it likes and do to the
world whatever it likes, and what it does there is described by a predicate of its own.
-/

namespace EcuQuiet.Disabling

open Recorded

/-- Whether the result of the session query holds a positive response of the target to it. -/
def granted (o : Options) (session : Except DiagnosticError Answers) : Bool :=
  match session with
  | .error _ => false
  | .ok answers =>
      match answers.get? o.target with
      | some (.ok (first :: _)) => first = 0x50
      | _ => false

/-- The uses of waiting for silence, and what it came to. -/
inductive Settled (o : Options) : Except DiagnosticError Silencing → List Use → Prop
  | left (hunwatched : o.watchedAddresses = none) :
      Settled o (.ok (.left (o.delay.getD defaultDelay))) [.slept (o.delay.getD defaultDelay)]
  | watched {addresses : AddressSet} {verdict : Except DiagnosticError Bool} {uses : List Use}
      (hwatched : o.watchedAddresses = some addresses)
      (huses : Silence.Watched o.bus addresses o.watchTimeout o.silence verdict uses) :
      Settled o (verdict.map fun quiet => if quiet then .confirmed else .timedOut) uses

/-- Waiting for silence sends nothing and asks nothing of the engine. -/
theorem Settled.passive {o : Options} {result : Except DiagnosticError Silencing}
    {uses : List Use} (h : Settled o result uses) : ∀ use ∈ uses, use.Passive := by
  cases h with
  | left => simp [Use.Passive]
  | watched _ hwatched => exact hwatched.passive

/-- One query as the record shows it: what the engine did meanwhile, and its result. -/
def asking (q : Query) (meanwhile : List Use) (result : Except DiagnosticError Answers) :
    List Use :=
  .asked q :: meanwhile ++ [.answered result]

/-- One attempt. -/
structure Trial where
  /-- The result of the session query. -/
  session : Except DiagnosticError Answers
  /-- What the attempt came to. -/
  result : Except DiagnosticError Silencing
  /-- Everything it was used for, in order. -/
  uses : List Use

/-- What an attempt does. It asks for the session; communication control follows if the session was
granted, and waiting for silence follows if communication control brought no error. -/
inductive Trial.Sound (asks : Query → Except DiagnosticError Answers → List Use → Prop)
    (o : Options) : Trial → Prop
  | refused {session : Except DiagnosticError Answers} {reason : DiagnosticError}
      {first : List Use} (hsession : asks (sessionQuery o) session first)
      (hrefused : granted o session = false) :
      Sound asks o ⟨session, .error reason, asking (sessionQuery o) first session⟩
  | unsent {session : Except DiagnosticError Answers} {reason : DiagnosticError}
      {first second : List Use} (hsession : asks (sessionQuery o) session first)
      (hgranted : granted o session = true)
      (hcontrol : asks (controlQuery o) (.error reason) second) :
      Sound asks o ⟨session, .error reason,
        asking (sessionQuery o) first session ++ asking (controlQuery o) second (.error reason)⟩
  | sent {session : Except DiagnosticError Answers} {answers : Answers}
      {result : Except DiagnosticError Silencing} {first second third : List Use}
      (hsession : asks (sessionQuery o) session first) (hgranted : granted o session = true)
      (hcontrol : asks (controlQuery o) (.ok answers) second) (hsettled : Settled o result third) :
      Sound asks o ⟨session, result,
        asking (sessionQuery o) first session ++ asking (controlQuery o) second (.ok answers)
          ++ third⟩

/-- An attempt that ended with an error. -/
def Trial.Failed (trial : Trial) : Prop := ∃ reason, trial.result = .error reason

/-- What a series of trials comes to: it ends with the first one that succeeds, or with the last
one that is allowed. -/
inductive Concludes (retry : Nat) : List Trial → Bool → Silencing → Prop
  | disabled {failed : List Trial} {last : Trial} {silencing : Silencing}
      (hfailed : ∀ trial ∈ failed, trial.Failed) (hlast : last.result = .ok silencing)
      (hallowed : failed.length < retry) : Concludes retry (failed ++ [last]) true silencing
  | gaveUp {failed : List Trial} (hfailed : ∀ trial ∈ failed, trial.Failed)
      (hlength : failed.length = retry) : Concludes retry failed false .notReached

/-- A failed attempt before a series leaves its conclusion. -/
theorem Concludes.cons {left : Nat} {trial : Trial} {trials : List Trial} {disabled : Bool}
    {silencing : Silencing} (hfailed : trial.Failed)
    (h : Concludes left trials disabled silencing) :
    Concludes (left + 1) (trial :: trials) disabled silencing := by
  cases h with
  | @disabled failed last silencing hall hlast hallowed =>
      refine .disabled (List.forall_mem_cons.mpr ⟨hfailed, hall⟩) hlast ?_
      rw [List.length_cons]
      exact Nat.succ_lt_succ hallowed
  | gaveUp hall hlength =>
      exact .gaveUp (List.forall_mem_cons.mpr ⟨hfailed, hall⟩) (by rw [List.length_cons, hlength])

/-- No more attempts are made than allowed. -/
theorem Concludes.length_le {retry : Nat} {trials : List Trial} {disabled : Bool}
    {silencing : Silencing} (h : Concludes retry trials disabled silencing) :
    trials.length ≤ retry := by
  cases h with
  | disabled _ _ hallowed =>
      rw [List.length_append, List.length_singleton]
      exact hallowed
  | gaveUp _ hlength => exact Nat.le_of_eq hlength

section Records

variable {σ : Type} {engine : Engine (Recorded σ)} (link : Link σ) (rounds : Nat) (o : Options)
  {asks : Query → Except DiagnosticError Answers → List Use → Prop}

theorem awaitSilence_records :
    Run.Records (awaitSilence link.recorded rounds o) (Settled o) := by
  rw [awaitSilence]
  cases hwatched : o.watchedAddresses with
  | none =>
      apply Run.Records.note_bind
      apply link.records_pause_bind
      exact Run.Records.pure _ (.left hwatched)
  | some addresses =>
      apply Run.Records.note_bind
      apply Run.Records.bind (Silence.watch_records link rounds o.bus addresses _ _)
      · intro reason uses huses
        exact .watched hwatched huses
      · intro quiet uses huses
        cases quiet with
        | true =>
            apply Run.Records.note_bind
            apply Run.Records.pure
            rw [List.append_nil]
            exact .watched hwatched huses
        | false =>
            apply Run.Records.note_bind
            apply Run.Records.pure
            rw [List.append_nil]
            exact .watched hwatched huses

theorem confirm_of_positive {head : UInt8} {rest : Bytes} (h : head = 0x50) :
    Uds.confirm Uds.Service.sessionControl.request (head :: rest) = (.ok (), []) := if_pos h

theorem confirm_of_other {head : UInt8} {rest : Bytes} (h : head ≠ 0x50) :
    Uds.confirm Uds.Service.sessionControl.request (head :: rest) =
      (.error .wrongMessage, [.serviceMismatch Uds.Service.sessionControl.request head]) :=
  if_neg h

/-- The session is entered exactly when it was granted. -/
theorem enterSession_records
    (hengine : Run.Records (engine (sessionQuery o)) (asks (sessionQuery o))) :
    Run.Records (enterSession engine.recorded o) fun result uses =>
      ∃ session first, asks (sessionQuery o) session first ∧
        uses = asking (sessionQuery o) first session ∧
        (result = .ok () ∧ granted o session = true ∨
          (∃ reason, result = .error reason) ∧ granted o session = false) := by
  apply Run.Records.bind (Engine.recorded_records hengine)
  · rintro reason uses ⟨first, hfirst, rfl⟩
    exact ⟨_, first, hfirst, rfl, Or.inr ⟨⟨reason, rfl⟩, rfl⟩⟩
  · rintro answers uses ⟨first, hfirst, rfl⟩
    cases hanswer : answers.get? o.target with
    | none =>
        apply Run.Records.ofExcept_bind_error
        refine ⟨_, first, hfirst, List.append_nil _, Or.inr ⟨⟨_, rfl⟩, ?_⟩⟩
        simp only [granted, hanswer]
    | some answer =>
        cases answer with
        | error reason =>
            apply Run.Records.ofExcept_bind_error
            refine ⟨_, first, hfirst, List.append_nil _, Or.inr ⟨⟨_, rfl⟩, ?_⟩⟩
            simp only [granted, hanswer]
        | ok response =>
            apply Run.Records.ofExcept_bind_ok
            cases response with
            | nil =>
                apply Run.Records.noteAll_bind
                apply Run.Records.ofExcept
                refine ⟨_, first, hfirst, List.append_nil _, Or.inr ⟨⟨_, rfl⟩, ?_⟩⟩
                simp only [granted, hanswer]
            | cons head rest =>
                dsimp only
                by_cases hhead : head = 0x50
                · rw [confirm_of_positive hhead]
                  apply Run.Records.noteAll_bind
                  apply Run.Records.ofExcept
                  refine ⟨_, first, hfirst, List.append_nil _, Or.inl ⟨rfl, ?_⟩⟩
                  simp only [granted, hanswer, hhead, decide_true]
                · rw [confirm_of_other hhead]
                  apply Run.Records.noteAll_bind
                  apply Run.Records.ofExcept
                  refine ⟨_, first, hfirst, List.append_nil _, Or.inr ⟨⟨_, rfl⟩, ?_⟩⟩
                  simp only [granted, hanswer, hhead, decide_false]

/-- Whatever an attempt comes to, it leaves the record of a trial. -/
theorem attempt_records (hengine : ∀ q, Run.Records (engine q) (asks q)) :
    Run.Records (attempt engine.recorded link.recorded rounds o) fun result uses =>
      ∃ trial : Trial, trial.Sound asks o ∧ trial.result = result ∧ trial.uses = uses := by
  apply Run.Records.bind (enterSession_records o (hengine _))
  · rintro reason uses ⟨session, first, hfirst, rfl, ⟨h, -⟩ | ⟨-, hrefused⟩⟩
    · cases h
    · exact ⟨_, .refused hfirst hrefused, rfl, rfl⟩
  · rintro _ uses ⟨session, first, hfirst, rfl, ⟨-, hgranted⟩ | ⟨⟨_, h⟩, -⟩⟩
    · apply Run.Records.note_bind
      apply Run.Records.bind (Engine.recorded_records (hengine _))
      · rintro reason uses ⟨second, hsecond, rfl⟩
        exact ⟨_, .unsent hfirst hgranted hsecond, rfl, rfl⟩
      · rintro answers uses ⟨second, hsecond, rfl⟩
        apply Run.Records.note_bind
        intro w result after hrun
        obtain ⟨third, hthird, hsettled⟩ := awaitSilence_records link rounds o w result after hrun
        refine ⟨third, hthird, _, .sent hfirst hgranted hsecond hsettled, rfl, ?_⟩
        exact List.append_assoc _ _ _
    · cases h

/-- A series of attempts leaves the record of its trials, one after the other. -/
theorem attempts_records {attempt : Run (Recorded σ) Silencing} {sound : Trial → Prop}
    (hattempt : Run.Records attempt fun result uses =>
      ∃ trial : Trial, sound trial ∧ trial.result = result ∧ trial.uses = uses)
    (target : Target) (left made : Nat) {w after : Logged (Recorded σ)} {outcome : Outcome}
    (hrun : attempts attempt target left made w = some (outcome, after)) :
    ∃ trials : List Trial, (∀ trial ∈ trials, sound trial) ∧
      after.world.uses.toList = w.world.uses.toList ++ trials.flatMap (·.uses) ∧
      outcome.attempts = made + trials.length ∧
      Concludes left trials outcome.disabled outcome.silencing := by
  induction left generalizing made w with
  | zero =>
      cases hrun
      refine ⟨[], fun _ h => absurd h List.not_mem_nil, (List.append_nil _).symm, rfl, ?_⟩
      exact .gaveUp (fun _ h => absurd h List.not_mem_nil) rfl
  | succ left ih =>
      rw [attempts] at hrun
      cases hone : attempt w with
      | none => rw [hone] at hrun; cases hrun
      | some ended =>
          obtain ⟨result, middle⟩ := ended
          obtain ⟨_, huses, trial, hsound, hresult, rfl⟩ := hattempt w _ _ hone
          rw [hone] at hrun
          cases result with
          | ok silencing =>
              cases hrun
              refine ⟨[trial], fun _ h => ?_, ?_, rfl, ?_⟩
              · rw [List.mem_singleton.mp h]
                exact hsound
              · rw [huses, List.flatMap_singleton]
              · exact @Concludes.disabled _ [] _ _ (fun _ h => absurd h List.not_mem_nil) hresult
                  (Nat.zero_lt_succ left)
          | error reason =>
              -- the notes taken between two attempts are not part of the record
              obtain ⟨trials, htrials, hafter, hattempts, hconcludes⟩ := ih _ hrun
              refine ⟨trial :: trials, List.forall_mem_cons.mpr ⟨hsound, htrials⟩, ?_, ?_,
                hconcludes.cons ⟨reason, hresult⟩⟩
              · rw [hafter, List.flatMap_cons, ← List.append_assoc, ← huses]
                rfl
              · rw [hattempts, List.length_cons]
                omega

end Records

end EcuQuiet.Disabling
