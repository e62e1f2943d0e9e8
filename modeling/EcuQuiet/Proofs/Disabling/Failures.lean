import EcuQuiet.Proofs.Disabling.Course
import EcuQuiet.Proofs.Disabling.Validity

/-!
# Disablings that fail

An attempt fails before communication control or after it. Before it, nothing was done to the unit.
After it, only a reading of the watch can fail the attempt, and then the unit was told to be silent
although the attempt does not count. So a disabling that fails has left its unit alone exactly if
none of its watches lost the bus.
-/

namespace EcuQuiet

namespace Silence

variable {bus : UInt8} {addresses : AddressSet} {timeout : Span} {settings : Settings}
  {verdict : Except DiagnosticError Bool} {uses : List Use}

theorem Looked.failed_iff {poll : Span} {w : Window} (h : Looked poll w verdict uses) :
    (∃ reason, verdict = .error reason) ↔ ∃ cause, .received (.error cause) ∈ uses := by
  induction h with
  | expired | failed | quiet => simp
  | paused _ _ _ ih => simpa using ih

/-- A watch with room for its quiet span fails exactly if it loses the bus. -/
theorem Watched.failed_iff (h : Watched bus addresses timeout settings verdict uses)
    (hopens : settings.quiet < timeout) :
    (∃ reason, verdict = .error reason) ↔ ∃ cause, .received (.error cause) ∈ uses := by
  cases h with
  | @refused now _ hrefused =>
      have hopened : Window.open? bus addresses timeout settings now =
          .ok (.opening bus addresses timeout settings now) := if_neg (Nat.not_le.mpr hopens)
      cases hrefused.symm.trans hopened
  | opened _ hlooked =>
      rw [hlooked.failed_iff]
      simp

end Silence

namespace Disabling

open Recorded

/-- In an attempt, the engine was asked for communication control and had no error. -/
def Trial.Controls (o : Options) (trial : Trial) : Prop :=
  ∃ answers, asking (controlQuery o) [] (.ok answers) <:+: trial.uses

/-- In an attempt, a reading of the bus failed. -/
def Trial.LosesBus (trial : Trial) : Prop := ∃ cause, .received (.error cause) ∈ trial.uses

variable {σ : Type} {o : Options} {trial : Trial}

theorem sessionQuery_ne_controlQuery (o : Options) : sessionQuery o ≠ controlQuery o := by
  intro h
  cases congrArg (fun q => q.exchanges.map (·.expected)) h

/-- With valid options, waiting for silence fails exactly if the bus is lost. -/
theorem Settled.failed_iff {result : Except DiagnosticError Silencing} {uses : List Use}
    (h : Settled o result uses) (hvalid : o.validate = .ok ()) :
    (∃ reason, result = .error reason) ↔ ∃ cause, .received (.error cause) ∈ uses := by
  cases h with
  | left => simp
  | @watched _ verdict _ hwatched huses =>
      have hopens := (Options.validate_iff.mp hvalid).2.2 (hwatched ▸ rfl)
      rw [← huses.failed_iff hopens]
      cases verdict <;> simp [Except.map]

/-- An attempt that fails has sent communication control exactly if it has lost the bus. -/
theorem Trial.Sound.controls_iff (h : trial.Sound (fun _ _ meanwhile => meanwhile = []) o)
    (hvalid : o.validate = .ok ()) (hfailed : trial.Failed) :
    trial.Controls o ↔ trial.LosesBus := by
  have hqueries := sessionQuery_ne_controlQuery o
  cases h with
  | refused hsession =>
      subst hsession
      refine iff_of_false ?_ ?_
      · simp [Controls, asking, List.infix_cons_iff, hqueries.symm]
      · simp [LosesBus, asking]
  | unsent hsession _ hcontrol =>
      subst hsession hcontrol
      refine iff_of_false ?_ ?_
      · simp [Controls, asking, List.infix_cons_iff, hqueries.symm]
      · simp [LosesBus, asking]
  | sent hsession _ hcontrol hsettled =>
      subst hsession hcontrol
      refine iff_of_true ⟨_, List.infix_append ..⟩ ?_
      obtain ⟨cause, hcause⟩ := (hsettled.failed_iff hvalid).mp hfailed
      exact ⟨cause, List.mem_append_right _ hcause⟩

/-- An attempt that watches nothing reads nothing. -/
theorem Trial.Sound.not_losesBus (h : trial.Sound (fun _ _ meanwhile => meanwhile = []) o)
    (hunwatched : o.watchedAddresses = none) : ¬trial.LosesBus := by
  cases h with
  | refused hsession =>
      subst hsession
      simp [LosesBus, asking]
  | unsent hsession _ hcontrol =>
      subst hsession hcontrol
      simp [LosesBus, asking]
  | sent hsession _ hcontrol hsettled =>
      subst hsession hcontrol
      cases hsettled with
      | left => simp [LosesBus, asking]
      | watched hwatched => cases hwatched.symm.trans hunwatched

/-- A series that concludes without success has used up its attempts, and all of them have
failed. -/
theorem Concludes.of_failure {retry : Nat} {trials : List Trial} {silencing : Silencing}
    (h : Concludes retry trials false silencing) :
    silencing = .notReached ∧ trials.length = retry ∧ ∀ trial ∈ trials, trial.Failed := by
  cases h with
  | gaveUp hfailed hlength => exact ⟨rfl, hlength, hfailed⟩

/-- A disabling with valid options that fails has made all of its attempts. Communication control
was sent in just those of them whose watch lost the bus, whatever the engine and the bus did; so
the unit was left alone if no reading of a watch failed, and always if nothing is watched. -/
theorem controlled_iff_bus_lost (engine : Engine σ) (link : Link σ) (rounds : Nat)
    (hvalid : o.validate = .ok ()) {w after : Logged σ} {outcome : Outcome}
    (hrun : run engine link rounds o w = some (outcome, after))
    (hfailed : outcome.disabled = false) :
    outcome.silencing = .notReached ∧
      ∃ (record : Logged (Recorded σ)) (trials : List Trial),
        run engine.unrecorded.recorded link.recorded rounds o (blank w) =
          some (outcome, record) ∧
        erase record = after ∧
        record.world.uses.toList = trials.flatMap (·.uses) ∧
        (∀ trial ∈ trials, trial.Sound (fun _ _ meanwhile => meanwhile = []) o) ∧
        trials.length = o.retry.toNat ∧
        (∀ trial ∈ trials, trial.Controls o ↔ trial.LosesBus) ∧
        (o.watchedAddresses = none → ∀ trial ∈ trials, ¬trial.Controls o) := by
  obtain ⟨record, hrecord, herased⟩ :=
    exists_recorded_run link rounds o engine.unrecorded_mirrors hrun
  have hattempts := hrecord
  rw [run, hvalid] at hattempts
  obtain ⟨trials, hsound, huses, -, hconcludes⟩ :=
    attempts_records (attempt_records link rounds o engine.unrecorded_records) _ _ _ hattempts
  rw [hfailed] at hconcludes
  obtain ⟨hsilencing, hlength, hall⟩ := hconcludes.of_failure
  have hcontrols : ∀ trial ∈ trials, trial.Controls o ↔ trial.LosesBus := fun trial htrial =>
    (hsound trial htrial).controls_iff hvalid (hall trial htrial)
  refine ⟨hsilencing, record, trials, hrecord, herased, huses, hsound, hlength, hcontrols, ?_⟩
  intro hunwatched trial htrial hcontrolled
  exact (hsound trial htrial).not_losesBus hunwatched ((hcontrols trial htrial).mp hcontrolled)

/-- Two attempts that watch one address. -/
def twiceWatching : Options where
  retry := 2
  watched := some (.ofList [0x500])

/-- The session is granted once and the unit takes communication control, but the first reading of
the watch fails, and after that nothing is answered any more. -/
def interrupted : Logged (Scripted.Prepared Scripted.Playback) where
  world :=
    { world := { readings := [{ takes := .ofMillis 1, result := .error .readTimeout }] }
      results := [.ok (Answers.empty.insert default (.ok [0x50, 0x03])), .ok .empty] }

theorem controlled_iff_bus_lost_interrupted :
    ∃ (record : Logged (Recorded (Scripted.Prepared Scripted.Playback))) (trials : List Trial),
      record.world.uses.toList = trials.flatMap (·.uses) ∧ trials.length = 2 ∧
      (∀ trial ∈ trials, trial.Controls twiceWatching ↔ trial.LosesBus) ∧
      ∃ trial ∈ trials, trial.Controls twiceWatching := by
  have hrun : ∃ after, run Scripted.engine (Scripted.link Scripted.Playback.link) 1 twiceWatching
      interrupted = some (⟨false, 2, .notReached⟩, after) := ⟨_, rfl⟩
  have hlost : ∃ record, run Scripted.engine.unrecorded.recorded
      (Scripted.link Scripted.Playback.link).recorded 1 twiceWatching (blank interrupted) =
        some (⟨false, 2, .notReached⟩, record) ∧
      .received (.error .readTimeout) ∈ record.world.uses.toList :=
    ⟨_, rfl, List.mem_of_getElem? (i := 6) rfl⟩
  obtain ⟨after, hrun⟩ := hrun
  obtain ⟨-, record, trials, hrecord, -, huses, -, hlength, hcontrols, -⟩ :=
    controlled_iff_bus_lost Scripted.engine (Scripted.link Scripted.Playback.link) 1
      (o := twiceWatching) rfl hrun rfl
  obtain ⟨record', hrecord', hlost⟩ := hlost
  cases hrecord.symm.trans hrecord'
  rw [huses] at hlost
  obtain ⟨trial, htrial, hfailed⟩ := List.mem_flatMap.mp hlost
  exact ⟨record, trials, huses, hlength, hcontrols, trial, htrial,
    (hcontrols trial htrial).mpr ⟨_, hfailed⟩⟩

/-- So a disabling can fail although its unit was told to be silent. -/
theorem failed_though_controlled :
    twiceWatching.validate = .ok () ∧ ∃ record,
      run Scripted.engine.unrecorded.recorded (Scripted.link Scripted.Playback.link).recorded 1
        twiceWatching (blank interrupted) = some (⟨false, 2, .notReached⟩, record) ∧
      asking (controlQuery twiceWatching) [] (.ok .empty) <:+: record.world.uses.toList := by
  refine ⟨rfl, _, rfl, ?_⟩
  exact ⟨asking (sessionQuery twiceWatching) []
    (.ok (Answers.empty.insert default (.ok [0x50, 0x03]))), _, rfl⟩

end Disabling

end EcuQuiet
