import EcuQuiet.Proofs.Disabling.Course
import EcuQuiet.Proofs.IsoTp.Following

/-!
# The handshake on the bus

A disabling over frames, from the first frame of an attempt to the last: communication control
starts only after the extended session was confirmed on the bus during the same attempt, whatever
else happens there, and it starts once.
-/

namespace EcuQuiet.Disabling

open Recorded IsoTp

/-- The start frame of the session request. -/
def sessionStart (o : Options) : Frame :=
  IsoTp.Settings.startFrame {} o.bus o.target [0x10, 0x03]

/-- The start frame of communication control. -/
def controlStart (o : Options) : Frame :=
  IsoTp.Settings.startFrame {} o.bus o.target o.request

/-- Whether the frames received during some uses hold a message that confirms the session: one that
the target's frames on the bus are reassembled to. -/
def Confirmed (o : Options) (uses : List Use) : Prop :=
  ∃ message : Bytes, [0x50, 0x03] <+: message ∧
    .completed message ∈ Receiver.receptions { blockSize := 8 }
      (arrivals o.bus (responseAddress o.target.address 8) o.target (Use.heard uses))

/-- What an attempt does on the bus. The session request starts once, or never when the clock
cannot show the end of the wait for its response. Communication control does not start, or it starts
once, in its own query, and then the session was confirmed during the session query. -/
inductive Handshake (o : Options) : List Use → Prop
  | withheld {during rest : List Use} {session : Except DiagnosticError Answers}
      (hsession : (Use.frames during).count (sessionStart o) = 1 ∨
        ∃ start, during = [.read start] ∧
          Instant.after? start (IsoTp.Settings.longestWait {} o.timeout) = none)
      (hwithheld : controlStart o ∉ Use.frames during) (hrest : Use.frames rest = []) :
      Handshake o (asking (sessionQuery o) during session ++ rest)
  | sent {during rest : List Use} {answers : Answers} {now : Instant}
      {result : Except BusError Unit}
      (hsession : (Use.frames during).count (sessionStart o) = 1)
      (hwithheld : controlStart o ∉ Use.frames during) (hconfirmed : Confirmed o during)
      (hrest : Use.frames rest = []) :
      Handshake o (asking (sessionQuery o) during (.ok answers) ++
        .asked (controlQuery o) :: .read now :: .sent [controlStart o] result :: rest)

variable {o : Options}

theorem start_ne_start (hrequest : o.request ≠ [0x10, 0x03]) :
    controlStart o ≠ sessionStart o := by
  intro h
  apply hrequest
  apply IsoTp.Settings.startFrame_eq_of_short {} _ h
  obtain hcapacity | hcapacity := capacity_eq o.target <;> rw [hcapacity] <;> decide

/-- A session that was granted has a positive response of the target. -/
theorem exists_of_granted {session : Except DiagnosticError Answers}
    (h : granted o session = true) :
    ∃ answers response, session = .ok answers ∧ answers.get? o.target = some (.ok response) := by
  cases session with
  | error reason => cases h
  | ok answers =>
      rw [granted] at h
      cases hanswer : answers.get? o.target with
      | none => simp [hanswer] at h
      | some answer =>
          cases answer with
          | error reason => simp [hanswer] at h
          | ok response => exact ⟨answers, response, rfl, hanswer⟩

/-- What the session query does on the bus. -/
theorem session_queried (hrequest : o.request ≠ [0x10, 0x03])
    {session : Except DiagnosticError Answers} {during : List Use}
    (h : Queried {} (sessionQuery o) session during) :
    controlStart o ∉ Use.frames during ∧
      ((Use.frames during).count (sessionStart o) = 1 ∨
        ∃ start, during = [.read start] ∧
          Instant.after? start (IsoTp.Settings.longestWait {} o.timeout) = none) ∧
      (granted o session = true →
        (Use.frames during).count (sessionStart o) = 1 ∧ Confirmed o during) := by
  have hshort : Uds.extendedSession.request.length < capacity o.target := by
    obtain hcapacity | hcapacity := capacity_eq o.target <;> rw [hcapacity] <;> decide
  obtain ⟨start, rfl, rfl, hrange⟩ | ⟨start, sent, rest, rfl, hframes, hanswered⟩ :=
    h.of_short rfl rfl (by decide) hshort
  · exact ⟨List.not_mem_nil, Or.inr ⟨start, rfl, hrange⟩, fun hgranted => by cases hgranted⟩
  · have hcount : (Use.frames (.read start :: .sent [sessionStart o] sent :: rest)).count
        (sessionStart o) = 1 := by
      show (sessionStart o :: Use.frames rest).count (sessionStart o) = 1
      rw [List.count_cons_self, List.count_eq_zero_of_not_mem]
      intro hmem
      exact IsoTp.Settings.startFrame_ne_flowControl {} _ _ _ (hframes _ hmem)
    refine ⟨?_, Or.inl hcount, fun hgranted => ⟨hcount, ?_⟩⟩
    · intro hmem
      obtain h | h := List.mem_cons.mp (show controlStart o ∈ sessionStart o :: Use.frames rest
        from hmem)
      · exact start_ne_start hrequest h
      · exact IsoTp.Settings.startFrame_ne_flowControl {} _ _ _ (hframes _ h)
    · -- the answer of the query is what its target's frames were reassembled to
      obtain ⟨answers, response, rfl, hanswer⟩ := exists_of_granted hgranted
      obtain ⟨hexpected, hcompleted⟩ := hanswered answers response rfl hanswer
      exact ⟨response, hexpected, hcompleted⟩

/-- An attempt whose queries go over frames is a handshake. -/
theorem Trial.Sound.handshake (hrequest : o.request ≠ [0x10, 0x03]) {trial : Trial}
    (h : trial.Sound (Queried {}) o) : Handshake o trial.uses := by
  -- the control query, with what follows it, when the session was granted
  have hcontrol : ∀ {answers : Answers} {first second rest : List Use}
      {result : Except DiagnosticError Answers},
      Queried {} (sessionQuery o) (.ok answers) first → granted o (.ok answers) = true →
      Queried {} (controlQuery o) result second → Use.frames rest = [] →
      Handshake o (asking (sessionQuery o) first (.ok answers) ++
        (asking (controlQuery o) second result ++ rest)) := by
    intro answers first second rest result hfirst hgranted hsecond hrest
    obtain ⟨hwithheld, hsession, hconfirms⟩ := session_queried hrequest hfirst
    obtain ⟨hcount, hconfirmed⟩ := hconfirms hgranted
    obtain rfl | ⟨now, rfl⟩ | ⟨now, sent, rfl⟩ := hsecond.of_unheard rfl rfl rfl
    · exact .withheld hsession hwithheld hrest
    · exact .withheld hsession hwithheld hrest
    · exact .sent hcount hwithheld hconfirmed hrest
  cases h with
  | refused hsession hrefused =>
      obtain ⟨hwithheld, hsession, -⟩ := session_queried hrequest hsession
      rw [← List.append_nil (asking _ _ _)]
      exact .withheld hsession hwithheld rfl
  | unsent hsession hgranted hsecond =>
      obtain ⟨answers, -, rfl, -⟩ := exists_of_granted hgranted
      rw [← List.append_nil (asking (controlQuery o) _ _)]
      exact hcontrol hsession hgranted hsecond rfl
  | sent hsession hgranted hsecond hsettled =>
      obtain ⟨answers, -, rfl, -⟩ := exists_of_granted hgranted
      rw [List.append_assoc]
      exact hcontrol hsession hgranted hsecond (Use.frames_eq_nil hsettled.passive)

theorem limited_awaitSilence_ends {σ : Type} (link : Link σ) (bound : Nat) (o : Options) :
    Run.Ends Allowance.left bound (awaitSilence link.limited bound o) := by
  rw [awaitSilence]
  cases o.watchedAddresses with
  | none =>
      apply Run.Ends.bind (.note _)
      intro _
      exact Run.Ends.bind (link.limited_pause_ends _) fun _ => .pure _
  | some addresses =>
      apply Run.Ends.bind (.note _)
      intro _
      apply Run.Ends.bind (Silence.limited_watch_ends link bound _ _ _ _)
      intro quiet
      cases quiet with
      | true => exact Run.Ends.bind (.note _) fun _ => .pure _
      | false => exact Run.Ends.bind (.note _) fun _ => .pure _

/-- Whatever a bus does, every attempt of a disabling over frames is a handshake: communication
control starts at most once, after exactly one start of the session request, and only when the
frames received in between were reassembled to a confirmation of the session. A run that is cut off
is no exception, since the same holds when the bus fails at any reading from some number of them
on, and then every run ends. -/
theorem handshake_of_run {σ : Type} (link : Link σ) (rounds : Nat) (o : Options)
    (hvalid : o.validate = .ok ()) (hrequest : o.request ≠ [0x10, 0x03]) :
    (∀ w : Logged (Allowance σ), w.world.left < rounds →
      (runOverFrames link.limited rounds o w).isSome) ∧
    ∀ (w after : Logged σ) (outcome : Outcome),
      runOverFrames link rounds o w = some (outcome, after) →
      ∃ (record : Logged (Recorded σ)) (trials : List Trial),
        run (Engine.recorded (IsoTp.engine {} link.recorded rounds)) link.recorded rounds o
          (blank w) = some (outcome, record) ∧
        erase record = after ∧ record.world.uses.toList = trials.flatMap (·.uses) ∧
        outcome.attempts = trials.length ∧ ∀ trial ∈ trials, Handshake o trial.uses := by
  constructor
  · intro w hw
    exact run_ends (fun q => limited_engine_ends link {} q)
      (limited_awaitSilence_ends link rounds o) w hw
  · intro w after outcome hrun
    obtain ⟨record, hrecord, herased⟩ :=
      exists_recorded_run link rounds o (fun q => engine_mirrors link {} q rounds) hrun
    have hattempts := hrecord
    rw [run, hvalid] at hattempts
    obtain ⟨trials, hsound, huses, hcount, -⟩ := attempts_records
      (attempt_records link rounds o fun q => engine_records link {} q rounds) _ _ _ hattempts
    rw [Nat.zero_add] at hcount
    exact ⟨record, trials, hrecord, herased, huses, hcount,
      fun trial htrial => (hsound trial htrial).handshake hrequest⟩

/-- A bus on which the unit confirms the session in the second batch. -/
def confirming : Scripted.Playback where
  idle := .ofMillis 10
  readings :=
    [{ takes := .ofMillis 1, result := .ok [] },
      { takes := .ofMillis 1
        result := .ok [{ address := 0x7D8, bus := 0, data := [0x02, 0x50, 0x03] }] }]

theorem handshake_of_run_confirming :
    (runOverFrames Scripted.Playback.link.limited 4 { retry := 1 }
      { world := { world := confirming, left := 3 } }).isSome ∧
    ∃ (record : Logged (Recorded Scripted.Playback)) (trials : List Trial),
      record.world.uses.toList = trials.flatMap (·.uses) ∧ trials.length = 1 ∧
      ∀ trial ∈ trials, Handshake { retry := 1 } trial.uses := by
  have hrun : (runOverFrames Scripted.Playback.link 4 { retry := 1 } { world := confirming }).map
      (·.1) = some ⟨true, 1, .left defaultDelay⟩ := by decide +kernel
  obtain ⟨⟨outcome, after⟩, hrun, rfl⟩ := Option.map_eq_some_iff.mp hrun
  obtain ⟨hends, hhandshake⟩ := handshake_of_run Scripted.Playback.link 4 { retry := 1 }
    (by decide) (by decide)
  obtain ⟨record, trials, -, -, huses, hcount, htrials⟩ := hhandshake _ _ _ hrun
  exact ⟨hends _ (by decide), record, trials, huses, hcount.symm, htrials⟩

end EcuQuiet.Disabling
