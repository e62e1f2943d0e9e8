import EcuQuiet.Proofs.Disabling.Confirming
import EcuQuiet.Proofs.Disabling.Delivery
import EcuQuiet.Scripted.Playback

/-!
# Options that can succeed

Options are refused if no attempt could end well, but not all of those are. Without a session
timeout the response to the session request is not waited for, so no session is ever entered, and a
request that is longer than any message of the transport is not sent, so the unit is never told to
be silent. All other valid options can succeed: a bus is enough on which the session is granted at
once and nothing else happens.
-/

namespace EcuQuiet.Disabling

open Run Simulation Scripted

/-- What makes options valid. -/
theorem Options.validate_iff {o : Options} :
    o.validate = .ok () ↔ o.request ≠ [] ∧ (∀ d ∈ o.phases, d ≤ longestPhase) ∧
      (o.watchedAddresses.isSome → o.silence.quiet < o.watchTimeout) := by
  have hempty : o.request.isEmpty = true ↔ ¬o.request ≠ [] := by simp
  have hlong : o.phases.any (longestPhase < ·) = true ↔ ¬∀ d ∈ o.phases, d ≤ longestPhase := by
    simp [Span.lt_iff, Span.le_iff]
  have hshort : (o.watchedAddresses.isSome && o.watchTimeout ≤ o.silence.quiet) = true ↔
      ¬(o.watchedAddresses.isSome → o.silence.quiet < o.watchTimeout) := by
    simp [Span.lt_iff, Span.le_iff]
  rw [validate]
  split
  next h => exact iff_of_false (by intro hok; cases hok) fun hvalid => hempty.mp h hvalid.1
  next hsome =>
    split
    next h => exact iff_of_false (by intro hok; cases hok) fun hvalid => hlong.mp h hvalid.2.1
    next hbounded =>
      split
      next h => exact iff_of_false (by intro hok; cases hok) fun hvalid => hshort.mp h hvalid.2.2
      next hopens =>
        exact iff_of_true rfl ⟨Classical.not_not.mp (mt hempty.mpr hsome),
          Classical.not_not.mp (mt hlong.mpr hbounded), Classical.not_not.mp (mt hshort.mpr hopens)⟩

variable {o : Options} {rounds : Nat}

/-! ### Options that cannot succeed -/

section Vain

variable {σ : Type} {link : Link σ}

/-- A query that does not wait for responses brings none. -/
theorem session_unheard (hzero : o.timeout = .zero) :
    Meets True (fun _ => True) (IsoTp.engine {} link rounds (sessionQuery o))
      fun result _ => ∀ answers, result = .ok answers → answers = .empty := by
  refine IsoTp.engine_meets link {} (sessionQuery o) (N := fun _ _ => True) (M := fun _ _ => True)
    (fun _ _ _ _ hok => by cases hok) (fun _ _ => trivial) (fun _ _ _ _ _ hok => by cases hok)
    ?asked (fun _ _ _ _ _ hok => (Except.ok.inj hok).symm) fun hwaits => absurd hzero hwaits
  case asked =>
    rintro first later start limit - -
    refine (IsoTp.perform_keeps link (I := fun _ => True) fun _ _ _ _ => trivial).mono ?_
    rintro (reason | ⟨⟩) _ -
    · exact fun _ hok => by cases hok
    · trivial

/-- A request that is too long for the transport is not sent. -/
theorem control_refused (hlong : IsoTp.longestMessage < o.request.length) :
    Meets True (fun _ => True) (IsoTp.engine {} link rounds (controlQuery o))
      (Either (fun _ => True) fun _ => False) := by
  have hunsendable : IsoTp.isSendable (controlQuery o) = false := by
    simp [IsoTp.isSendable, controlQuery, Uds.communicationControl, hlong]
  show Meets True _ (if !IsoTp.isSendable (controlQuery o) then _ else _) _
  rw [hunsendable, Bool.not_false, if_pos rfl]
  exact Meets.fail _ fun _ _ => trivial

/-- Without a session timeout, or with a request that is too long, every attempt fails. -/
theorem attempt_fails (hvain : o.timeout = .zero ∨ IsoTp.longestMessage < o.request.length) :
    Meets True (fun _ => True) (attempt (IsoTp.engine {} link rounds) link rounds o)
      (Either (fun _ => True) fun _ => False) := by
  obtain hzero | hlong := hvain
  · have hsession : Meets True (fun _ => True) (IsoTp.engine {} link rounds (sessionQuery o))
        fun result _ => (∀ answers response, result = .ok answers →
          answers.get? o.target ≠ some (.ok response)) ∧ True := by
      refine (session_unheard hzero).mono fun result _ hunheard => ⟨?_, trivial⟩
      rintro answers response hok hanswer
      rw [hunheard answers hok] at hanswer
      cases hanswer
    refine (attempt_refused hsession).mono ?_
    rintro result _ ⟨⟨reason, rfl⟩, -⟩
    exact trivial
  · exact attempt_meets (J := fun _ => False) ⟨fun _ h => h, fun _ _ h => h, fun _ h => h⟩
      (fun _ _ => trivial) (.true _) (control_refused hlong) rounds

/-- A disabling that succeeds had a session timeout, and a request that the transport can carry. -/
theorem able_of_disabled {w after : Logged σ} {outcome : Outcome}
    (hrun : runOverFrames link rounds o w = some (outcome, after))
    (hdisabled : outcome.disabled = true) :
    o.timeout ≠ .zero ∧ o.request.length ≤ IsoTp.longestMessage := by
  rw [runOverFrames, run] at hrun
  cases hvalid : o.validate with
  | error reason =>
      rw [hvalid] at hrun
      cases hrun
      cases hdisabled
  | ok =>
      rw [hvalid] at hrun
      by_contra hvain
      rw [not_and_or, not_not, Nat.not_le] at hvain
      exact attempts_meets (attempt_fails hvain) o.target _ 0 trivial hrun hdisabled

end Vain

/-! ### Options that can succeed -/

/-- The frame with which the session is granted. -/
def grant (o : Options) : Frame :=
  answer o.bus o.target
    (IsoTp.Sender.start (IsoTp.capacity o.target) Uds.extendedSession.expected).1

/-- A bus on which the session is granted at once, and on which nothing else happens for as long as
silence has to last. -/
def favourable (o : Options) : Playback where
  readings := [{ takes := { nanos := 1 }, result := .ok [grant o] },
    { takes := max o.silence.quiet { nanos := 1 }, result := .ok [] }]

/-- Such a bus after the session was granted. -/
structure Favoured (o : Options) (p : Playback) : Prop where
  clock : p.clock = 1
  readings : p.readings = (favourable o).readings.tail
  faults : p.faults = []

/-- How far the session query has come on such a bus: the response is the next thing to be heard, or
it has been. -/
inductive Granting (o : Options) : Nat → List IsoTp.Conversation → Playback → Prop
  | asked {p : Playback} (hclock : p.clock = 0) (hreadings : p.readings = (favourable o).readings)
      (hfaults : p.faults = []) :
      Granting o 1 [(sessionDialogue o {}).waiting (0 + o.timeout.nanos) .finished none] p
  | granted {s : IsoTp.Conversation} {p : Playback}
      (hstatus : s.status = .answered (.ok Uds.extendedSession.expected))
      (htarget : s.target = o.target) (hp : Favoured o p) : Granting o 0 [s] p

/-- What the session query comes to. -/
def Granted (o : Options) (result : Except DiagnosticError Answers) (p : Playback) : Prop :=
  (∃ answers, result = .ok answers ∧
    answers.get? o.target = some (.ok Uds.extendedSession.expected)) ∧ Favoured o p

/-- The tester takes the frame for the response that it waits for. -/
theorem play_grant (o : Options) (now deadline : Instant) :
    ∃ s, ∃ events : List Note, IsoTp.Round.play {} (sessionQuery o) now [grant o]
        [(sessionDialogue o {}).waiting deadline .finished none] =
          ([s], events.map .note) ∧
      s.status = .answered (.ok Uds.extendedSession.expected) ∧ s.target = o.target := by
  have hcapacity := IsoTp.capacity_eq o.target
  have hshort : 2 < IsoTp.capacity o.target := by omega
  have hfirst : ([grant o].filter (·.bus = o.bus)).filter
      (·.address = IsoTp.responseAddress o.target.address 0x08) = [grant o] := by
    simp [grant, answer]
  exact Dialogue.play_first (d := sessionDialogue o {}) hfirst
    (Dialogue.concludes_accepted (by decide) hshort (by decide) (List.prefix_refl _))

theorem step_grants (left : Nat) (all : List IsoTp.Conversation) :
    Meets False (Granting o left all) (IsoTp.step {} (sessionQuery o) Playback.link all)
      (Continues (fun next p => ∃ less < left, Granting o less next p) (Granted o)) := by
  refine Meets.of_forall fun p hp => ?_
  cases hp with
  | @granted s _ hstatus htarget hp =>
      have hover : [s].all (·.isOver) = true := by
        rw [List.all_cons, IsoTp.Conversation.isOver, hstatus]
        rfl
      refine IsoTp.step_meets Playback.link {} (sessionQuery o) (R := fun _ _ => False)
        (S := fun _ _ _ => False) ?ended (fun hopen => absurd hover hopen)
        (fun hopen => absurd hover hopen) (fun _ _ h => h) fun _ _ _ h => h.elim
      case ended =>
        rintro - _ rfl
        refine ⟨⟨_, rfl, ?_⟩, hp⟩
        rw [IsoTp.Round.answers, List.filterMap_cons, IsoTp.Conversation.answer?, hstatus, htarget]
        exact (Answers.get?_insert ..).trans (if_pos rfl)
  | @asked _ hclock hreadings hfaults =>
      have hreceive : p.receive =
          { result := .ok [grant o]
            world := { p with readings := (favourable o).readings.tail }.advance
              { nanos := 1 } } := by
        rw [Playback.receive, hreadings]
        rfl
      refine IsoTp.step_meets Playback.link {} (sessionQuery o)
        (R := fun batch p => batch = [grant o] ∧ Favoured o p)
        (S := fun batch now p => batch = [grant o] ∧ Favoured o p)
        (fun hover => by cases hover) ?failed ?received (fun _ _ hp => hp) ?played
      case failed =>
        rintro - _ cause rfl hfailed
        cases (congrArg Reply.result hreceive).symm.trans hfailed
      case received =>
        rintro - p batch rfl hok
        refine ⟨(Except.ok.inj ((congrArg Reply.result hreceive).symm.trans hok)).symm, ?_⟩
        rw [show Playback.link.receive p = _ from hreceive]
        refine ⟨?_, rfl, hfaults⟩
        rw [Playback.advance, hclock]
        rfl
      case played =>
        refine fun batch now => Meets.of_forall ?_
        rintro p ⟨rfl, hp⟩
        obtain ⟨s, events, hplay, hstatus, htarget⟩ := play_grant o now (0 + o.timeout.nanos)
        rw [hplay]
        refine (IsoTp.perform_silent (IsoTp.Output.frames_notes events)).mono ?_
        rintro result after ⟨rfl, rfl⟩
        exact ⟨0, Nat.zero_lt_one, .granted hstatus htarget hp⟩

/-- On such a bus the session is granted. -/
theorem session_favoured (hwaits : o.timeout ≠ .zero) (hlong : o.timeout ≤ longestPhase)
    (hrounds : 1 < rounds) :
    Meets False (· = favourable o) (IsoTp.engine {} Playback.link rounds (sessionQuery o))
      (Granted o) := by
  have hrange : Instant.after? 0 (IsoTp.Settings.longestWait {} o.timeout) =
      some (sessionDialogue o {}).limit := by
    have hwait := longestWait_le o.timeout
    have hroom : longestPhase.nanos + (IsoTp.Settings.longestWait {} .zero).nanos ≤
        Instant.latest := by decide
    refine Instant.after?_eq_some_iff.mpr ⟨rfl, ?_⟩
    show 0 + (IsoTp.Settings.longestWait {} o.timeout).nanos ≤ Instant.latest
    rw [Span.le_iff] at hlong
    omega
  refine IsoTp.engine_asks rfl rfl rfl rfl hrange (fun _ hfailed => by cases hfailed)
    (fun _ hzero => absurd hzero hwaits) fun _ _ => ?_
  have hbegin : (IsoTp.Conversation.begin {} (sessionQuery o) Uds.extendedSession []
      (favourable o).clock (sessionDialogue o {}).limit o.target).1 =
      (sessionDialogue o {}).waiting (0 + o.timeout.nanos) .finished none := by
    have hcapacity := IsoTp.capacity_eq o.target
    have hshort : Uds.extendedSession.request.length < IsoTp.capacity o.target :=
      Nat.lt_of_lt_of_le (by decide : 2 < 6) (by omega)
    rw [IsoTp.Conversation.begin, IsoTp.Sender.start_of_short hshort]
    rfl
  rw [hbegin]
  rintro w hw
  refine Meets.loop_of_measure step_grants hrounds _ w ?_
  rw [hw]
  exact .asked rfl rfl rfl

/-- Nothing follows on such a bus, so the first look at it confirms the silence. -/
theorem look_favoured (addresses : AddressSet) (hopens : o.silence.quiet < o.watchTimeout)
    (left : Nat) (w : Silence.Window) :
    Meets False
      (fun p => Favoured o p ∧ w = .opening o.bus addresses o.watchTimeout o.silence p.clock)
      (Silence.look Playback.link o.silence.poll w)
      (Continues (fun next p => ∃ less < left, Favoured o p ∧
        next = .opening o.bus addresses o.watchTimeout o.silence p.clock)
        fun result _ => result = .ok true) := by
  refine Meets.of_forall ?_
  rintro p ⟨hp, rfl⟩
  have hreceive : p.receive =
      { result := .ok []
        world := { p with readings := [] }.advance (max o.silence.quiet { nanos := 1 }) } := by
    rw [Playback.receive, hp.readings]
    rfl
  refine Silence.look_meets Playback.link (R := fun now q => now = p.clock ∧ q = p)
    (S := fun batch q => batch = [] ∧
      q.clock = p.clock + (max o.silence.quiet { nanos := 1 }).nanos)
    (T := fun batch later _ => batch = [] ∧
      later = p.clock + (max o.silence.quiet { nanos := 1 }).nanos)
    (fun q hq => ⟨hq ▸ rfl, hq⟩) ?expired ?failed ?received (fun _ _ hq => hq)
    (fun _ _ _ _ _ => rfl) ?paused
  case expired =>
    rintro _ p ⟨rfl, rfl⟩ hexpired
    have hover : o.watchTimeout.nanos ≤ p.clock - p.clock := of_decide_eq_true hexpired
    rw [Nat.sub_self, Nat.le_zero] at hover
    rw [Span.lt_iff, hover] at hopens
    exact absurd hopens (Nat.not_lt_zero _)
  case failed =>
    rintro _ p cause ⟨rfl, rfl⟩ - hfailed
    cases (congrArg Reply.result hreceive).symm.trans hfailed
  case received =>
    rintro _ p batch ⟨rfl, rfl⟩ - hok
    refine ⟨(Except.ok.inj ((congrArg Reply.result hreceive).symm.trans hok)).symm, ?_⟩
    rw [show Playback.link.receive p = _ from hreceive]
    rfl
  case paused =>
    rintro batch later q ⟨rfl, rfl⟩ hloud
    have hshort : p.clock + (max o.silence.quiet { nanos := 1 }).nanos - p.clock <
        o.silence.quiet.nanos := Nat.not_le.mp (of_decide_eq_false hloud)
    have hlong : o.silence.quiet.nanos ≤ (max o.silence.quiet { nanos := 1 }).nanos := by
      rw [Span.nanos_max]
      exact Nat.le_max_left ..
    rw [Nat.add_sub_cancel_left] at hshort
    exact absurd hlong (Nat.not_le.mpr hshort)

theorem awaitSilence_favoured (hvalid : o.validate = .ok ()) (hrounds : 0 < rounds) :
    Meets False (Favoured o) (awaitSilence Playback.link rounds o)
      fun result _ => ∃ silencing, result = .ok silencing := by
  refine awaitSilence_parts (fun _ _ _ => ⟨_, rfl⟩) fun addresses hwatched => ?_
  have hopens := (Options.validate_iff.mp hvalid).2.2 (hwatched ▸ rfl)
  have hwatch : Meets False (Favoured o) (Silence.watch Playback.link rounds o.bus addresses
      o.watchTimeout o.silence) fun verdict _ => verdict = .ok true := by
    refine Silence.watch_meets Playback.link (R := fun now p => now = p.clock ∧ Favoured o p)
      (fun p hp => ⟨rfl, hp⟩) (fun hshort => absurd hopens (Nat.not_lt.mpr hshort)) ?loop
    case loop =>
      rintro - now w ⟨rfl, hw⟩
      exact Meets.loop_of_measure (look_favoured addresses hopens) hrounds _ w ⟨hw, rfl⟩
  refine hwatch.mono ?_
  rintro verdict _ rfl
  exact ⟨_, rfl⟩

/-- Communication control is sent at once if the transport can carry it. -/
theorem control_favoured (hsome : o.request ≠ [])
    (hcarries : o.request.length ≤ IsoTp.longestMessage) (rounds : Nat) :
    Meets False (Favoured o) (IsoTp.engine {} Playback.link rounds (controlQuery o))
      fun result p => (∃ answers, result = .ok answers) ∧ Favoured o p := by
  refine Meets.of_forall fun p hp => ?_
  have hpos : 1 ≤ o.request.length := List.length_pos_iff.mpr hsome
  have hsendable : IsoTp.isSendable (controlQuery o) = true := by
    simp [IsoTp.isSendable, controlQuery, Uds.communicationControl, hpos, hcarries]
  have hrange : Instant.after? p.clock (IsoTp.Settings.longestWait {} (controlQuery o).timeout) =
      some (1 + (IsoTp.Settings.longestWait {} .zero).nanos) := by
    rw [hp.clock]
    exact Instant.after?_eq_some_iff.mpr ⟨rfl, by decide⟩
  have hsend : ∀ f, Playback.send [f] p =
      { result := .ok (), world := { p with sent := p.sent ++ #[(p.clock, f)] } } := by
    intro f
    rw [Playback.send, hp.faults]
    rfl
  refine IsoTp.engine_asks rfl rfl rfl hsendable hrange (fun cause hfailed => ?_)
    (fun _ _ => ⟨⟨_, rfl⟩, ?_⟩) fun _ hwaits => absurd rfl hwaits
  · cases (congrArg Reply.result (hsend _)).symm.trans hfailed
  · rw [show Playback.link.send _ p = _ from hsend _]
    exact ⟨hp.clock, hp.readings, hp.faults⟩

/-- An attempt with valid options succeeds on such a bus if the session response is waited for and
the transport can carry communication control. -/
theorem attempt_favoured (hvalid : o.validate = .ok ()) (hwaits : o.timeout ≠ .zero)
    (hcarries : o.request.length ≤ IsoTp.longestMessage) :
    Meets False (· = favourable o) (attempt (IsoTp.engine {} Playback.link 2) Playback.link 2 o)
      fun result _ => ∃ silencing, result = .ok silencing := by
  obtain ⟨hsome, hbounded, -⟩ := Options.validate_iff.mp hvalid
  have hsession := session_favoured hwaits (hbounded _ List.mem_cons_self) Nat.one_lt_two
  exact attempt_parts (enterSession_grants hsession) (control_favoured hsome hcarries 2)
    (awaitSilence_favoured hvalid Nat.zero_lt_two)

/-- A script of readings that all take some time, and of sends that all succeed. -/
structure Running (p : Playback) : Prop where
  idle : 0 < p.idle.nanos
  readings : ∀ r ∈ p.readings, 0 < r.takes.nanos
  faults : p.faults = []

theorem favourable_running (o : Options) : Running (favourable o) := by
  have hidle : 0 < (Span.ofMillis 10).nanos := by decide
  refine ⟨hidle, List.forall_mem_cons.mpr ⟨Nat.one_pos, List.forall_mem_singleton.mpr ?_⟩, rfl⟩
  rw [Span.nanos_max]
  exact Nat.lt_of_lt_of_le Nat.one_pos (Nat.le_max_right ..)

/-- There is a bus on which valid options let a disabling succeed exactly if their session timeout
is not zero and their request is not longer than the transport can carry. -/
theorem can_succeed_iff (hvalid : o.validate = .ok ()) (hretry : 1 ≤ o.retry) :
    (∃ p, Running p ∧ ∃ rounds outcome after,
      runOverFrames Playback.link rounds o { world := p } = some (outcome, after) ∧
        outcome.disabled = true) ↔
      o.timeout ≠ .zero ∧ o.request.length ≤ IsoTp.longestMessage := by
  refine ⟨?_, fun ⟨hwaits, hcarries⟩ => ?_⟩
  · rintro ⟨p, -, rounds, outcome, after, hrun, hdisabled⟩
    exact able_of_disabled hrun hdisabled
  · obtain ⟨result, after, hattempt, silencing, rfl⟩ :=
      (attempt_favoured hvalid hwaits hcarries).exists_end
        (w := Logged.note (.disabling o.target) { world := favourable o }) rfl
    exact ⟨favourable o, favourable_running o, 2, _, after,
      run_of_attempt hvalid hretry hattempt, rfl⟩

/-- The default options can succeed. -/
theorem can_succeed_default :
    ∃ p, Running p ∧ ∃ rounds outcome after,
      runOverFrames Playback.link rounds {} { world := p } = some (outcome, after) ∧
        outcome.disabled = true :=
  (can_succeed_iff (o := {}) rfl (by decide)).mpr ⟨by decide, by decide⟩

/-- Without a session timeout they cannot, and yet they are valid. -/
theorem valid_in_vain :
    ({ timeout := .zero } : Options).validate = .ok () ∧
      1 ≤ ({ timeout := .zero } : Options).retry ∧
      ¬∃ p, Running p ∧ ∃ rounds outcome after,
        runOverFrames Playback.link rounds { timeout := .zero } { world := p } =
          some (outcome, after) ∧ outcome.disabled = true := by
  refine ⟨rfl, by decide, ?_⟩
  rintro ⟨p, -, rounds, outcome, after, hrun, hdisabled⟩
  exact (able_of_disabled hrun hdisabled).1 rfl

end EcuQuiet.Disabling
