import EcuQuiet.Proofs.Disabling.Course
import EcuQuiet.Proofs.Disabling.Duration
import EcuQuiet.Proofs.Disabling.Validity
import EcuQuiet.Proofs.IsoTp.Queries

/-!
# How long a disabling pauses

A disabling pauses after communication control: once, if nothing is watched, and else between two
readings of the watch. Valid options bound its timeouts and its delay by the longest phase, but not
the pause between two readings. So no pause is longer than the longest phase, and the last phase of
an attempt not longer than two of them and a reading, exactly if that pause is bounded as well, or
if no watch ever comes to it.
-/

namespace EcuQuiet

open Run Recorded

variable {σ : Type}

/-! ### Pauses of a record -/

namespace Use

/-- The pauses among some uses. -/
def pauses (uses : List Use) : List Span :=
  uses.filterMap fun
    | .slept d => some d
    | _ => none

theorem pauses_append (first rest : List Use) :
    pauses (first ++ rest) = pauses first ++ pauses rest :=
  List.filterMap_append

end Use

/-- An engine that never pauses. -/
def Engine.Sleepless (engine : Engine (Recorded σ)) : Prop :=
  ∀ q, Records (engine q) fun _ uses => Use.pauses uses = []

theorem Engine.unrecorded_sleepless (engine : Engine σ) : engine.unrecorded.Sleepless := by
  intro q w result after hrun
  obtain ⟨uses, huses, rfl⟩ := engine.unrecorded_records q w result after hrun
  exact ⟨[], huses, rfl⟩

namespace IsoTp

variable {c : Settings} {q : Query}

theorem Performed.pauses_eq {outputs : List Output} {result : Except DiagnosticError Unit}
    {uses : List Use} (h : Performed outputs result uses) : Use.pauses uses = [] := by
  induction h with
  | nil | failed => rfl
  | note _ ih => exact ih
  | sent _ ih => exact ih

theorem Listened.pauses_eq {all : List Conversation} {result : Except DiagnosticError Answers}
    {uses : List Use} (h : Listened c q all result uses) : Use.pauses uses = [] := by
  induction h with
  | ended | failed => rfl
  | unsent _ hsends => exact hsends.pauses_eq
  | round _ hsends _ ih =>
      rw [Use.pauses_append, ih, List.append_nil]
      exact hsends.pauses_eq

/-- A query waits in its readings only. -/
theorem engine_sleepless (c : Settings) (link : Link σ) (rounds : Nat) :
    (engine c link.recorded rounds).Sleepless := by
  intro q w result after hrun
  obtain ⟨uses, huses, hqueried⟩ := engine_records link c q rounds w result after hrun
  refine ⟨uses, huses, ?_⟩
  cases hqueried with
  | refused | outOfRange => rfl
  | unsent _ _ hsends | unheard _ _ hsends => exact hsends.pauses_eq
  | heard _ _ hsends _ hrest =>
      rw [Use.pauses_append, hrest.pauses_eq, List.append_nil]
      exact hsends.pauses_eq

end IsoTp

namespace Silence

variable {link : Link σ} {steady : σ → Prop} {time : σ → Instant} {longest : Span}

/-- A window without a quiet span is quiet at once. -/
theorem Window.isQuiet_of_zero {w : Window} (h : w.quiet = .zero) (now : Instant) :
    w.isQuiet now = true := by
  rw [isQuiet, h]
  exact decide_eq_true (Nat.zero_le _)

theorem Window.observe_quiet (w : Window) (batch : List Frame) (now : Instant) :
    (w.observe batch now).quiet = w.quiet := by
  rw [observe]
  split <;> rfl

/-- A watch pauses in one way only, and not at all if every window is quiet. -/
theorem Looked.pause_eq {poll : Span} {w : Window} {verdict : Except DiagnosticError Bool}
    {uses : List Use} (h : Looked poll w verdict uses) :
    ∀ d ∈ Use.pauses uses, d = poll ∧ w.quiet ≠ .zero := by
  induction h with
  | expired | failed | quiet => exact fun _ hd => absurd hd List.not_mem_nil
  | @paused w _ later batch _ _ _ hloud _ ih =>
      have hspan : w.quiet ≠ .zero := by
        intro hzero
        rw [Window.isQuiet_of_zero ((w.observe_quiet batch later).trans hzero)] at hloud
        cases hloud
      refine List.forall_mem_cons.mpr ⟨⟨rfl, hspan⟩, fun d hd => ?_⟩
      exact ⟨(ih d hd).1, hspan⟩

theorem Watched.pause_eq {bus : UInt8} {addresses : AddressSet} {timeout : Span}
    {settings : Settings} {verdict : Except DiagnosticError Bool} {uses : List Use}
    (h : Watched bus addresses timeout settings verdict uses) :
    ∀ d ∈ Use.pauses uses, d = settings.poll ∧ settings.quiet ≠ .zero := by
  cases h with
  | refused => exact fun _ hd => absurd hd List.not_mem_nil
  | @opened _ w _ _ hopened hlooked =>
      have hquiet : w.quiet = settings.quiet := by
        rw [Window.open?] at hopened
        split at hopened
        · cases hopened
        · rw [← Except.ok.inj hopened]
      exact hquiet ▸ hlooked.pause_eq

/-- Without a quiet span, the first look at the bus is the last one. -/
theorem look_lasts_unpaused (hlink : link.Punctual steady time longest) (poll : Span)
    (t : Instant) (left : Nat) (w : Window) :
    Meets False (fun world => w.quiet = .zero ∧ time world = t ∧ steady world)
      (look link poll w)
      (Continues (fun next world => ∃ less < left, next.quiet = .zero ∧ time world = t ∧
        steady world) fun _ => By steady time (t + longest.nanos)) := by
  refine look_meets link
    (R := fun _ world => w.quiet = .zero ∧ time world = t ∧ steady world)
    (S := fun _ world => w.quiet = .zero ∧ By steady time (t + longest.nanos) world)
    (T := fun _ _ world => w.quiet = .zero ∧ By steady time (t + longest.nanos) world)
    ?now ?expired ?failed ?received ?later (fun _ _ _ hworld _ => hworld.2) ?paused
  case now =>
    rintro world ⟨hquiet, rfl, hsteady⟩
    exact ⟨hquiet, (hlink.now world hsteady).2⟩
  case expired =>
    rintro - world ⟨-, hsame, hsteady⟩ -
    exact ⟨hsteady, Nat.le_trans (Nat.le_of_eq hsame) (Nat.le_add_right ..)⟩
  case failed =>
    rintro - world cause ⟨-, rfl, hsteady⟩ - -
    obtain ⟨-, hend, hafter⟩ := hlink.receive world hsteady
    exact ⟨hafter, hend⟩
  case received =>
    rintro - world batch ⟨hquiet, rfl, hsteady⟩ - -
    obtain ⟨-, hend, hafter⟩ := hlink.receive world hsteady
    exact ⟨hquiet, hafter, hend⟩
  case later =>
    rintro - world ⟨hquiet, hsteady, hend⟩
    obtain ⟨-, hsame, hafter⟩ := hlink.now world hsteady
    exact ⟨hquiet, hafter, hsame ▸ hend⟩
  case paused =>
    rintro batch later world ⟨hquiet, -⟩ hloud
    rw [Window.isQuiet_of_zero ((w.observe_quiet batch later).trans hquiet)] at hloud
    cases hloud

theorem watch_lasts_unpaused (hlink : link.Punctual steady time longest) {rounds : Nat}
    (hrounds : 0 < rounds) (bus : UInt8) (addresses : AddressSet) (timeout : Span)
    {settings : Settings} (hquiet : settings.quiet = .zero) :
    Lasts steady time (watch link rounds bus addresses timeout settings) longest.nanos := by
  refine Lasts.of_forall fun before hbefore => ?_
  refine watch_meets link (R := fun _ world => time world = time before ∧ steady world)
    ?now ?refused fun _ now w hw => ?loop
  case now =>
    rintro _ rfl
    exact (hlink.now _ hbefore).2
  case refused =>
    rintro - now world ⟨hsame, hsteady⟩
    exact ⟨hsteady, Nat.le_trans (Nat.le_of_eq hsame) (Nat.le_add_right ..)⟩
  case loop =>
    exact Meets.loop_of_measure (look_lasts_unpaused hlink settings.poll (time before)) hrounds _ w
      ⟨hquiet, hw⟩

end Silence

namespace Disabling

open Scripted

variable {o : Options}

/-! ### What a disabling pauses for -/

/-- A pause of a disabling: the delay, or the pause between two readings. -/
def Options.Pauses (o : Options) (d : Span) : Prop :=
  o.watchedAddresses = none ∧ d = o.delay.getD defaultDelay ∨
    o.watchedAddresses.isSome ∧ o.silence.quiet ≠ .zero ∧ d = o.silence.poll

theorem Settled.pause_eq {result : Except DiagnosticError Silencing} {uses : List Use}
    (h : Settled o result uses) : ∀ d ∈ Use.pauses uses, o.Pauses d := by
  cases h with
  | left hunwatched => exact List.forall_mem_singleton.mpr (.inl ⟨hunwatched, rfl⟩)
  | watched hwatched huses =>
      intro d hd
      obtain ⟨rfl, hquiet⟩ := huses.pause_eq d hd
      exact .inr ⟨hwatched ▸ rfl, hquiet, rfl⟩

theorem Trial.Sound.pause_eq {trial : Trial}
    (h : trial.Sound (fun _ _ meanwhile => Use.pauses meanwhile = []) o) :
    ∀ d ∈ Use.pauses trial.uses, o.Pauses d := by
  have hasking : ∀ {q meanwhile result}, Use.pauses meanwhile = [] →
      Use.pauses (asking q meanwhile result) = [] := by
    intro q meanwhile result hmeanwhile
    refine (Use.pauses_append (.asked q :: meanwhile) _).trans ?_
    rw [← hmeanwhile]
    simp [Use.pauses]
  cases h with
  | refused hsession => simp [hasking hsession]
  | unsent hsession _ hcontrol => simp [Use.pauses_append, hasking hsession, hasking hcontrol]
  | sent hsession _ hcontrol hsettled =>
      simpa [Use.pauses_append, hasking hsession, hasking hcontrol] using hsettled.pause_eq

/-- Whatever an engine that never pauses and a bus do, a disabling pauses for nothing else. -/
theorem pauses_of_run {engine : Engine (Recorded σ)} (hengine : engine.Sleepless) {link : Link σ}
    {rounds : Nat} {w : Logged σ} {outcome : Outcome} {record : Logged (Recorded σ)}
    (hrun : run engine.recorded link.recorded rounds o (blank w) = some (outcome, record)) :
    ∀ d ∈ Use.pauses record.world.uses.toList, o.Pauses d := by
  rw [run] at hrun
  split at hrun
  · cases hrun
    exact fun _ hd => absurd hd List.not_mem_nil
  · obtain ⟨trials, hsound, huses, -⟩ :=
      attempts_records (attempt_records link rounds o hengine) _ _ _ hrun
    replace huses : record.world.uses.toList = trials.flatMap (·.uses) := huses
    intro d hd
    rw [huses, Use.pauses, List.filterMap_flatMap, List.mem_flatMap] at hd
    obtain ⟨trial, htrial, hd⟩ := hd
    exact (hsound trial htrial).pause_eq d hd

/-- No pause of a disabling is longer than the longest phase, whatever its engine and its bus do. -/
def PausesBriefly (o : Options) : Prop :=
  ∀ (σ : Type) (engine : Engine (Recorded σ)) (link : Link σ) (rounds : Nat) (w : Logged σ)
    (outcome : Outcome) (record : Logged (Recorded σ)), engine.Sleepless →
      run engine.recorded link.recorded rounds o (blank w) = some (outcome, record) →
        ∀ d ∈ Use.pauses record.world.uses.toList, d ≤ longestPhase

/-- The last phase of an attempt ends no later than two longest phases and a reading after its
beginning, whatever the bus does. -/
def SettlesInTime (o : Options) : Prop :=
  ∀ (σ : Type) (link : Link σ) (steady : σ → Prop) (time : σ → Instant) (longest : Span)
    (rounds : Nat), link.Punctual steady time longest → o.watchTimeout.nanos < rounds →
      Lasts steady time (awaitSilence link rounds o) (2 * longestPhase.nanos + longest.nanos)

/-- With valid options, the delay is no longer than the longest phase. -/
theorem delay_le_longestPhase (hvalid : o.validate = .ok ()) :
    o.delay.getD defaultDelay ≤ longestPhase := by
  obtain ⟨-, hphases, -⟩ := Options.validate_iff.mp hvalid
  cases hdelay : o.delay with
  | none => exact (by decide : defaultDelay ≤ longestPhase)
  | some d => exact hphases d (by simp [Options.phases, hdelay])

theorem pausesBriefly_of_poll (hvalid : o.validate = .ok ())
    (hpoll : o.watchedAddresses.isSome → o.silence.quiet ≠ .zero → o.silence.poll ≤ longestPhase) :
    PausesBriefly o := by
  intro σ engine link rounds w outcome record hengine hrun d hd
  obtain ⟨-, rfl⟩ | ⟨hwatched, hquiet, rfl⟩ := pauses_of_run hengine hrun d hd
  · exact delay_le_longestPhase hvalid
  · exact hpoll hwatched hquiet

/-- Over the transport it pauses no longer either, be it in a query or in between. -/
theorem PausesBriefly.over_frames (h : PausesBriefly o) {c : IsoTp.Settings} {link : Link σ}
    {asking rounds : Nat} {w after : Logged σ} {outcome : Outcome}
    (hrun : run (IsoTp.engine c link asking) link rounds o w = some (outcome, after)) :
    ∃ record, run (IsoTp.engine c link.recorded asking).recorded link.recorded rounds o (blank w) =
        some (outcome, record) ∧
      erase record = after ∧ ∀ d ∈ Use.pauses record.world.uses.toList, d ≤ longestPhase := by
  obtain ⟨record, hrecord, herased⟩ := exists_recorded_run link rounds o
    (fun q => IsoTp.engine_mirrors link c q asking) hrun
  exact ⟨record, hrecord, herased, h σ _ link rounds w outcome record
    (IsoTp.engine_sleepless c link asking) hrecord⟩

theorem settlesInTime_of_poll (hvalid : o.validate = .ok ())
    (hpoll : o.watchedAddresses.isSome → o.silence.quiet ≠ .zero → o.silence.poll ≤ longestPhase) :
    SettlesInTime o := by
  intro σ link steady time longest rounds hlink hrounds
  obtain ⟨-, hphases, -⟩ := Options.validate_iff.mp hvalid
  have hdelay := delay_le_longestPhase hvalid
  have htimeout : o.watchTimeout ≤ longestPhase := hphases _ (by simp [Options.phases])
  rw [Span.le_iff] at hdelay htimeout
  rw [awaitSilence]
  cases hwatched : o.watchedAddresses with
  | none =>
      have hpause := Lasts.pause hlink (o.delay.getD defaultDelay)
      exact Lasts.note_bind _ ((hpause.bind_instant fun _ => Lasts.pure _).mono (by omega))
  | some addresses =>
      have hwatch : Lasts steady time
          (Silence.watch link rounds o.bus addresses o.watchTimeout o.silence)
          (2 * longestPhase.nanos + longest.nanos) := by
        by_cases hquiet : o.silence.quiet = .zero
        · exact (Silence.watch_lasts_unpaused hlink (by omega) o.bus addresses o.watchTimeout
            hquiet).mono (Nat.le_add_left ..)
        · have hpause := hpoll (hwatched ▸ rfl) hquiet
          rw [Span.le_iff] at hpause
          exact (Silence.watch_lasts hlink hrounds o.bus addresses o.silence).mono (by omega)
      refine Lasts.note_bind _ (Lasts.bind_instant hwatch fun quiet => ?_)
      cases quiet with
      | true => exact Lasts.note_bind _ (Lasts.pure _)
      | false => exact Lasts.note_bind _ (Lasts.pure _)

/-! ### A watch that pauses -/

/-- An engine that answers every query as if the session had been granted. -/
def granting (t : Target) : Engine σ := fun _ w =>
  some (.ok (Answers.empty.insert t (.ok Uds.extendedSession.expected)), w)

/-- A bus on which nothing happens and readings take no time. -/
def still : Playback := { idle := .zero }

/-- How far a watch has come on such a bus: it has not yet looked, or it has paused. -/
inductive Lingers (o : Options) (addresses : AddressSet) :
    Nat → Silence.Window → Recorded Playback → Prop
  | fresh {r : Recorded Playback} (hstill : r.world = still) :
      Lingers o addresses 1 (.opening o.bus addresses o.watchTimeout o.silence 0) r
  | paused {r : Recorded Playback} (hclock : r.world.clock = o.silence.poll.nanos)
      (hpaused : o.silence.poll ∈ Use.pauses r.uses.toList) :
      Lingers o addresses 0 (.opening o.bus addresses o.watchTimeout o.silence 0) r

/-- Whether a watch has come to a verdict after it had paused. -/
def Lingered (o : Options) (verdict : Except DiagnosticError Bool) (r : Recorded Playback) : Prop :=
  (∃ quiet, verdict = .ok quiet) ∧ o.silence.poll ∈ Use.pauses r.uses.toList

/-- The uses of a record stay in it. -/
theorem mem_pauses_add {d : Span} {r : Recorded σ} (h : d ∈ Use.pauses r.uses.toList) (world : σ)
    (use : Use) : d ∈ Use.pauses (r.add world use).uses.toList := by
  rw [Recorded.add, Array.toList_push, Use.pauses_append]
  exact List.mem_append_left _ h

theorem look_still {addresses : AddressSet} (hopens : o.silence.quiet < o.watchTimeout)
    (hquiet : o.silence.quiet ≠ .zero) :
    Meets False (fun r => r.world = still)
      (Silence.look Playback.link.recorded o.silence.poll
        (.opening o.bus addresses o.watchTimeout o.silence 0))
      (Continues (fun next r => ∃ less < 1, Lingers o addresses less next r) (Lingered o)) := by
  have hspan : 0 < o.silence.quiet.nanos := Nat.pos_of_ne_zero fun hzero => hquiet (Span.ext hzero)
  rw [Span.lt_iff] at hopens
  refine Silence.look_meets Playback.link.recorded (R := fun now r => now = 0 ∧ r.world = still)
    (S := fun batch r => batch = [] ∧ r.world = still)
    (T := fun batch later r => batch = [] ∧ later = 0 ∧ r.world = still)
    (fun r hr => ⟨congrArg Playback.clock hr, hr⟩) ?expired ?failed ?received
    (fun batch r hr => ⟨hr.1, congrArg Playback.clock hr.2, hr.2⟩) ?quiet ?paused
  case expired =>
    rintro _ r ⟨rfl, -⟩ hexpired
    have hover : o.watchTimeout.nanos ≤ 0 - 0 := of_decide_eq_true hexpired
    omega
  case failed =>
    rintro _ ⟨world, uses⟩ cause ⟨-, rfl⟩ - hfailed
    cases hfailed
  case received =>
    rintro _ ⟨world, uses⟩ batch ⟨-, rfl⟩ - hreceived
    exact ⟨(Except.ok.inj hreceived).symm, rfl⟩
  case quiet =>
    rintro _ _ r ⟨rfl, rfl, -⟩ hdone
    have hover : o.silence.quiet.nanos ≤ 0 - 0 := of_decide_eq_true hdone
    omega
  case paused =>
    rintro _ _ ⟨world, uses⟩ ⟨rfl, rfl, rfl⟩ -
    refine ⟨0, Nat.zero_lt_one, .paused (Nat.zero_add _) ?_⟩
    simp [Link.recorded, Recorded.add, Use.pauses]

theorem look_paused {addresses : AddressSet} (hlong : o.watchTimeout ≤ o.silence.poll) :
    Meets False (fun r => r.world.clock = o.silence.poll.nanos ∧
        o.silence.poll ∈ Use.pauses r.uses.toList)
      (Silence.look Playback.link.recorded o.silence.poll
        (.opening o.bus addresses o.watchTimeout o.silence 0))
      (Continues (fun next r => ∃ less < 0, Lingers o addresses less next r) (Lingered o)) := by
  have hexpired : (Silence.Window.opening o.bus addresses o.watchTimeout o.silence 0).isExpired
      o.silence.poll.nanos = true := decide_eq_true hlong
  refine Silence.look_meets Playback.link.recorded
    (R := fun now r => now = o.silence.poll.nanos ∧ o.silence.poll ∈ Use.pauses r.uses.toList)
    (S := fun _ _ => False) (T := fun _ _ _ => False)
    (fun r hr => ⟨hr.1, mem_pauses_add hr.2 ..⟩) (fun _ _ hr _ => ⟨⟨_, rfl⟩, hr.2⟩) ?failed
    ?received (fun _ _ hr => hr.elim) (fun _ _ _ hr => hr.elim) fun _ _ _ hr => hr.elim
  case failed =>
    rintro _ r cause ⟨rfl, -⟩ hopen
    cases hopen.symm.trans hexpired
  case received =>
    rintro _ r batch ⟨rfl, -⟩ hopen
    cases hopen.symm.trans hexpired

theorem look_lingers {addresses : AddressSet} (hopens : o.silence.quiet < o.watchTimeout)
    (hquiet : o.silence.quiet ≠ .zero) (hlong : o.watchTimeout ≤ o.silence.poll) (left : Nat)
    (w : Silence.Window) :
    Meets False (Lingers o addresses left w)
      (Silence.look Playback.link.recorded o.silence.poll w)
      (Continues (fun next r => ∃ less < left, Lingers o addresses less next r) (Lingered o)) := by
  refine Meets.of_forall fun r hr => ?_
  cases hr with
  | fresh hstill =>
      rintro w rfl
      exact look_still hopens hquiet w hstill
  | paused hclock hpaused =>
      rintro w rfl
      exact look_paused hlong w ⟨hclock, hpaused⟩

/-- On such a bus an attempt succeeds, but not before it has paused between two readings. -/
theorem attempt_lingers (hvalid : o.validate = .ok ()) (hwatched : o.watchedAddresses.isSome)
    (hquiet : o.silence.quiet ≠ .zero) (hlong : o.watchTimeout ≤ o.silence.poll) :
    Meets False (fun r => r.world = still)
      (attempt (Engine.unrecorded (granting o.target)).recorded Playback.link.recorded 2 o)
      fun result r => (∃ silencing, result = .ok silencing) ∧
        o.silence.poll ∈ Use.pauses r.uses.toList := by
  have hgranted : (Answers.empty.insert o.target (.ok Uds.extendedSession.expected)).get?
      o.target = some (.ok Uds.extendedSession.expected) :=
    (Answers.get?_insert ..).trans (if_pos rfl)
  refine attempt_parts (R := fun r => r.world = still) (S := fun r => r.world = still)
    (enterSession_grants fun w hw => ⟨⟨_, rfl, hgranted⟩, hw⟩) (fun w hw => ⟨⟨_, rfl⟩, hw⟩)
    (awaitSilence_parts (fun hunwatched => ?_) fun addresses hwatched => ?_)
  · rw [hunwatched] at hwatched
    cases hwatched
  · have hopens := (Options.validate_iff.mp hvalid).2.2 (hwatched ▸ rfl)
    have hwatch : Meets False (fun r => r.world = still) (Silence.watch Playback.link.recorded 2
        o.bus addresses o.watchTimeout o.silence) (Lingered o) := by
      refine Silence.watch_meets Playback.link.recorded
        (R := fun now r => now = 0 ∧ r.world = still)
        (fun r hr => ⟨congrArg Playback.clock hr, hr⟩)
        (fun hshort => absurd hopens (Nat.not_lt.mpr hshort)) ?loop
      case loop =>
        rintro - _ w ⟨rfl, hw⟩
        exact Meets.loop_of_measure (look_lingers hopens hquiet hlong) Nat.one_lt_two _ w
          (.fresh hw)
    refine hwatch.mono ?_
    rintro _ r ⟨⟨quiet, rfl⟩, hpaused⟩
    exact ⟨⟨_, rfl⟩, hpaused⟩

/-- If the pause between two readings is longer than the longest phase, a watch can come to it. -/
theorem poll_le_of_pausesBriefly (hvalid : o.validate = .ok ()) (hretry : 1 ≤ o.retry)
    (hbrief : PausesBriefly o) (hwatched : o.watchedAddresses.isSome)
    (hquiet : o.silence.quiet ≠ .zero) : o.silence.poll ≤ longestPhase := by
  by_contra hlong
  have htimeout : o.watchTimeout ≤ longestPhase :=
    (Options.validate_iff.mp hvalid).2.1 _ (by simp [Options.phases])
  obtain ⟨left, hleft⟩ : ∃ left, o.retry.toNat = left + 1 :=
    Nat.exists_eq_add_one.mpr (UInt32.le_iff_toNat_le.mp hretry)
  obtain ⟨result, record, hattempt, ⟨silencing, rfl⟩, hpaused⟩ :=
    (attempt_lingers hvalid hwatched hquiet
      (Nat.le_trans htimeout (Nat.le_of_not_le hlong))).exists_end
        (w := (blank { world := still }).note (.disabling o.target)) rfl
  refine hlong (hbrief Playback (Engine.unrecorded (granting o.target)) Playback.link 2
    { world := still } ⟨true, 1, silencing⟩ record (Engine.unrecorded_sleepless _) ?_ _ hpaused)
  rw [run, hvalid]
  dsimp only
  rw [hleft, attempts, hattempt]

/-- The longest phase bounds every pause of a disabling with valid options, and two of them and a
reading bound the last phase of each of its attempts, exactly if it bounds the pause between two
readings. Only a watch comes to that pause, and only if it has a quiet span. -/
theorem phases_bounded_iff (hvalid : o.validate = .ok ()) (hretry : 1 ≤ o.retry) :
    PausesBriefly o ∧ SettlesInTime o ↔
      (o.watchedAddresses.isSome → o.silence.quiet ≠ .zero → o.silence.poll ≤ longestPhase) :=
  ⟨fun h => poll_le_of_pausesBriefly hvalid hretry h.1,
    fun hpoll => ⟨pausesBriefly_of_poll hvalid hpoll, settlesInTime_of_poll hvalid hpoll⟩⟩

/-- A disabling that watches one address, with some pause between two readings. -/
def watching (poll : Span) : Options where
  watched := some (.ofList [0x500])
  silence := { poll }

theorem phases_bounded_default :
    (watching (.ofMillis 20)).validate = .ok () ∧ 1 ≤ (watching (.ofMillis 20)).retry ∧
      PausesBriefly (watching (.ofMillis 20)) ∧ SettlesInTime (watching (.ofMillis 20)) := by
  have hvalid : (watching (.ofMillis 20)).validate = .ok () := rfl
  have hretry : 1 ≤ (watching (.ofMillis 20)).retry := by decide
  exact ⟨hvalid, hretry, (phases_bounded_iff hvalid hretry).mpr fun _ _ =>
    (by decide : Span.ofMillis 20 ≤ longestPhase)⟩

/-- Three hours between two readings are accepted, and on a quiet bus they are waited for, by which
the last phase of the attempt outlasts both bounds. -/
theorem pause_of_three_hours :
    (watching (.ofMillis 10800000)).validate = .ok () ∧ ∃ record,
      run (Engine.unrecorded (granting default)).recorded Playback.link.recorded 2
        (watching (.ofMillis 10800000)) (blank { world := still }) =
          some (⟨true, 1, .timedOut⟩, record) ∧
      .ofMillis 10800000 ∈ Use.pauses record.world.uses.toList ∧
      longestPhase < .ofMillis 10800000 ∧
      2 * longestPhase.nanos < record.world.world.clock := by
  have hseen : (run (Engine.unrecorded (granting default)).recorded Playback.link.recorded 2
      (watching (.ofMillis 10800000)) (blank { world := still })).map
        (fun x => (x.1, Use.pauses x.2.world.uses.toList, x.2.world.world.clock)) =
      some (⟨true, 1, .timedOut⟩, [.ofMillis 10800000], 10800000000000) := by decide +kernel
  obtain ⟨⟨outcome, record⟩, hrun, hseen⟩ := Option.map_eq_some_iff.mp hseen
  simp only [Prod.mk.injEq] at hseen
  obtain ⟨rfl, hpauses, hclock⟩ := hseen
  refine ⟨rfl, record, hrun, ?paused, by decide, ?late⟩
  case paused => exact hpauses ▸ List.mem_cons_self
  case late => exact hclock ▸ by decide

end Disabling

end EcuQuiet
