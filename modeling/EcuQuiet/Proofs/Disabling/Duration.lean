import EcuQuiet.Disabling.Attempts
import EcuQuiet.Proofs.Bus.Duration
import EcuQuiet.Proofs.IsoTp.Waiting
import EcuQuiet.Proofs.Silence.Polls

/-!
# How long a disabling lasts

Each phase of a disabling has a deadline of its own, and is over with the first reading that ends
after it: a query with its longest wait, a watch with its timeout. Whatever comes over the bus and
whatever fails, an attempt lasts no longer than its phases together, and a disabling no longer than
its attempts.
-/

namespace EcuQuiet

open Run

variable {σ : Type} {link : Link σ} {steady : σ → Prop} {time : σ → Instant} {longest : Span}

/-! ### Queries -/

namespace IsoTp

variable {c : Settings} {q : Query}

/-- The rounds of a query in time: the reading that is under way when the limit comes is the last
one, and every one before brings the limit nearer. -/
structure InTime (steady : σ → Prop) (time : σ → Instant) (longest : Span) (limit : Instant)
    (left : Nat) (all : List Conversation) (w : σ) : Prop where
  bounded : ∀ s ∈ all, s.Bounded limit
  by_end : By steady time (limit + longest.nanos) w
  running : all.all (·.isOver) = true ∨ time w < limit
  near : limit ≤ time w + left

/-- What a conversation wants done takes no time. -/
theorem perform_punctual (hlink : link.Punctual steady time longest) (t : Instant)
    (outputs : List Output) :
    Keeps False (fun w => time w = t ∧ steady w) (Output.perform link outputs) := by
  refine perform_keeps link fun frame _ w hw => ?_
  obtain ⟨hsame, hsteady⟩ := hlink.send [frame] w hw.2
  exact ⟨hsame.trans hw.1, hsteady⟩

theorem step_inTime (hlink : link.Punctual steady time longest) {limit : Instant} (left : Nat)
    (all : List Conversation) :
    Meets False (InTime steady time longest limit left all) (step c q link all)
      (Continues (fun next w => ∃ less < left, InTime steady time longest limit less next w)
        fun _ => By steady time (limit + longest.nanos)) := by
  refine step_meets link c q
    (R := fun _ w => 0 < left ∧ (∀ s ∈ all, s.Bounded limit) ∧
      By steady time (limit + longest.nanos) w ∧ limit ≤ time w + (left - 1))
    (S := fun _ now w => 0 < left ∧ (∀ s ∈ all, s.Bounded limit) ∧ time w = now ∧
      By steady time (limit + longest.nanos) w ∧ limit ≤ now + (left - 1))
    (fun _ w hw => hw.by_end) ?failed ?received ?now ?played
  case failed =>
    rintro hopen w cause ⟨-, hby, hover | hrunning, -⟩ -
    · exact absurd hover hopen
    · obtain ⟨-, hend, hsteady⟩ := hlink.receive w hby.1
      exact ⟨hsteady, Nat.le_trans hend (Nat.add_le_add_right (Nat.le_of_lt hrunning) _)⟩
  case received =>
    rintro hopen w batch ⟨hbounded, hby, hover | hrunning, hnear⟩ -
    · exact absurd hover hopen
    · obtain ⟨hlater, hend, hsteady⟩ := hlink.receive w hby.1
      refine ⟨?_, hbounded,
        ⟨hsteady, Nat.le_trans hend (Nat.add_le_add_right (Nat.le_of_lt hrunning) _)⟩, ?_⟩ <;>
        simp only [Instant] at * <;> omega
  case now =>
    rintro batch w ⟨hpos, hbounded, hby, hnear⟩
    obtain ⟨hread, htime, hsteady⟩ := hlink.now w hby.1
    rw [hread, ← htime]
    rw [← htime] at hnear
    exact ⟨hpos, hbounded, rfl, ⟨hsteady, by rw [htime]; exact hby.2⟩, hnear⟩
  case played =>
    rintro batch now w ⟨hpos, hbounded, htime, hby, hnear⟩
    refine (perform_punctual hlink now _).mono ?_ w ⟨htime, hby.1⟩
    rintro result later ⟨rfl, hsteady⟩
    have hby : By steady time (limit + longest.nanos) later := ⟨hsteady, htime ▸ hby.2⟩
    cases result with
    | error reason => exact hby
    | ok =>
        refine ⟨left - 1, Nat.sub_one_lt (Nat.ne_of_gt hpos), Round.bounded_play hbounded _ batch,
          hby, ?_, hnear⟩
        obtain hrunning | hreached := Nat.lt_or_ge (time later) limit
        · exact .inr hrunning
        · exact .inl (Round.isOver_play hbounded hreached batch)

/-- Before its rounds a query takes no time. -/
theorem engine_lasts_of_loop (hlink : link.Punctual steady time longest) {rounds most : Nat}
    (hloop : q.timeout ≠ .zero → ∀ start limit all,
      Instant.after? start (c.longestWait q.timeout) = some limit →
        (∀ s ∈ all, Conversation.Bounded limit s) →
          Meets False (fun w => time w = start ∧ steady w) (loop (step c q link) rounds all)
            fun _ => By steady time (start + most)) :
    Lasts steady time (engine c link rounds q) most := by
  refine Lasts.of_forall fun before hbefore => ?_
  have hby : ∀ w, time w = time before ∧ steady w → By steady time (time before + most) w :=
    fun w hw => ⟨hw.2, Nat.le_trans (Nat.le_of_eq hw.1) (Nat.le_add_right ..)⟩
  refine engine_meets link c q
    (N := fun start w => start = time before ∧ time w = time before ∧ steady w)
    (M := fun start w => start = time before ∧ time w = time before ∧ steady w)
    ?refused ?now (fun _ _ w hw => hby w hw.2) ?asked (fun _ _ w hw => hby w hw.2) ?heard
  case refused =>
    rintro - _ rfl
    exact hby _ ⟨rfl, hbefore⟩
  case now =>
    rintro _ rfl
    exact hlink.now _ hbefore
  case asked =>
    rintro first later start limit - - w ⟨rfl, hw⟩
    refine (perform_punctual hlink _ _).mono (fun result after hafter => ?_) w hw
    cases result with
    | error reason => exact hby after hafter
    | ok => exact ⟨rfl, hafter⟩
  case heard =>
    rintro hwaits first later start limit - hlimit w ⟨rfl, hw⟩
    exact hloop hwaits _ limit _ hlimit (bounded_begun hlimit) w hw

/-- A query ends with the first reading after its longest wait, if not before. -/
theorem engine_lasts (hlink : link.Punctual steady time longest) {rounds : Nat}
    (hrounds : (c.longestWait q.timeout).nanos < rounds) :
    Lasts steady time (engine c link rounds q)
      ((c.longestWait q.timeout).nanos + longest.nanos) := by
  refine engine_lasts_of_loop hlink fun hwaits start limit all hlimit hbounded => ?_
  obtain ⟨rfl, -⟩ := Instant.after?_eq_some_iff.mp hlimit
  rw [← Nat.add_assoc]
  rintro w ⟨rfl, hsteady⟩
  have hpositive : 0 < (c.longestWait q.timeout).nanos := by
    rw [Settings.longestWait, Span.nanos_max]
    have hwait : q.timeout.nanos ≠ 0 := fun hzero => hwaits (Span.ext hzero)
    omega
  refine Meets.loop_of_measure (step_inTime hlink) hrounds all w ⟨hbounded, ⟨hsteady, ?_⟩,
    .inr (Nat.lt_add_of_pos_right hpositive), Nat.le_refl _⟩
  rw [Nat.add_assoc]
  exact Nat.le_add_right ..

/-- A query that does not wait takes no time. -/
theorem engine_lasts_unheard (hlink : link.Punctual steady time longest)
    (htimeout : q.timeout = .zero) (rounds : Nat) :
    Lasts steady time (engine c link rounds q) 0 :=
  engine_lasts_of_loop hlink fun hwaits => absurd htimeout hwaits

end IsoTp

/-! ### Watches -/

namespace Silence

/-- A watch ends with the first reading after its timeout and the pause behind it, if not before. -/
theorem watch_lasts (hlink : link.Punctual steady time longest) {rounds : Nat} {timeout : Span}
    (hrounds : timeout.nanos < rounds) (bus : UInt8) (addresses : AddressSet)
    (settings : Settings) :
    Lasts steady time (watch link rounds bus addresses timeout settings)
      (timeout.nanos + settings.poll.nanos + longest.nanos) := by
  refine Lasts.of_forall fun before hbefore => ?_
  rintro w rfl
  have hmeasured := hlink.measured settings.poll
  obtain ⟨verdict, after, hrun⟩ :=
    exists_verdict bus addresses hmeasured (hlink.moves _) hbefore hrounds
  have hmap : (watch link rounds bus addresses timeout settings w).map
      (fun e => (e.1, e.2.world)) = some (verdict, after.world) := by rw [hrun]; rfl
  rw [hrun]
  refine (by_of_verdict hmeasured hbefore ((watch_eq_some_iff ..).mp hmap)).mono ?_
  simp only [Instant]
  omega

end Silence

/-! ### Disablings -/

namespace Disabling

variable {o : Options} {rounds : Nat}

/-- The longest time that an attempt takes if no reading of the bus takes longer than `longest`. -/
def attemptBound (o : Options) (longest : Span) : Nat :=
  (max o.timeout (.ofMillis 10000)).nanos + longest.nanos +
    max (o.watchTimeout.nanos + o.silence.poll.nanos + longest.nanos)
      (o.delay.getD defaultDelay).nanos

theorem enterSession_lasts (hlink : link.Punctual steady time longest)
    (hrounds : (IsoTp.Settings.longestWait {} o.timeout).nanos < rounds) :
    Lasts steady time (enterSession (IsoTp.engine {} link rounds) o)
      ((IsoTp.Settings.longestWait {} o.timeout).nanos + longest.nanos) := by
  have hengine := IsoTp.engine_lasts (q := sessionQuery o) hlink hrounds
  refine Lasts.bind_instant hengine fun answers => ?_
  refine Lasts.ofExcept_bind _ fun response => ?_
  exact Lasts.noteAll_bind _ (Lasts.ofExcept _)

theorem awaitSilence_lasts (hlink : link.Punctual steady time longest)
    (hrounds : o.watchTimeout.nanos < rounds) :
    Lasts steady time (awaitSilence link rounds o)
      (max (o.watchTimeout.nanos + o.silence.poll.nanos + longest.nanos)
        (o.delay.getD defaultDelay).nanos) := by
  rw [awaitSilence]
  cases o.watchedAddresses with
  | none =>
      refine Lasts.note_bind _ (Lasts.mono ?_ (Nat.le_max_right ..))
      exact Lasts.bind_instant (Lasts.pause hlink _) fun _ => Lasts.pure _
  | some addresses =>
      refine Lasts.note_bind _ (Lasts.mono ?_ (Nat.le_max_left ..))
      refine Lasts.bind_instant
        (Silence.watch_lasts hlink hrounds o.bus addresses o.silence) fun quiet => ?_
      cases quiet with
      | true => exact Lasts.note_bind _ (Lasts.pure _)
      | false => exact Lasts.note_bind _ (Lasts.pure _)

/-- An attempt ends, after no more than its phases together. -/
theorem attempt_lasts (hlink : link.Punctual steady time longest)
    (hsession : (IsoTp.Settings.longestWait {} o.timeout).nanos < rounds)
    (hwatch : o.watchTimeout.nanos < rounds) :
    Lasts steady time (attempt (IsoTp.engine {} link rounds) link rounds o)
      (attemptBound o longest) := by
  refine Lasts.bind (enterSession_lasts hlink hsession) fun _ => Lasts.note_bind _ ?_
  have hcontrol := IsoTp.engine_lasts_unheard (q := controlQuery o) (c := {}) hlink rfl rounds
  rw [← Nat.zero_add (max _ _)]
  exact hcontrol.bind fun _ => Lasts.note_bind _ (awaitSilence_lasts hlink hwatch)

/-- As many attempts end as there are, each after its own time. -/
theorem attempts_last {attempt : Run σ Silencing} {most : Nat}
    (h : Lasts steady time attempt most) (target : Target) (left made : Nat) {w : Logged σ}
    (hw : steady w.world) :
    ∃ outcome after, attempts attempt target left made w = some (outcome, after) ∧
      steady after.world ∧ time after.world ≤ time w.world + left * most := by
  induction left generalizing made w with
  | zero => exact ⟨_, _, rfl, hw, Nat.le_add_right ..⟩
  | succ left ih =>
      obtain ⟨result, middle, hrun, hsteady, htime⟩ := h.exists_end hw
      have hsum : time w.world + most ≤ time w.world + (left + 1) * most := by
        rw [Nat.succ_mul, Nat.add_comm (left * most)]
        exact Nat.add_le_add_left (Nat.le_add_right ..) _
      cases result with
      | ok silencing =>
          refine ⟨⟨true, made + 1, silencing⟩, middle, ?_, hsteady, Nat.le_trans htime hsum⟩
          rw [attempts, hrun]
      | error reason =>
          obtain ⟨outcome, after, hrest, hlast, hend⟩ := ih (made + 1)
            (w := (middle.note (failureNote target reason)).note (.retrying (made + 1))) hsteady
          refine ⟨outcome, after, ?_, hlast, ?_⟩
          · rw [attempts, hrun]
            exact hrest
          · rw [Nat.succ_mul, Nat.add_comm (left * most), ← Nat.add_assoc]
            exact Nat.le_trans hend (Nat.add_le_add_right htime _)

/-- A disabling ends, whatever comes over the bus and whatever fails there, if each reading of the
bus takes some time and none takes longer than `longest`. All of its attempts together take no more
time than the session timeout or ten seconds, the timeout of the watch with a pause or the delay
without one, and a reading after each of both, once for every attempt. -/
theorem disabling_in_time (hlink : link.Punctual steady time longest) (o : Options) {w : Logged σ}
    (hw : steady w.world)
    (hrounds : (max o.timeout (.ofMillis 10000)).nanos < rounds ∧ o.watchTimeout.nanos < rounds) :
    ∃ outcome after, runOverFrames link rounds o w = some (outcome, after) ∧
      time after.world ≤ time w.world + o.retry.toNat *
        ((max o.timeout (.ofMillis 10000)).nanos + longest.nanos +
          max (o.watchTimeout.nanos + o.silence.poll.nanos + longest.nanos)
            (o.delay.getD defaultDelay).nanos) := by
  rw [runOverFrames, run]
  cases o.validate with
  | error reason => exact ⟨_, _, rfl, Nat.le_add_right ..⟩
  | ok =>
      have hattempt := attempt_lasts (o := o) hlink hrounds.1 hrounds.2
      obtain ⟨outcome, after, hrun, -, hend⟩ :=
        attempts_last hattempt o.target o.retry.toNat 0 (w := w.note (.disabling o.target)) hw
      exact ⟨outcome, after, hrun, hend⟩

/-- A scripted bus whose first reading and third send fail and on which no reading takes longer than
15 ms: ten attempts with a watch of 1.5 s are over within 115.5 s. -/
theorem disabling_in_time_failing :
    ∃ outcome after,
      runOverFrames Scripted.Playback.link 10000000001 { watched := some (.ofList [0x7D0]) }
        { world := { clock := 0, idle := .ofMillis 15
                     readings := [{ takes := .ofMillis 7, result := .error .readTimeout }]
                     faults := [none, none, some .readTimeout] } } = some (outcome, after) ∧
      after.world.clock ≤ 10 * 11550000000 := by
  have hsteady : Scripted.Playback.Steady (.ofMillis 15)
      { clock := 0, idle := .ofMillis 15
        readings := [{ takes := .ofMillis 7, result := .error .readTimeout }]
        faults := [none, none, some .readTimeout] } :=
    ⟨List.forall_mem_singleton.mpr (by decide), by decide⟩
  have hrounds : (max (.ofMillis 100) (.ofMillis 10000) : Span).nanos < 10000000001 ∧
      (Span.ofMillis 1500).nanos < 10000000001 := by decide
  obtain ⟨outcome, after, hrun, hend⟩ := disabling_in_time (Scripted.Playback.link_punctual _)
    { watched := some (.ofList [0x7D0]) } (w := { world := _ }) hsteady hrounds
  exact ⟨outcome, after, hrun, Nat.le_trans hend (by decide)⟩

end Disabling

end EcuQuiet
