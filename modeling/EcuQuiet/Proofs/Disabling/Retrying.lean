import EcuQuiet.Proofs.Disabling.Confirming
import EcuQuiet.Proofs.Disabling.Handshake
import EcuQuiet.Proofs.Disabling.Validity

/-!
# Lost attempts

An attempt is lost when its session request cannot be sent, or when the unit drops it. The two cost
different things: a failed send takes no time, a dropped request the whole session timeout. But each
costs exactly one attempt and leaves nothing behind that a later one could meet, so only their
number counts.
-/

namespace EcuQuiet.Disabling

open Run Simulation

/-- The frames that were given to sends, failed ones included. -/
def offered (n : Network) : List Frame := n.sent.toList.map (·.2)

/-- A network on which so many more attempts are lost, to sends that fail and then to requests that
the unit drops. So far each attempt has sent its session request and nothing else, and the clock can
show the ends of those that are left. -/
structure Losing (o : Options) (e : Ecu) (latency : Span) (base : List Frame)
    (made left lost : Nat) (n : Network) : Prop where
  hosts : ∃ ignoring periodic, n.faults + ignoring = lost ∧
    Hosts (e.dropping ignoring) periodic [] { n with faults := 0 }
  same : n.latency = latency
  given : offered n = base ++ List.replicate made (sessionStart o)
  range : n.clock + left * (o.timeout.nanos + latency.nanos) +
    (IsoTp.Settings.longestWait {} o.timeout).nanos ≤ Instant.latest

/-- An effective disabling without a watch. -/
structure Plain (o : Options) (r : Uds.ControlRequest) (latency : Span) : Prop
    extends Effective o r latency where
  unwatched : o.watchedAddresses = none

variable {o : Options} {e : Ecu} {r : Uds.ControlRequest} {latency : Span} {base : List Frame}
  {made left lost rounds : Nat} {n : Network}

theorem offered_append {after : Network} {f : Frame} {t : Instant}
    (h : after.sent = n.sent ++ [(t, f)]) : offered after = offered n ++ [f] := by
  rw [offered, offered, h]
  simp

theorem replicate_succ_end (base : List Frame) (made : Nat) (f : Frame) :
    base ++ List.replicate made f ++ [f] = base ++ List.replicate (made + 1) f := by
  rw [List.append_assoc, ← List.replicate_succ']

/-- One attempt less is left after its time. -/
theorem Losing.range_later (h : Losing o e latency base made (left + 1) lost n) {later : Instant}
    (hlater : later ≤ n.clock + (o.timeout.nanos + latency.nanos)) :
    later + left * (o.timeout.nanos + latency.nanos) +
      (IsoTp.Settings.longestWait {} o.timeout).nanos ≤ Instant.latest := by
  have hrange := h.range
  rw [Nat.succ_mul] at hrange
  simp only [Instant] at *
  omega

/-- The clock can show the end of a session query. -/
theorem Losing.after? (h : Losing o e latency base made left lost n) :
    Instant.after? n.clock (IsoTp.Settings.longestWait {} o.timeout) =
      some (n.clock + (IsoTp.Settings.longestWait {} o.timeout).nanos) := by
  have hrange := h.range
  refine Instant.after?_eq_some_iff.mpr ⟨rfl, ?_⟩
  simp only [Instant] at *
  omega

/-- A send that fails costs an attempt and no time. -/
theorem session_unsent (h : Losing o e latency base made (left + 1) (lost + 1) n)
    {faults ignoring : Nat} {periodic : List Periodic} (hfaults : n.faults = faults + 1)
    (hlost : n.faults + ignoring = lost + 1)
    (hhosts : Hosts (e.dropping ignoring) periodic [] { n with faults := 0 }) :
    Meets False (· = n) (IsoTp.engine {} Network.link rounds (sessionQuery o)) fun result after =>
      (∃ reason, result = .error reason) ∧ Losing o e latency base (made + 1) left lost after := by
  have hsent : Network.send [sessionStart o] n =
      { result := .error Network.injectedFailure
        world := { n with
          faults, sends := n.sends + 1, sent := n.sent ++ [(n.clock, sessionStart o)] } } := by
    obtain ⟨clock, latency, ecus, scheduled, sent, _, sends⟩ := n
    subst hfaults
    rfl
  have hafter : Losing o e latency base (made + 1) left lost
      { n with
        faults, sends := n.sends + 1, sent := n.sent ++ [(n.clock, sessionStart o)] } := by
    obtain ⟨⟨requests, halone⟩, hentries⟩ := hhosts
    refine ⟨⟨ignoring, periodic, ?_, ⟨requests, halone.ecus, halone.scheduled, rfl⟩, hentries⟩,
      h.same, ?_, h.range_later (Nat.le_add_right ..)⟩
    · show faults + ignoring = lost
      omega
    · rw [offered_append rfl, h.given, replicate_succ_end]
  refine IsoTp.engine_asks rfl rfl rfl rfl h.after? (fun cause _ => ⟨⟨_, rfl⟩, ?_⟩)
    (fun hok => ?_) fun hok => ?_
  · rw [show Network.link.send [IsoTp.Settings.startFrame {} (sessionQuery o).bus o.target
      Uds.extendedSession.request] n = _ from hsent]
    exact hafter
  · cases (congrArg Reply.result hsent).symm.trans hok
  · cases (congrArg Reply.result hsent).symm.trans hok

/-- A request that the unit drops costs an attempt and the time that the tester waits for it. -/
theorem session_dropped (h : Losing o e latency base made (left + 1) (lost + 1) n)
    (hunit : Attentive o e) (hplain : Plain o r latency) {periodic : List Periodic}
    (hhosts : Hosts (e.dropping (lost + 1)) periodic [] n)
    (hrounds : o.timeout.nanos < rounds) :
    Meets False (· = n) (IsoTp.engine {} Network.link rounds (sessionQuery o)) fun result after =>
      (∃ answers, result = .ok answers ∧ answers.get? o.target = none) ∧
        Losing o e latency base (made + 1) left lost after := by
  have hrunning : 0 < n.latency.nanos := h.same ▸ hplain.running
  have hpatient : n.latency.nanos + Ecu.reaction.nanos < o.timeout.nanos := h.same ▸ hplain.patient
  have hbrief := hunit.brief hrunning hpatient
  have hshort : (sessionDialogue o n).Short (e.dropping lost) :=
    ⟨hbrief.toFeasible, hbrief.target, hbrief.discreet, hbrief.request_short⟩
  have hdropped := hhosts.dropped {} (hbrief.target ▸ hbrief.request_short)
  rw [hbrief.bus, hbrief.target] at hdropped
  have hsession := Dialogue.engine_short hshort hhosts rfl h.after? hdropped
    ⟨.nil, fun _ hx => absurd hx List.not_mem_nil, .none⟩ hrounds
  refine hsession.mono ?_
  rintro result after ⟨hunanswered, ⟨periodic', left', ⟨⟨requests, halone⟩, hentries⟩, hleft, -⟩,
    hspent, -⟩
  obtain rfl := List.sublist_nil.mp hleft
  have hended := hspent.ended
  refine ⟨hunanswered, ⟨lost, periodic', by rw [halone.faults, Nat.zero_add],
    ⟨requests, halone.ecus, halone.scheduled, rfl⟩, hentries⟩, hspent.latency.trans h.same, ?_,
    h.range_later ?_⟩
  · rw [offered_append hspent.sent, h.given]
    exact replicate_succ_end base made _
  · rw [← h.same, ← Nat.add_assoc]
    exact Nat.le_of_lt hended

/-- An attempt that is lost costs one session request. -/
theorem attempt_lost (hunit : Attentive o e) (hplain : Plain o r latency)
    (hrounds : o.timeout.nanos < rounds) :
    Meets False (Losing o e latency base made (left + 1) (lost + 1))
      (attempt (IsoTp.engine {} Network.link rounds) Network.link rounds o)
      fun result n => (∃ reason, result = .error reason) ∧
        Losing o e latency base (made + 1) left lost n := by
  refine attempt_refused (Meets.of_forall fun n h => ?_)
  obtain ⟨ignoring, periodic, hlost, hhosts⟩ := h.hosts
  cases hfaults : n.faults with
  | succ faults =>
      refine (session_unsent h hfaults hlost hhosts).mono ?_
      rintro result after ⟨⟨reason, rfl⟩, hafter⟩
      exact ⟨fun _ _ hok => (by cases hok), hafter⟩
  | zero =>
      obtain rfl : ignoring = lost + 1 := by omega
      have hsame : { n with faults := 0 } = n := by rw [← hfaults]
      rw [hsame] at hhosts
      refine (session_dropped h hunit hplain hhosts hrounds).mono ?_
      rintro result after ⟨⟨answers, rfl, hnone⟩, hafter⟩
      refine ⟨fun answers' response hok hanswer => ?_, hafter⟩
      obtain rfl := Except.ok.inj hok
      cases hnone.symm.trans hanswer

/-- The first attempt that is not lost is the last one. -/
theorem attempt_granted (hunit : Attentive o e) (hplain : Plain o r latency)
    (hrounds : o.timeout.nanos < rounds) :
    Meets False (Losing o e latency base made (left + 1) 0)
      (attempt (IsoTp.engine {} Network.link rounds) Network.link rounds o)
      fun result n => result = .ok (.left (o.delay.getD defaultDelay)) ∧
        offered n = base ++ List.replicate (made + 1) (sessionStart o) ++ [controlStart o] := by
  refine Meets.of_forall fun n h => ?_
  obtain ⟨ignoring, periodic, hlost, hhosts⟩ := h.hosts
  obtain ⟨hfaults, rfl⟩ := Nat.add_eq_zero_iff.mp hlost
  have hsame : { n with faults := 0 } = n := by rw [← hfaults]
  rw [hsame, Ecu.dropping_zero hunit.heeds] at hhosts
  have heffective : Effective o r n.latency := h.same ▸ hplain.toEffective
  have hclock : n.clock + o.timeout.nanos + (IsoTp.Settings.longestWait {} .zero).nanos ≤
      Instant.latest := by
    have hrange := h.range_later (Nat.add_le_add_left (Nat.le_add_right ..) _)
    obtain ⟨-, hmore⟩ := le_longestWait o.timeout
    simp only [Instant] at *
    omega
  refine attempt_comes hunit hhosts heffective hclock hrounds fun controlled hsilenced => ?_
  refine awaitSilence_parts ?left fun _ hwatched => by cases hwatched.symm.trans hplain.unwatched
  case left =>
    rintro - controlled rfl
    refine ⟨rfl, ?_⟩
    have hsame : (Network.link.sleep (o.delay.getD defaultDelay) controlled).sent =
        controlled.sent := rfl
    rw [offered, hsame, hsilenced.sent, List.map_append, ← offered, h.given, ← replicate_succ_end]
    simp only [List.map_cons, List.map_nil, List.append_assoc, List.cons_append, List.nil_append]
    rfl

/-- A series of attempts ends with the first one that is not lost, if it comes to it. -/
theorem attempts_count (hunit : Attentive o e) (hplain : Plain o r latency)
    (hrounds : o.timeout.nanos < rounds) (left made lost : Nat) {w : Logged Network}
    (hw : Losing o e latency base made left lost w.world) :
    ∃ after, attempts (attempt (IsoTp.engine {} Network.link rounds) Network.link rounds o) o.target
        left made w =
      some (if lost < left then ⟨true, made + lost + 1, .left (o.delay.getD defaultDelay)⟩
        else ⟨false, made + left, .notReached⟩, after) ∧
      offered after.world =
        if lost < left then
          base ++ List.replicate (made + lost + 1) (sessionStart o) ++ [controlStart o]
        else base ++ List.replicate (made + left) (sessionStart o) := by
  induction left generalizing made lost w with
  | zero => exact ⟨_, rfl, hw.given⟩
  | succ left ih =>
      cases lost with
      | zero =>
          obtain ⟨result, after, hrun, rfl, hoffered⟩ :=
            (attempt_granted hunit hplain hrounds).exists_end hw
          refine ⟨after, ?_, ?_⟩
          · rw [attempts, hrun, if_pos (Nat.zero_lt_succ left)]
          · rw [if_pos (Nat.zero_lt_succ left), hoffered]
      | succ lost =>
          obtain ⟨result, middle, hrun, ⟨reason, rfl⟩, hmiddle⟩ :=
            (attempt_lost hunit hplain hrounds).exists_end hw
          obtain ⟨after, hrest, hoffered⟩ := ih (made + 1) lost
            (w := (middle.note (failureNote o.target reason)).note (.retrying (made + 1))) hmiddle
          have hlost : made + (lost + 1) = made + 1 + lost := by omega
          have hleft : made + (left + 1) = made + 1 + left := by omega
          simp only [Nat.add_lt_add_iff_right, hlost, hleft]
          refine ⟨after, ?_, hoffered⟩
          rw [attempts, hrun]
          exact hrest

/-- Before the first half of its range is over, the clock can show the end of every attempt. -/
theorem Losing.initially (hunit : Obliging o e) {ignoring : Nat}
    (halone : Alone { n with faults := 0 } (e.dropping ignoring))
    (hplain : Plain o r n.latency) (hvalid : o.validate = .ok ())
    (hclock : n.clock ≤ Instant.latest / 2) :
    Losing o e n.latency (offered n) 0 o.retry.toNat (n.faults + ignoring) n := by
  have hidle : (e.dropping ignoring).outbox = [] := hunit.idle
  have hhosts := Hosts.of_alone halone
  rw [hidle] at hhosts
  have htimeout : o.timeout.nanos ≤ longestPhase.nanos :=
    (Options.validate_iff.mp hvalid).2.1 _ List.mem_cons_self
  have hlatency := hplain.patient
  have hretry : o.retry.toNat < 2 ^ 32 := o.retry.toNat_lt
  have hattempts : o.retry.toNat * (o.timeout.nanos + n.latency.nanos) ≤
      2 ^ 32 * (2 * longestPhase.nanos) := by
    refine Nat.mul_le_mul hretry.le ?_
    omega
  have hwait := longestWait_le o.timeout
  have hroom : 2 ^ 32 * (2 * longestPhase.nanos) + (longestPhase.nanos +
      (IsoTp.Settings.longestWait {} .zero).nanos) ≤ Instant.latest / 2 := by decide
  refine ⟨⟨ignoring, _, rfl, hhosts⟩, rfl, (List.append_nil _).symm, ?_⟩
  simp only [Instant] at *
  omega

/-- An attempt is lost for each send that is made to fail and for each request that the unit drops,
and for nothing else: the disabling succeeds exactly if fewer are lost than it may make, and stops
with its first attempt that is not lost. Every attempt gives the session request to a send once,
also if the send fails, and communication control is sent once if the disabling succeeds, and else
never. The clock may show any time in the first half of its range. -/
theorem lost_attempts_counted {w : Logged Network} {ignoring : Nat} (hunit : Obliging o e)
    (halone : Alone { w.world with faults := 0 } (e.dropping ignoring))
    (hplain : Plain o r w.world.latency) (hvalid : o.validate = .ok ())
    (hclock : w.world.clock ≤ Instant.latest / 2) (hrounds : o.timeout.nanos < rounds) :
    ∃ after, runOverFrames Network.link rounds o w = some
        ({ disabled := decide (w.world.faults + ignoring < o.retry.toNat)
           attempts := min (w.world.faults + ignoring + 1) o.retry.toNat
           silencing := if w.world.faults + ignoring < o.retry.toNat then
              .left (o.delay.getD defaultDelay) else .notReached }, after) ∧
      offered after.world = offered w.world ++
        List.replicate (min (w.world.faults + ignoring + 1) o.retry.toNat) (sessionStart o) ++
        if w.world.faults + ignoring < o.retry.toNat then [controlStart o] else [] := by
  obtain ⟨after, hrun, hoffered⟩ := attempts_count hunit.attentive hplain hrounds o.retry.toNat 0
    (w.world.faults + ignoring) (w := w.note (.disabling o.target))
    (Losing.initially hunit halone hplain hvalid hclock)
  refine ⟨after, ?_, ?_⟩
  · rw [runOverFrames, run, hvalid]
    refine hrun.trans ?_
    split
    next h => simp only [h, decide_true, Nat.zero_add, Nat.min_eq_left (Nat.succ_le_of_lt h)]
    next h =>
      have hleast := Nat.min_eq_right (Nat.le_succ_of_le (Nat.not_lt.mp h))
      simp only [h, decide_false, Nat.zero_add, hleast]
  · rw [hoffered]
    split
    next h => rw [Nat.zero_add, Nat.min_eq_left (Nat.succ_le_of_lt h)]
    next h =>
      rw [Nat.zero_add, Nat.min_eq_right (Nat.le_succ_of_le (Nat.not_lt.mp h)), List.append_nil]

/-- Two sends that fail and three requests that the unit drops cost five attempts. -/
theorem lost_attempts_counted_mixed :
    ∃ after, runOverFrames Network.link 100000001 {}
        { world := { faults := 2, ecus := [(Ecu.diagnostic 0 0x7D0).dropping 3] } } = some
        (⟨true, 6, .left (.ofMillis 500)⟩, after) ∧
      offered after.world = List.replicate 6 (sessionStart {}) ++ [controlStart {}] := by
  let unit := Ecu.diagnostic 0 0x7D0
  have hunit : Obliging {} unit :=
    ⟨rfl, rfl, rfl, rfl, rfl, rfl, fun _ hp => absurd hp List.not_mem_nil⟩
  have halone : Alone { ecus := [unit.dropping 3] } (unit.dropping 3) := ⟨rfl, rfl, rfl⟩
  have hplain : Plain {} {} (.ofMillis 10) := ⟨⟨by decide, by decide, rfl, rfl⟩, rfl⟩
  have hrounds : (Span.ofMillis 100).nanos < 100000001 := by decide
  obtain ⟨after, hrun, hoffered⟩ := lost_attempts_counted hunit
    (w := { world := { faults := 2, ecus := [unit.dropping 3] } }) halone hplain rfl (by decide)
    hrounds
  exact ⟨after, hrun, hoffered⟩

end EcuQuiet.Disabling
