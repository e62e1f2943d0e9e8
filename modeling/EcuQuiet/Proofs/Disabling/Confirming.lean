import EcuQuiet.Disabling.Attempts
import EcuQuiet.Proofs.Disabling.Delivery
import EcuQuiet.Proofs.Silence.Fading
import EcuQuiet.Proofs.Simulation.Beside

/-!
# A unit that does as it is told

A unit that knows the extended session and obeys communication control is disabled with the first
attempt, whatever it transmits meanwhile on other addresses than that of its responses. It goes on
for some time after the request, and then the watch counts its quiet span, so the confirmation has a
least and a greatest time.
-/

namespace EcuQuiet.Disabling

open Run Simulation

/-- A unit at the target of a disabling that knows the extended session, obeys communication control
after some delay, and has nothing to say to its tester yet. -/
structure Obliging (o : Options) (e : Ecu) : Prop where
  bus : e.bus = o.bus
  target : e.target = o.target
  heeds : e.ignoring = 0
  obeys : e.obeys = true
  knows : e.responses.lookup Uds.extendedSession.request = some Uds.extendedSession.expected
  idle : e.outbox = []
  apart : e.KeepsApart

/-- Whatever its delay and its periodic frames on other addresses, a unit that knows the diagnostic
sessions is such a unit. -/
theorem Obliging.diagnostic (o : Options) (silenceDelay : Span) {periodic : List Periodic}
    (hapart : ∀ p ∈ periodic, p.address ≠ IsoTp.responseAddress o.target.address 0x08) :
    Obliging o { Ecu.diagnostic o.bus o.target.address with
      subAddress := o.target.subAddress, silenceDelay, periodic } :=
  ⟨rfl, rfl, rfl, rfl, rfl, rfl, hapart⟩

/-- A unit at the target of a disabling that knows the extended session and obeys communication
control. -/
structure Willing (o : Options) (e : Ecu) : Prop where
  bus : e.bus = o.bus
  target : e.target = o.target
  heeds : e.ignoring = 0
  obeys : e.obeys = true
  knows : e.responses.lookup Uds.extendedSession.request = some Uds.extendedSession.expected

/-- Such a unit that tells its tester nothing by its periodic frames. -/
structure Attentive (o : Options) (e : Ecu) : Prop extends Willing o e where
  discreet : e.Discreet

variable {o : Options} {e : Ecu} {r : Uds.ControlRequest} {before n : Network}
  {periodic : List Periodic} {rounds : Nat}

theorem Obliging.attentive (h : Obliging o e) : Attentive o e :=
  ⟨⟨h.bus, h.target, h.heeds, h.obeys, h.knows⟩, h.apart.discreet⟩

/-- The exchange in which the extended session is entered. -/
def sessionDialogue (o : Options) (n : Network) : Dialogue where
  settings := {}
  bus := o.bus
  target := o.target
  request := Uds.extendedSession.request
  response := Uds.extendedSession.expected
  expected := Uds.extendedSession.expected
  timeout := o.timeout
  latency := n.latency
  limit := n.clock + (IsoTp.Settings.longestWait {} o.timeout).nanos

theorem Attentive.brief (h : Attentive o e) (hrunning : 0 < n.latency.nanos)
    (htimeout : n.latency.nanos + Ecu.reaction.nanos < o.timeout.nanos) :
    (sessionDialogue o n).Brief e := by
  have hcapacity := IsoTp.capacity_eq o.target
  have hshort : 2 < IsoTp.capacity o.target := by omega
  have hrequest : 1 ≤ Uds.extendedSession.request.length ∧
      Uds.extendedSession.request.length ≤ IsoTp.longestMessage := by decide
  have hresponse : 1 ≤ Uds.extendedSession.expected.length ∧
      Uds.extendedSession.expected.length ≤ IsoTp.longestMessage := by decide
  have hpositive : Uds.extendedSession.expected.head? ≠ some Uds.negativeResponse := by decide
  exact ⟨⟨⟨rfl, hrequest.1, hrequest.2, hresponse.1, hresponse.2, rfl, hpositive,
    List.prefix_refl _, hrunning, Nat.le_of_lt htimeout⟩, h.target, h.discreet, hshort⟩,
    h.bus, h.heeds, h.knows, hshort⟩

/-- A disabling that watches its unit for long enough: a communication control request that silences
the unit and asks for no confirmation, and a watch with room for the delay of the unit. -/
structure Thorough (o : Options) (r : Uds.ControlRequest) (latency delay : Span) : Prop where
  request : o.request = r.toBytes
  silences : r.control.silences = true
  suppressed : r.suppressed = true
  watched : o.watchedAddresses.isSome
  patient : latency.nanos + Ecu.reaction.nanos < o.timeout.nanos
  room : delay.nanos + o.silence.quiet.nanos + 2 * (o.silence.poll.nanos + latency.nanos) ≤
    o.watchTimeout.nanos

/-- A disabling that gives its unit time for a response, and whose communication control request
silences it. -/
structure Effective (o : Options) (r : Uds.ControlRequest) (latency : Span) : Prop where
  running : 0 < latency.nanos
  patient : latency.nanos + Ecu.reaction.nanos < o.timeout.nanos
  request : o.request = r.toBytes
  silences : r.control.silences = true

/-- Where a disabling is after the extended session was entered. -/
structure Entered (o : Options) (e : Ecu) (before n : Network) : Prop where
  hosts : ∃ periodic, Hosts e periodic [] n ∧ ∀ p ∈ periodic, n.clock < p.due
  latency : n.latency = before.latency
  sent : n.sent = before.sent ++ [(before.clock,
    IsoTp.Settings.startFrame {} o.bus o.target Uds.extendedSession.request)]
  intime : n.clock < before.clock + o.timeout.nanos

/-- Where a disabling is when communication control was sent, at the time the clock shows. -/
structure Silenced (o : Options) (e : Ecu) (r : Uds.ControlRequest) (before n : Network) :
    Prop where
  hosts : ∃ periodic, Hosts { e with silencedAt := some (n.clock + e.silenceDelay.nanos) } periodic
    (e.confirmation n.clock r) n ∧ ∀ p ∈ periodic, n.clock < p.due
  latency : n.latency = before.latency
  sent : n.sent.toList = before.sent.toList ++
    [(before.clock, IsoTp.Settings.startFrame {} o.bus o.target Uds.extendedSession.request),
      (n.clock, IsoTp.Settings.startFrame {} o.bus o.target o.request)]
  intime : n.clock < before.clock + o.timeout.nanos

/-- The unit grants the extended session. -/
theorem enterSession_meets (h : Attentive o e) (hhosts : Hosts e periodic [] before)
    (hrunning : 0 < before.latency.nanos)
    (htimeout : before.latency.nanos + Ecu.reaction.nanos < o.timeout.nanos)
    (hclock : before.clock + (IsoTp.Settings.longestWait {} o.timeout).nanos ≤ Instant.latest)
    (hrounds : o.timeout.nanos < rounds) :
    Meets False (· = before) (enterSession (IsoTp.engine {} Network.link rounds) o)
      fun result n => result = .ok () ∧ Entered o e before n := by
  have hsession := Dialogue.engine_brief (h.brief hrunning htimeout) hhosts rfl
    (Instant.after?_eq_some_iff.mpr ⟨rfl, hclock⟩) hrounds
  refine enterSession_grants (hsession.mono ?_)
  rintro result n ⟨hanswers, ⟨periodic, left, hhosts, hleft, hlater⟩, hspent, hprompt⟩
  obtain rfl := List.sublist_nil.mp hleft
  exact ⟨hanswers, ⟨periodic, hhosts, hlater⟩, hspent.latency, hspent.sent, hprompt rfl⟩

/-- The unit takes communication control at once and is silenced after its delay. -/
theorem control_meets (h : Attentive o e) (hentered : Entered o e before n)
    (hrequest : o.request = r.toBytes) (hsilences : r.control.silences = true)
    (hclock : n.clock + (IsoTp.Settings.longestWait {} .zero).nanos ≤ Instant.latest)
    (rounds : Nat) :
    Meets False (· = n) (IsoTp.engine {} Network.link rounds (controlQuery o))
      fun result after => (∃ answers, result = .ok answers) ∧ Silenced o e r before after := by
  obtain ⟨periodic, hhosts, hlater⟩ := hentered.hosts
  have hlength : o.request.length = 3 := by rw [hrequest]; rfl
  have hsendable : IsoTp.isSendable (controlQuery o) = true := by
    simp [IsoTp.isSendable, controlQuery, Uds.communicationControl, hlength, IsoTp.longestMessage]
  have hframe : IsoTp.Settings.startFrame {} o.bus o.target o.request =
      IsoTp.Settings.startFrame {} e.bus e.target r.toBytes := by
    rw [h.bus, h.target, hrequest]
  have hsilenced := hhosts.silenced {} h.heeds h.obeys hsilences
  rw [← hframe, List.nil_append] at hsilenced
  obtain ⟨-, hsame, hlatency, hsent⟩ :=
    hhosts.sends (IsoTp.Settings.startFrame {} o.bus o.target o.request)
  refine (hhosts.engine_starts rfl rfl hsendable rfl hclock rounds).mono ?_
  rintro result after ⟨hanswered, hafter⟩
  have hafter : after = (Network.send [IsoTp.Settings.startFrame {} o.bus o.target o.request]
    n).world := hafter
  rw [← hafter] at hsilenced hsame hlatency hsent
  rw [← hsame] at hsilenced hlater
  refine ⟨hanswered, ⟨periodic, hsilenced, hlater⟩, hlatency.trans hentered.latency, ?_, ?_⟩
  · rw [hsent, hentered.sent, hsame]
    simp
  · rw [hsame]
    exact hentered.intime

theorem longestWait_le (timeout : Span) :
    (IsoTp.Settings.longestWait {} timeout).nanos ≤
      timeout.nanos + (IsoTp.Settings.longestWait {} .zero).nanos := by
  rw [IsoTp.Settings.longestWait, IsoTp.Settings.longestWait, Span.nanos_max, Span.nanos_max]
  omega

theorem le_longestWait (timeout : Span) :
    timeout.nanos ≤ (IsoTp.Settings.longestWait {} timeout).nanos ∧
      (IsoTp.Settings.longestWait {} .zero).nanos ≤
        (IsoTp.Settings.longestWait {} timeout).nanos := by
  simp only [IsoTp.Settings.longestWait, Span.nanos_max]
  exact ⟨Nat.le_max_left .., Nat.max_le.mpr ⟨Nat.zero_le _, Nat.le_max_right ..⟩⟩

/-- An attempt at a unit that obeys comes to what its last phase comes to, which begins when
communication control was sent. -/
theorem attempt_comes (h : Attentive o e) (hhosts : Hosts e periodic [] before)
    (ho : Effective o r before.latency)
    (hclock : before.clock + o.timeout.nanos + (IsoTp.Settings.longestWait {} .zero).nanos ≤
      Instant.latest) (hrounds : o.timeout.nanos < rounds)
    {Q : Except DiagnosticError Silencing → Network → Prop}
    (hawait : ∀ n, Silenced o e r before n →
      Meets False (· = n) (awaitSilence Network.link rounds o) Q) :
    Meets False (· = before)
      (attempt (IsoTp.engine {} Network.link rounds) Network.link rounds o) Q := by
  have hlongest := longestWait_le o.timeout
  have hrange : before.clock + (IsoTp.Settings.longestWait {} o.timeout).nanos ≤
      Instant.latest := by
    simp only [Instant] at *
    omega
  refine attempt_parts (enterSession_meets h hhosts ho.running ho.patient hrange hrounds)
    (Meets.of_forall fun entered hentered => ?_) (Meets.of_forall hawait)
  have hintime := hentered.intime
  refine control_meets h hentered ho.request ho.silences ?_ rounds
  simp only [Instant] at *
  omega

/-- An attempt whose session query brings no response fails with it. -/
theorem attempt_refused {σ : Type} {engine : Engine σ} {link : Link σ} {cutOff : Prop}
    {P R : σ → Prop} (h : Meets cutOff P (engine (sessionQuery o)) fun result w =>
      (∀ answers response, result = .ok answers → answers.get? o.target ≠ some (.ok response)) ∧
        R w) :
    Meets cutOff P (attempt engine link rounds o)
      fun result w => (∃ reason, result = .error reason) ∧ R w := by
  have hsession : Meets cutOff P (enterSession engine o)
      fun result w => (∃ reason, result = .error reason) ∧ R w := by
    refine Meets.bind h (fun reason w hw => ⟨⟨reason, rfl⟩, hw.2⟩) fun answers => ?_
    rintro w ⟨hnone, hw⟩
    cases hanswer : answers.get? o.target with
    | none => exact ⟨⟨_, rfl⟩, hw⟩
    | some answer =>
        cases answer with
        | error reason => exact ⟨⟨reason, rfl⟩, hw⟩
        | ok response => exact absurd hanswer (hnone answers response rfl)
  refine Meets.bind hsession (fun reason w hw => ⟨⟨reason, rfl⟩, hw.2⟩) fun _ => ?_
  rintro w ⟨⟨reason, hfailed⟩, -⟩
  cases hfailed

/-- The watch over a unit that has been silenced confirms it. -/
theorem awaitSilence_meets (hsilenced : Silenced o e r before n)
    (hrunning : 0 < before.latency.nanos) (ho : Thorough o r before.latency e.silenceDelay)
    (hrounds : o.watchTimeout.nanos < rounds) :
    Meets False (· = n) (awaitSilence Network.link rounds o)
      fun result after => result = .ok .confirmed ∧
        Silence.Settles o.silence n (n.clock + e.silenceDelay.nanos) (.ok true) after := by
  obtain ⟨periodic, hhosts, hlater⟩ := hsilenced.hosts
  rw [Ecu.confirmation, if_pos ho.suppressed] at hhosts
  obtain ⟨addresses, hwatched⟩ := Option.isSome_iff_exists.mp ho.watched
  have hfades : ∀ x, n.Emits x → x.2.bus = o.bus → x.2.address ∈ addresses →
      n.clock < x.1 ∧ x.1 < n.clock + e.silenceDelay.nanos := by
    rintro x hx - -
    obtain hnone | ⟨p, hp, hdue, -, hloud⟩ := hhosts.emits hx
    · exact absurd hnone List.not_mem_nil
    · exact ⟨Nat.lt_of_lt_of_le (hlater p hp) hdue.due_le, of_decide_eq_true hloud⟩
  have hroom : Silence.verdictBy o.silence n.latency (n.clock + e.silenceDelay.nanos) ≤
      n.clock + o.watchTimeout.nanos := by
    have hroom := ho.room
    rw [Silence.verdictBy, hsilenced.latency]
    simp only [Instant]
    omega
  rw [← hsilenced.latency] at hrunning
  have hwatch := Silence.watch_fades hrunning (Nat.le_add_right ..) hfades hroom hrounds
  refine awaitSilence_parts (fun hnone => ?_) fun addresses' hsome => ?_
  · cases hnone.symm.trans hwatched
  · obtain rfl := Option.some.inj (hsome.symm.trans hwatched)
    refine hwatch.mono ?_
    rintro verdict after hsettles
    obtain rfl := hsettles.confirmed
    exact ⟨rfl, hsettles⟩

/-- What an attempt comes to: the unit was silenced at some time, and its silence was confirmed in
time. -/
def Quieted (o : Options) (e : Ecu) (before n : Network) : Prop :=
  ∃ sentAt, n.sent.toList = before.sent.toList ++
      [(before.clock, IsoTp.Settings.startFrame {} o.bus o.target Uds.extendedSession.request),
        (sentAt, IsoTp.Settings.startFrame {} o.bus o.target o.request)] ∧
    sentAt + o.silence.quiet.nanos ≤ n.clock ∧
    n.clock ≤ sentAt + (e.silenceDelay.nanos + o.silence.quiet.nanos +
      2 * (o.silence.poll.nanos + before.latency.nanos))

/-- An attempt at such a unit silences it, and its watch says so. -/
theorem attempt_confirms (h : Obliging o e) (halone : Alone before e)
    (hrunning : 0 < before.latency.nanos) (ho : Thorough o r before.latency e.silenceDelay)
    (hclock : before.clock + o.timeout.nanos + (IsoTp.Settings.longestWait {} .zero).nanos ≤
      Instant.latest)
    (hsession : o.timeout.nanos < rounds) (hwatch : o.watchTimeout.nanos < rounds) :
    Meets False (· = before) (attempt (IsoTp.engine {} Network.link rounds) Network.link rounds o)
      fun result n => result = .ok .confirmed ∧ Quieted o e before n := by
  have hhosts := Hosts.of_alone halone
  rw [h.idle] at hhosts
  have heffective : Effective o r before.latency := ⟨hrunning, ho.patient, ho.request, ho.silences⟩
  refine attempt_comes h.attentive hhosts heffective hclock hsession fun controlled hsilenced => ?_
  refine (awaitSilence_meets hsilenced hrunning ho hwatch).mono ?_
  rintro result after ⟨rfl, hsettles⟩
  have hover := hsettles.intime
  refine ⟨rfl, controlled.clock, ?_, hsettles.quiet, ?_⟩
  · rw [hsettles.sent, hsilenced.sent]
  · rw [Silence.verdictBy, hsilenced.latency] at hover
    simp only [Instant] at *
    omega

/-- A disabling of which the first attempt succeeds is over with it. -/
theorem run_of_attempt {σ : Type} {link : Link σ} {w after : Logged σ} {silencing : Silencing}
    (hvalid : o.validate = .ok ()) (hretry : 1 ≤ o.retry)
    (hattempt : attempt (IsoTp.engine {} link rounds) link rounds o (w.note (.disabling o.target)) =
      some (.ok silencing, after)) :
    runOverFrames link rounds o w = some (⟨true, 1, silencing⟩, after) := by
  obtain ⟨left, hleft⟩ : ∃ left, o.retry.toNat = left + 1 :=
    Nat.exists_eq_add_one.mpr (UInt32.le_iff_toNat_le.mp hretry)
  rw [runOverFrames, run, hvalid]
  dsimp only
  rw [hleft, attempts, hattempt]

/-- A unit that knows the extended session and obeys communication control is disabled with the
first attempt, whatever it transmits on other addresses than that of its responses, and its silence
is confirmed: not before the quiet span has passed since communication control was sent, and not
later than the delay of the unit, the quiet span and two pauses and readings after it. The clock has
to be able to show the ends of both queries. -/
theorem confirmed_in_time {r : Uds.ControlRequest} {w : Logged Network} {rounds : Nat}
    (hunit : Obliging o e) (halone : Alone w.world e)
    (hrunning : 0 < w.world.latency.nanos)
    (hoptions : Thorough o r w.world.latency e.silenceDelay) (hretry : 1 ≤ o.retry)
    (hvalid : o.validate = .ok ())
    (hclock : w.world.clock + o.timeout.nanos + (IsoTp.Settings.longestWait {} .zero).nanos ≤
      Instant.latest)
    (hrounds : o.timeout.nanos < rounds ∧ o.watchTimeout.nanos < rounds) :
    ∃ after sentAt,
      runOverFrames Network.link rounds o w = some (⟨true, 1, .confirmed⟩, after) ∧
      after.world.sent.toList = w.world.sent.toList ++
        [(w.world.clock, IsoTp.Settings.startFrame {} o.bus o.target Uds.extendedSession.request),
          (sentAt, IsoTp.Settings.startFrame {} o.bus o.target o.request)] ∧
      sentAt + o.silence.quiet.nanos ≤ after.world.clock ∧
      after.world.clock ≤ sentAt + (e.silenceDelay.nanos + o.silence.quiet.nanos +
        2 * (o.silence.poll.nanos + w.world.latency.nanos)) := by
  obtain ⟨result, after, hattempt, rfl, hconfirmed⟩ :=
    (attempt_confirms hunit halone hrunning hoptions hclock hrounds.1 hrounds.2).exists_end
      (w := w.note (.disabling o.target)) rfl
  obtain ⟨sentAt, hsent, hquiet, hintime⟩ := hconfirmed
  exact ⟨after, sentAt, run_of_attempt hvalid hretry hattempt, hsent, hquiet, hintime⟩

/-- A unit that goes on for 200 ms after it was silenced. -/
def lingering : Ecu :=
  { Ecu.diagnostic 0 0x7D0 with
    silenceDelay := .ofMillis 200
    periodic := [{ address := 0x7D0, period := .ofMillis 20, data := [0], positive := by decide }] }

/-- The default options, with the address of the unit's periodic frames to watch. -/
def watchful : Options where
  watched := some (.ofList [0x7D0])

/-- With these options the unit is confirmed between 300 ms and 560 ms after the request. -/
theorem confirmed_in_time_lingering :
    ∃ after sentAt,
      runOverFrames Network.link 1500000001 watchful { world := { ecus := [lingering] } } =
        some (⟨true, 1, .confirmed⟩, after) ∧
      after.world.sent.toList =
        [(0, IsoTp.Settings.startFrame {} 0 default [0x10, 0x03]),
          (sentAt, IsoTp.Settings.startFrame {} 0 default [0x28, 0x83, 0x01])] ∧
      sentAt + 300000000 ≤ after.world.clock ∧ after.world.clock ≤ sentAt + 560000000 := by
  have hunit : Obliging watchful lingering := .diagnostic watchful _ (by decide)
  have halone : Alone { ecus := [lingering] } lingering := ⟨rfl, rfl, rfl⟩
  have hoptions : Thorough watchful {} (.ofMillis 10) lingering.silenceDelay :=
    ⟨rfl, rfl, rfl, rfl, by decide, by decide⟩
  have hrounds : watchful.timeout.nanos < 1500000001 ∧
      watchful.watchTimeout.nanos < 1500000001 := by decide
  obtain ⟨after, sentAt, hrun, hsent, hquiet, hintime⟩ :=
    confirmed_in_time (w := { world := { ecus := [lingering] } }) hunit halone (by decide) hoptions
      (by decide) rfl (by decide) hrounds
  exact ⟨after, sentAt, hrun, hsent, hquiet, hintime⟩

end EcuQuiet.Disabling
