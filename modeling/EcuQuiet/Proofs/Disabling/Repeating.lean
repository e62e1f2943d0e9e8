import EcuQuiet.Proofs.Disabling.Confirming
import EcuQuiet.Proofs.Disabling.Duration
import EcuQuiet.Proofs.Disabling.Validity
import EcuQuiet.Proofs.Silence.Calm

/-!
# Disabling a silent unit again

A disabling keeps no state, but the bus does. No one waits for the confirmation of communication
control, and if it is still on the bus when the next disabling begins, that one takes it for the
response to its session request and loses an attempt. So a disabling can be repeated with the same
outcome exactly if the unit confirms nothing, or if a watch goes on until the confirmation has come.
-/

namespace EcuQuiet.Disabling

open Run Simulation

/-- Whether a disabling watches a silent unit until it has reacted to the last request. -/
def Drains (o : Options) (latency : Span) : Prop :=
  o.watchedAddresses.isSome ∧ ∀ i, Silence.readingEnd o.silence latency i < Ecu.reaction.nanos →
    ¬Silence.EndsWith o.silence latency o.watchTimeout i

/-- How the last phase of a disabling ends at a unit that is silent. -/
inductive Closes (o : Options) (latency : Span) : Silencing → Prop
  | left (hunwatched : o.watchedAddresses = none) :
      Closes o latency (.left (o.delay.getD defaultDelay))
  | watched {i : Nat} (hwatched : o.watchedAddresses.isSome)
      (hlast : Silence.IsLast o.silence latency o.watchTimeout i) :
      Closes o latency
        (.watched (decide (o.silence.quiet.nanos ≤ Silence.readingEnd o.silence latency i)))

variable {o : Options} {e : Ecu} {r : Uds.ControlRequest} {latency : Span} {before n : Network}
  {pending : List Timed} {t : Instant} {rounds : Nat}

theorem Closes.unique {a b : Silencing} (ha : Closes o latency a) (hb : Closes o latency b) :
    a = b := by
  cases ha with
  | left hunwatched =>
      cases hb with
      | left => rfl
      | watched hwatched => rw [hunwatched] at hwatched; cases hwatched
  | watched hwatched hlast =>
      cases hb with
      | left hunwatched => rw [hunwatched] at hwatched; cases hwatched
      | watched _ hlast' => rw [hlast.unique hlast']

/-- A network whose only unit obeys a disabling at once, and what that unit has left to say. -/
structure Facing (o : Options) (pending : List Timed) (n : Network) : Prop where
  unit : ∃ e periodic, Attentive o e ∧ e.silenceDelay = .zero ∧ Hosts e periodic pending n

theorem Facing.of_alone (h : Alone n e) (hunit : Attentive o e) (hprompt : e.silenceDelay = .zero) :
    Facing o e.outbox n :=
  ⟨e, e.periodic, hunit, hprompt, .of_alone h⟩

/-- A unit that is not going to emit anything has nothing left to say. -/
theorem Facing.of_mute (hunit : Willing o e) (hprompt : e.silenceDelay = .zero) (h : Alone n e)
    (hmute : ∀ x, ¬n.Emits x) : Facing o [] n := by
  have hdiscreet : e.Discreet := fun p hp t hdue hloud =>
    absurd (h.emits.mpr (.inr ⟨p, hp, hdue, hloud, rfl⟩)) (hmute (t, _))
  have hidle : e.outbox = [] :=
    List.eq_nil_iff_forall_not_mem.mpr fun x hx => hmute x (h.emits.mpr (.inl hx))
  exact hidle ▸ .of_alone h ⟨hunit, hdiscreet⟩ hprompt

/-- What the unit says to confirm a communication control request that it took at `t`. -/
def confirmation (o : Options) (r : Uds.ControlRequest) (t : Instant) : List Timed :=
  if r.suppressed then []
  else [(t + Ecu.reaction.nanos, answer o.bus o.target (IsoTp.Sender.start (IsoTp.capacity o.target)
    [Uds.Service.communicationControl.response, r.control.byte]).1)]

/-- What a disabling comes to that began when the unit had nothing left to say. -/
structure Done (o : Options) (r : Uds.ControlRequest) (latency : Span) (silencing : Silencing)
    (n : Network) : Prop where
  closes : Closes o latency silencing
  same : n.latency = latency
  left : ∃ t pending, t ≤ n.clock ∧ Facing o pending n ∧ (Drains o latency → pending = []) ∧
    (¬Drains o latency → pending = confirmation o r t)

/-- What a unit has left to say when some time has passed since it took the request. -/
theorem confirmation_filter (o : Options) (r : Uds.ControlRequest) (t : Instant) (passed : Nat) :
    (confirmation o r t).filter (fun x => !decide (x.1 ≤ t + passed)) =
      if Ecu.reaction.nanos ≤ passed then [] else confirmation o r t := by
  rw [confirmation]
  by_cases hsuppressed : r.suppressed
  · simp [hsuppressed]
  · by_cases hpassed : Ecu.reaction.nanos ≤ passed <;> simp [hsuppressed, hpassed]

theorem address_of_mem_confirmation {x : Timed} (h : x ∈ confirmation o r t) :
    x.2.address = IsoTp.responseAddress o.target.address 0x08 := by
  rw [confirmation] at h
  split at h
  · cases h
  · rw [List.mem_singleton.mp h]
    rfl

/-- A unit that was silenced has nothing more to say than its confirmation. -/
theorem Silenced.facing (hsilenced : Silenced o e r before n) (hunit : Attentive o e)
    (hprompt : e.silenceDelay = .zero) :
    Facing o (confirmation o r n.clock) n ∧
      ∀ x, n.Emits x → x.2.address = IsoTp.responseAddress o.target.address 0x08 := by
  obtain ⟨periodic, hhosts, hlater⟩ := hsilenced.hosts
  have hconfirmation : e.confirmation n.clock r = confirmation o r n.clock := by
    rw [Ecu.confirmation, hunit.bus, hunit.target]
    rfl
  rw [hconfirmation, hprompt] at hhosts
  -- its periodic frames are due after it was silenced
  have hmute : ∀ p ∈ periodic, ∀ t, p.DueAt t → ¬t < n.clock + Span.zero.nanos := fun p hp t hdue =>
    Nat.not_lt.mpr (Nat.le_trans (Nat.le_of_lt (hlater p hp)) hdue.due_le)
  refine ⟨?_, fun x hx => ?_⟩
  · obtain ⟨requests, halone⟩ := hhosts.unit
    refine .of_alone halone ?_ rfl
    exact ⟨⟨hunit.bus, hunit.target, hunit.heeds, hunit.obeys, hunit.knows⟩,
      fun p hp t hdue hloud => absurd (of_decide_eq_true hloud) (hmute p hp t hdue)⟩
  · obtain hx | ⟨p, hp, hdue, -, hloud⟩ := hhosts.emits hx
    · exact address_of_mem_confirmation hx
    · exact absurd (of_decide_eq_true hloud) (hmute p hp x.1 hdue)

/-- The watch over a silent unit drains the bus if it goes on until the unit has reacted. -/
theorem done_of_watch (hfacing : Facing o (confirmation o r n.clock) n)
    (hwatched : o.watchedAddresses.isSome) {verdict : Except DiagnosticError Bool} {after : Network}
    (hcalmed : Silence.Calmed o.silence o.watchTimeout n verdict after) :
    ∃ silencing, verdict.map Silencing.watched = .ok silencing ∧
      Done o r n.latency silencing after := by
  obtain ⟨e, periodic, hunit, hprompt, hhosts⟩ := hfacing.unit
  have hleft : ∀ {i}, Silence.IsLast o.silence n.latency o.watchTimeout i →
      ∃ pending, Facing o pending (Silence.polled o.silence n i).receive.world ∧
        (Drains o n.latency → pending = []) ∧
        (¬Drains o n.latency → pending = confirmation o r n.clock) := by
    intro i hlast
    obtain ⟨periodic', hhosts'⟩ := Silence.hosts_polled hhosts o.silence i
    rw [confirmation_filter] at hhosts'
    have hdrains : Drains o n.latency ↔
        Ecu.reaction.nanos ≤ Silence.readingEnd o.silence n.latency i :=
      (and_iff_right hwatched).trans hlast.le_readingEnd_iff.symm
    refine ⟨_, ⟨e, periodic', hunit, hprompt, hhosts'⟩, fun h => ?_, fun h => ?_⟩
    · exact if_pos (hdrains.mp h)
    · exact if_neg (mt hdrains.mpr h)
  cases hcalmed with
  | @quiet i hlast hquiet =>
      obtain ⟨pending, hafter, hdrained, hfull⟩ := hleft hlast
      have hcloses := Closes.watched hwatched hlast
      rw [decide_eq_true hquiet] at hcloses
      refine ⟨_, rfl, hcloses, ?_, n.clock, pending, ?_, hafter, hdrained, hfull⟩
      · exact Silence.polled_latency o.silence n i
      · rw [Silence.polled_receive_clock]
        exact Nat.le_add_right ..
  | @expired i hlast hloud =>
      obtain ⟨pending, ⟨e, periodic, hunit, hprompt, hhosts⟩, hdrained, hfull⟩ := hleft hlast
      have hcloses := Closes.watched hwatched hlast
      rw [decide_eq_false (Nat.not_le.mpr hloud)] at hcloses
      refine ⟨_, rfl, hcloses, ?_, n.clock, pending, ?_,
        ⟨e, periodic, hunit, hprompt, hhosts.advance _⟩, hdrained, hfull⟩
      · exact Silence.polled_latency o.silence n (i + 1)
      · rw [Silence.polled_clock]
        exact Nat.le_add_right ..

/-- A disabling that tells apart what it watches for and what its unit responds. -/
def Unheard (o : Options) : Prop :=
  ∀ addresses, o.watchedAddresses = some addresses →
    IsoTp.responseAddress o.target.address 0x08 ∉ addresses

/-- An attempt at a unit that has nothing left to say succeeds. -/
theorem attempt_done (ho : Effective o r before.latency) (hvalid : o.validate = .ok ())
    (hunheard : Unheard o) (hfacing : Facing o [] before)
    (hclock : before.clock + o.timeout.nanos + (IsoTp.Settings.longestWait {} .zero).nanos ≤
      Instant.latest)
    (hsession : o.timeout.nanos < rounds) (hwatch : o.watchTimeout.nanos < rounds) :
    Meets False (· = before) (attempt (IsoTp.engine {} Network.link rounds) Network.link rounds o)
      fun result n => ∃ silencing, result = .ok silencing ∧
        Done o r before.latency silencing n := by
  obtain ⟨e, periodic, hunit, hprompt, hhosts⟩ := hfacing.unit
  refine attempt_comes hunit hhosts ho hclock hsession fun controlled hsilenced => ?_
  obtain ⟨hfacing, hmute⟩ := hsilenced.facing hunit hprompt
  rw [← hsilenced.latency]
  refine awaitSilence_parts (fun hunwatched => ?_) fun addresses hwatched => ?_
  · rintro controlled rfl
    obtain ⟨e, periodic, hunit, hprompt, hhosts⟩ := hfacing.unit
    have hundrained : ¬Drains o controlled.latency := by
      rintro ⟨hwatched, -⟩
      rw [hunwatched] at hwatched
      cases hwatched
    exact ⟨_, rfl, .left hunwatched, rfl, controlled.clock, _, Nat.le_add_right ..,
      ⟨e, periodic, hunit, hprompt, hhosts.advance _⟩, fun h => absurd h hundrained, fun _ => rfl⟩
  · have hopens := (Options.validate_iff.mp hvalid).2.2 (hwatched ▸ rfl)
    have hrunning : 0 < controlled.latency.nanos := by
      rw [hsilenced.latency]
      exact ho.running
    refine (Silence.watch_calm hopens hrunning (fun x hx hwatches => ?_) hwatch).mono
      fun verdict after hcalmed => done_of_watch hfacing (hwatched ▸ rfl) hcalmed
    exact hunheard addresses hwatched (hmute x hx ▸ hwatches.2)

/-- A confirmation that is still on the bus is taken for the response to the session request, and
the attempt fails. -/
theorem attempt_misled (ho : Effective o r n.latency) (hconfirms : r.suppressed = false)
    (hfacing : Facing o (confirmation o r t) n) (ht : t ≤ n.clock)
    (hclock : n.clock + (IsoTp.Settings.longestWait {} o.timeout).nanos ≤ Instant.latest)
    (hrounds : o.timeout.nanos < rounds) :
    Meets False (· = n) (attempt (IsoTp.engine {} Network.link rounds) Network.link rounds o)
      fun result _ => ∃ reason, result = .error reason := by
  obtain ⟨e, periodic, hunit, -, hhosts⟩ := hfacing.unit
  have hbrief := hunit.brief (n := n) ho.running ho.patient
  have hconfirmation : confirmation o r t = [(t + Ecu.reaction.nanos, answer o.bus o.target
      (IsoTp.Sender.start (IsoTp.capacity o.target)
        [Uds.Service.communicationControl.response, r.control.byte]).1)] := by
    rw [confirmation, hconfirms]
    rfl
  rw [hconfirmation] at hhosts
  have hasked := hhosts.asked {} (hbrief.target ▸ hbrief.request_short)
    (hbrief.target ▸ hbrief.response_short) hbrief.heeds hbrief.uncontrolled hbrief.known
  rw [hbrief.bus, hbrief.target] at hasked
  have hwrong : (sessionDialogue o n).Concludes (answer o.bus o.target
      (IsoTp.Sender.start (IsoTp.capacity o.target)
        [Uds.Service.communicationControl.response, r.control.byte]).1) (.error .wrongMessage) := by
    refine Dialogue.concludes_wrong (by simp) hbrief.response_short ?_ fun hprefix => ?_
    · rw [List.head?_cons]
      decide
    · obtain ⟨hsame, -⟩ := List.cons_prefix_cons.mp hprefix
      exact absurd hsame (by decide)
  have hholds : (sessionDialogue o n).Holds n.clock
      ([(t + Ecu.reaction.nanos, answer o.bus o.target (IsoTp.Sender.start
          (IsoTp.capacity o.target)
          [Uds.Service.communicationControl.response, r.control.byte]).1)] ++
        [(n.clock + Ecu.reaction.nanos, answer o.bus o.target (IsoTp.Sender.start
          (IsoTp.capacity o.target) Uds.extendedSession.expected).1)])
      (some (.error .wrongMessage)) :=
    ⟨List.pairwise_pair.mpr (Nat.add_le_add_right ht _),
      List.forall_mem_cons.mpr ⟨⟨rfl, rfl⟩, List.forall_mem_singleton.mpr ⟨rfl, rfl⟩⟩,
      .some ⟨Nat.add_le_add_right ht _, hwrong⟩⟩
  have hsession := Dialogue.engine_short hbrief.toShort hhosts rfl
    (Instant.after?_eq_some_iff.mpr ⟨rfl, hclock⟩) hasked hholds hrounds
  refine (attempt_refused (R := fun _ => True) (hsession.mono ?_)).mono fun _ _ h => h.1
  rintro result after ⟨⟨answers, rfl, hanswer⟩, -⟩
  refine ⟨fun answers' response hok hget => ?_, trivial⟩
  obtain rfl := Except.ok.inj hok
  cases hanswer.symm.trans hget

/-- A series of attempts that succeeds has made another one. -/
theorem made_lt_attempts {σ : Type} {attempt : Run σ Silencing} {target : Target} {left made : Nat}
    {w after : Logged σ} {outcome : Outcome}
    (hrun : attempts attempt target left made w = some (outcome, after))
    (hdisabled : outcome.disabled = true) : made < outcome.attempts := by
  induction left generalizing made w with
  | zero =>
      cases hrun
      cases hdisabled
  | succ left ih =>
      rw [attempts] at hrun
      cases hone : attempt w with
      | none => rw [hone] at hrun; cases hrun
      | some ended =>
          obtain ⟨result, middle⟩ := ended
          rw [hone] at hrun
          cases result with
          | ok silencing => cases hrun; exact Nat.lt_succ_self made
          | error reason => exact Nat.lt_of_succ_lt (ih hrun)

/-- The end of an attempt is far enough away for the ends of its queries. -/
theorem wait_le_attemptBound (o : Options) (latency : Span) :
    (IsoTp.Settings.longestWait {} o.timeout).nanos ≤ attemptBound o latency ∧
      o.timeout.nanos + (IsoTp.Settings.longestWait {} .zero).nanos ≤
        2 * attemptBound o latency := by
  have hbound : (IsoTp.Settings.longestWait {} o.timeout).nanos ≤ attemptBound o latency :=
    Nat.le_trans (Nat.le_add_right ..) (Nat.le_add_right ..)
  obtain ⟨htimeout, hzero⟩ := le_longestWait o.timeout
  refine ⟨hbound, ?_⟩
  rw [Nat.two_mul]
  exact Nat.add_le_add (Nat.le_trans htimeout hbound) (Nat.le_trans hzero hbound)

/-- A disabling at a unit that has nothing left to say succeeds with its first attempt. -/
theorem run_done {w : Logged Network} (ho : Effective o r w.world.latency)
    (hvalid : o.validate = .ok ()) (hretry : 1 ≤ o.retry) (hunheard : Unheard o)
    (hfacing : Facing o [] w.world)
    (hclock : w.world.clock + 2 * attemptBound o w.world.latency ≤ Instant.latest)
    (hsession : (IsoTp.Settings.longestWait {} o.timeout).nanos < rounds)
    (hwatch : o.watchTimeout.nanos < rounds) :
    ∃ silencing after,
      runOverFrames Network.link rounds o w = some (⟨true, 1, silencing⟩, after) ∧
        Done o r w.world.latency silencing after.world ∧
        after.world.clock ≤ w.world.clock + attemptBound o w.world.latency := by
  obtain ⟨-, hwait⟩ := wait_le_attemptBound o w.world.latency
  have hrange : w.world.clock + o.timeout.nanos + (IsoTp.Settings.longestWait {} .zero).nanos ≤
      Instant.latest := by
    simp only [Instant] at *
    omega
  have htimeout := Nat.lt_of_le_of_lt (le_longestWait o.timeout).1 hsession
  obtain ⟨result, after, hattempt, silencing, rfl, hdone⟩ :=
    (attempt_done ho hvalid hunheard hfacing hrange htimeout hwatch).exists_end
      (w := w.note (.disabling o.target)) rfl
  obtain ⟨result', after', hlasts, -, hend⟩ :=
    (attempt_lasts (o := o) (Network.link_punctual ho.running) hsession hwatch).exists_end
      (w := w.note (.disabling o.target)) rfl
  obtain ⟨-, rfl⟩ := Prod.mk.inj (Option.some.inj (hattempt.symm.trans hlasts))
  exact ⟨silencing, after, run_of_attempt hvalid hretry hattempt, hdone, hend⟩

/-- A disabling that meets a confirmation from before needs another attempt. -/
theorem run_misled {w : Logged Network} (ho : Effective o r w.world.latency)
    (hvalid : o.validate = .ok ()) (hretry : 1 ≤ o.retry) (hconfirms : r.suppressed = false)
    (hfacing : Facing o (confirmation o r t) w.world) (ht : t ≤ w.world.clock)
    (hclock : w.world.clock + attemptBound o w.world.latency ≤ Instant.latest)
    (hsession : (IsoTp.Settings.longestWait {} o.timeout).nanos < rounds)
    (hwatch : o.watchTimeout.nanos < rounds) :
    ∃ outcome after, runOverFrames Network.link rounds o w = some (outcome, after) ∧
      (outcome.disabled = true → 1 < outcome.attempts) := by
  obtain ⟨hwait, -⟩ := wait_le_attemptBound o w.world.latency
  have htimeout := Nat.lt_of_le_of_lt (le_longestWait o.timeout).1 hsession
  obtain ⟨result, middle, hattempt, reason, rfl⟩ :=
    (attempt_misled ho hconfirms hfacing ht (Nat.le_trans (Nat.add_le_add_left hwait _) hclock)
      htimeout).exists_end (w := w.note (.disabling o.target)) rfl
  obtain ⟨outcome, after, hrun, -⟩ := attempts_last
    (attempt_lasts (o := o) (Network.link_punctual ho.running) hsession hwatch) o.target
    o.retry.toNat 0 (w := w.note (.disabling o.target)) rfl
  refine ⟨outcome, after, ?_, fun hdisabled => ?_⟩
  · rw [runOverFrames, run, hvalid]
    exact hrun
  · obtain ⟨left, hleft⟩ : ∃ left, o.retry.toNat = left + 1 :=
      Nat.exists_eq_add_one.mpr (UInt32.le_iff_toNat_le.mp hretry)
    rw [hleft, attempts, hattempt] at hrun
    exact made_lt_attempts hrun hdisabled

/-- Two disablings in a row of a unit that obeys at once, that has nothing to say because it has
been silenced, and that is alone on its network: the second one has the outcome of the first exactly
if the unit is not asked for a confirmation, or if the first one watches until it has come. The
responses of the unit must not be watched themselves, and the clock has to be able to show the ends
of three attempts. -/
theorem same_again_iff {w : Logged Network} (hunit : Willing o e) (hprompt : e.silenceDelay = .zero)
    (halone : Alone w.world e) (hmute : ∀ x, ¬w.world.Emits x)
    (ho : Effective o r w.world.latency) (hunheard : Unheard o) (hvalid : o.validate = .ok ())
    (hretry : 1 ≤ o.retry)
    (hclock : w.world.clock + 3 * attemptBound o w.world.latency ≤ Instant.latest)
    (hrounds : (max o.timeout (.ofMillis 10000)).nanos < rounds ∧ o.watchTimeout.nanos < rounds) :
    ∃ first middle second after,
      runOverFrames Network.link rounds o w = some (first, middle) ∧
      runOverFrames Network.link rounds o middle = some (second, after) ∧
      (second = first ↔ r.suppressed = true ∨ Drains o w.world.latency) := by
  have hfacing := Facing.of_mute hunit hprompt halone hmute
  have hfirst : w.world.clock + 2 * attemptBound o w.world.latency ≤ Instant.latest := by
    simp only [Instant] at *
    omega
  obtain ⟨silencing, middle, hrun, hdone, hend⟩ :=
    run_done ho hvalid hretry hunheard hfacing hfirst hrounds.1 hrounds.2
  obtain ⟨t, pending, ht, hfacing', hdrained, hfull⟩ := hdone.left
  have hsame := hdone.same
  rw [← hsame] at ho
  have hsecond : middle.world.clock + 2 * attemptBound o middle.world.latency ≤ Instant.latest := by
    rw [hsame]
    simp only [Instant] at *
    omega
  by_cases hclean : r.suppressed = true ∨ Drains o w.world.latency
  · have hnothing : pending = [] := by
      by_cases hdrains : Drains o w.world.latency
      · exact hdrained hdrains
      · rw [hfull hdrains, confirmation, if_pos (hclean.resolve_right hdrains)]
    rw [hnothing] at hfacing'
    obtain ⟨silencing', after, hrun', hdone', -⟩ :=
      run_done ho hvalid hretry hunheard hfacing' hsecond hrounds.1 hrounds.2
    have hcloses := hdone'.closes
    rw [hsame] at hcloses
    rw [hdone.closes.unique hcloses] at hrun
    exact ⟨_, middle, _, after, hrun, hrun', iff_of_true rfl hclean⟩
  · obtain ⟨hconfirms, hundrained⟩ := not_or.mp hclean
    rw [hfull hundrained] at hfacing'
    have hrange : middle.world.clock + attemptBound o middle.world.latency ≤ Instant.latest :=
      Nat.le_trans (Nat.add_le_add_left (Nat.le_mul_of_pos_left _ Nat.two_pos) _) hsecond
    obtain ⟨second, after, hrun', hmore⟩ := run_misled ho hvalid hretry
      (Bool.eq_false_iff.mpr hconfirms) hfacing' ht hrange hrounds.1 hrounds.2
    refine ⟨_, middle, second, after, hrun, hrun', iff_of_false ?_ hclean⟩
    rintro rfl
    exact absurd (hmore rfl) (Nat.lt_irrefl 1)

/-- A unit that was silenced before it could transmit its periodic frame. -/
def hushed : Ecu :=
  { Ecu.diagnostic 0 0x7D0 with
    silencedAt := some 0
    periodic := [{ address := 0x7D0, period := .ofMillis 50, data := [0], positive := by decide }] }

/-- Options with a request that asks for a confirmation, and with which nothing is watched. -/
def unwatched : Options where
  request := [0x28, 0x03, 0x01]

/-- If the periodic frame is watched for as well, the confirmation is read meanwhile. -/
theorem same_again_watched :
    ∃ first middle after,
      runOverFrames Network.link 10000000001 { unwatched with watched := some (.ofList [0x7D0]) }
        { world := { ecus := [hushed] } } = some (first, middle) ∧
      runOverFrames Network.link 10000000001 { unwatched with watched := some (.ofList [0x7D0]) }
        middle = some (first, after) := by
  let o : Options := { unwatched with watched := some (.ofList [0x7D0]) }
  have halone : Alone { ecus := [hushed] } hushed := ⟨rfl, rfl, rfl⟩
  have hmute : ∀ x, ¬({ ecus := [hushed] } : Network).Emits x := by
    intro x hx
    obtain hx | ⟨p, -, -, hloud, -⟩ := halone.emits.mp hx
    · cases hx
    · exact absurd (of_decide_eq_true (show decide (x.1 < 0) = true from hloud))
        (Nat.not_lt_zero _)
  have ho : Effective o { suppressed := false } (.ofMillis 10) :=
    ⟨by decide, by decide, rfl, rfl⟩
  have hunheard : Unheard o := by
    rintro addresses hwatched
    obtain rfl := Option.some.inj hwatched
    decide
  have hdrains : Drains o (.ofMillis 10) := by
    refine ⟨rfl, fun i hearly => ?_⟩
    have hfirst : Ecu.reaction.nanos ≤ Silence.readingEnd o.silence (.ofMillis 10) 0 := by decide
    have hlate := Nat.le_trans hfirst (Silence.readingEnd_mono (Nat.zero_le i))
    exact absurd hlate (Nat.not_le.mpr hearly)
  have hrounds : (max o.timeout (.ofMillis 10000)).nanos < 10000000001 ∧
      o.watchTimeout.nanos < 10000000001 := by decide
  obtain ⟨first, middle, second, after, hrun, hrun', hsame⟩ := same_again_iff
    (w := { world := { ecus := [hushed] } }) (o := o) ⟨rfl, rfl, rfl, rfl, rfl⟩ rfl halone hmute ho
    hunheard rfl (by decide) (by decide) hrounds
  rw [hsame.mpr (.inr hdrains)] at hrun'
  exact ⟨first, middle, after, hrun, hrun'⟩

/-- If it is not, the second disabling loses an attempt to it. -/
theorem not_same_again :
    hushed.isSilenced 0 = true ∧
      ((runOverFrames Network.link 50 unwatched { world := { ecus := [hushed] } }).bind
        fun (first, middle) => (runOverFrames Network.link 50 unwatched middle).map
          fun (second, _) => (first, second)) =
      some (⟨true, 1, .left (.ofMillis 500)⟩, ⟨true, 2, .left (.ofMillis 500)⟩) := by
  decide +kernel

end EcuQuiet.Disabling
