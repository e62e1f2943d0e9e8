import EcuQuiet.Proofs.Silence.Verdicts

/-!
# A network that falls silent

If the watched frames of a network come to an end, a watch with enough time confirms the silence,
and soon. The last watched frame is held by the first reading after it became due, which ends at
most a pause and a reading later; the window counts its quiet span from there, and the reading that
finds it over ends at most another pause and another reading after it is.
-/

namespace EcuQuiet.Silence

open Run Simulation

/-- When a watch is over at the latest if no watched frame is due at `last` or later. -/
def verdictBy (settings : Settings) (latency : Span) (last : Instant) : Instant :=
  last + settings.quiet.nanos + 2 * (settings.poll.nanos + latency.nanos)

/-- What is known of a window on a network that falls silent: but for the last sighting it is still
the window that was opened, and that sighting is not long after the watched frames have ended. -/
structure Sighted (settings : Settings) (before : Network) (opened : Window) (last : Instant)
    (w : Window) (n : Network) : Prop where
  same : w = { opened with lastSeen := w.lastSeen }
  latency : n.latency = before.latency
  sent : n.sent = before.sent
  began : before.clock ≤ w.lastSeen
  past : w.lastSeen ≤ n.clock
  soon : w.lastSeen ≤ last + settings.poll.nanos + before.latency.nanos

/-- What a watch keeps between two readings: what is still to be received is due at most a pause
before the present, and the last reading was too early for a verdict. -/
structure Fading (settings : Settings) (before : Network) (opened : Window) (last : Instant)
    (left : Nat) (w : Window) (n : Network) : Prop
    extends Sighted settings before opened last w n where
  coming : ∀ x, n.Emits x → opened.Watches x.2 → n.clock ≤ x.1 + settings.poll.nanos ∧ x.1 < last
  early : n.clock ≤ w.lastSeen + settings.quiet.nanos + settings.poll.nanos
  left : before.clock + opened.timeout.nanos ≤ n.clock + left

/-- What holds right after a reading: what is still to be received is yet to become due, and the
watch is in time for its verdict. -/
structure Faded (settings : Settings) (before : Network) (opened : Window) (last : Instant)
    (left : Nat) (w : Window) (n : Network) : Prop
    extends Sighted settings before opened last w n where
  coming : ∀ x, n.Emits x → opened.Watches x.2 → n.clock < x.1 ∧ x.1 < last
  intime : n.clock ≤ verdictBy settings before.latency last
  left : before.clock + opened.timeout.nanos ≤ n.clock + left

/-- What the watch comes to. -/
structure Settles (settings : Settings) (before : Network) (last : Instant)
    (verdict : Except DiagnosticError Bool) (n : Network) : Prop where
  confirmed : verdict = .ok true
  sent : n.sent = before.sent
  quiet : before.clock + settings.quiet.nanos ≤ n.clock
  intime : n.clock ≤ verdictBy settings before.latency last

variable {settings : Settings} {before n : Network} {opened w : Window} {last : Instant}
  {left : Nat}

/-- A watch that has enough time does not run out of it. -/
theorem Fading.open (h : Fading settings before opened last left w n)
    (hrunning : 0 < before.latency.nanos)
    (hroom : verdictBy settings before.latency last ≤ before.clock + opened.timeout.nanos) :
    n.clock < before.clock + opened.timeout.nanos := by
  have hearly := h.early
  have hsoon := h.soon
  simp only [verdictBy, Instant] at *
  omega

/-- A reading sees a watched frame, which is not older than the last reading, or is the first one
in some time that does not. -/
theorem Fading.receive (h : Fading settings before opened last left w n)
    (hrunning : 0 < before.latency.nanos) {batch : List Frame}
    (hbatch : n.receive.result = .ok batch) :
    Faded settings before opened last (left - 1) (w.observe batch n.receive.world.clock)
      n.receive.world := by
  obtain ⟨⟨hsame, hlatency, hsent, hbegan, hpast, hsoon⟩, hcoming, hearly, hleft⟩ := h
  have hclock : n.receive.world.clock = n.clock + before.latency.nanos := by
    rw [← hlatency]
    rfl
  have hlater : ∀ x, n.receive.world.Emits x → opened.Watches x.2 →
      n.receive.world.clock < x.1 ∧ x.1 < last := by
    intro x hx hwatched
    obtain ⟨hdue, hemits⟩ := Network.receive_emits.mp hx
    exact ⟨hdue, (hcoming x hemits hwatched).2⟩
  have hleft' : before.clock + opened.timeout.nanos ≤ n.receive.world.clock + (left - 1) := by
    simp only [Instant] at *
    omega
  rw [Window.observe]
  split
  next hsees =>
    -- the frame that was seen is at most a pause and a reading old
    obtain ⟨f, hf, hwatched⟩ := Window.sees_iff.mp hsees
    obtain ⟨t, hdue, hemits⟩ := (Network.mem_batch_iff hbatch).mp hf
    have hwatched : opened.Watches f := by
      rw [hsame] at hwatched
      exact hwatched
    obtain ⟨hrecent, hlast⟩ := hcoming (t, f) hemits hwatched
    have hseen : n.receive.world.clock ≤ last + settings.poll.nanos + before.latency.nanos := by
      simp only [Instant] at *
      omega
    refine ⟨⟨by rw [hsame], hlatency, hsent, ?_, Nat.le_refl _, hseen⟩, hlater, ?_, hleft'⟩ <;>
      simp only [verdictBy, Instant] at * <;> omega
  next =>
    refine ⟨⟨hsame, hlatency, hsent, hbegan, ?_, hsoon⟩, hlater, ?_, hleft'⟩ <;>
      simp only [verdictBy, Instant] at * <;> omega

/-- A window that is quiet has its verdict. -/
theorem Faded.settles (h : Faded settings before opened last left w n)
    (hquiet : opened.quiet = settings.quiet) (hverdict : w.isQuiet n.clock = true) :
    Settles settings before last (.ok true) n := by
  have hspan : w.quiet.nanos ≤ n.clock - w.lastSeen := of_decide_eq_true hverdict
  rw [h.same] at hspan
  have hbegan := h.began
  have hpast := h.past
  refine ⟨rfl, h.sent, ?_, h.intime⟩
  simp only [Instant, hquiet] at *
  omega

/-- A window that is not quiet is looked at again after a pause. -/
theorem Faded.sleep (h : Faded settings before opened last left w n)
    (hquiet : opened.quiet = settings.quiet) (hloud : w.isQuiet n.clock = false) :
    Fading settings before opened last left w (n.advance settings.poll) := by
  have hspan : n.clock - w.lastSeen < w.quiet.nanos := Nat.not_le.mp (of_decide_eq_false hloud)
  obtain ⟨⟨hsame, hlatency, hsent, hbegan, hpast, hsoon⟩, hcoming, hintime, hleft⟩ := h
  have hclock : (n.advance settings.poll).clock = n.clock + settings.poll.nanos := rfl
  rw [hsame] at hspan
  refine ⟨⟨hsame, hlatency, hsent, hbegan, ?_, hsoon⟩, fun x hx hwatched => ?_, ?_, ?_⟩
  · simp only [Instant] at *
    omega
  · obtain ⟨hdue, hlast⟩ := hcoming x hx hwatched
    refine ⟨?_, hlast⟩
    simp only [Instant] at *
    omega
  · simp only [Instant, hquiet] at *
    omega
  · simp only [Instant] at *
    omega

theorem look_fades (hquiet : opened.quiet = settings.quiet) (hopened : opened.opened = before.clock)
    (hrunning : 0 < before.latency.nanos)
    (hroom : verdictBy settings before.latency last ≤ before.clock + opened.timeout.nanos)
    (left : Nat) (w : Window) :
    Meets False (Fading settings before opened last left w)
      (look Network.link settings.poll w)
      (Continues (fun next n => ∃ less < left, Fading settings before opened last less next n)
        (Settles settings before last)) := by
  refine look_meets Network.link
    (R := fun now n => now = n.clock ∧ Fading settings before opened last left w n)
    (S := fun batch n => 0 < left ∧
      Faded settings before opened last (left - 1) (w.observe batch n.clock) n)
    (T := fun batch later n => later = n.clock ∧ 0 < left ∧
      Faded settings before opened last (left - 1) (w.observe batch later) n)
    (fun _ hn => ⟨rfl, hn⟩) ?expired (fun _ _ _ _ _ hfailed => by cases hfailed) ?received
    (fun _ _ hn => ⟨rfl, hn⟩) ?quiet ?paused
  case expired =>
    rintro now n ⟨rfl, hn⟩ hexpired
    have hover : w.timeout.nanos ≤ n.clock - w.opened := of_decide_eq_true hexpired
    have hopen := hn.open hrunning hroom
    have hbegan := Nat.le_trans hn.began hn.past
    rw [hn.same] at hover
    simp only [Instant, hopened] at *
    omega
  case received =>
    rintro now n batch ⟨rfl, hn⟩ - hbatch
    have hopen := hn.open hrunning hroom
    have hleft := hn.left
    refine ⟨?_, hn.receive hrunning hbatch⟩
    simp only [Instant] at *
    omega
  case quiet =>
    rintro batch later n ⟨rfl, -, hn⟩ hverdict
    exact hn.settles hquiet hverdict
  case paused =>
    rintro batch later n ⟨rfl, hpos, hn⟩ hloud
    exact ⟨left - 1, Nat.sub_one_lt (Nat.ne_of_gt hpos), hn.sleep hquiet hloud⟩

/-- A watch over a network whose watched frames come to an end confirms the silence, at least a
quiet span after it began and at most a quiet span and two pauses and readings after the end of the
frames, if its timeout leaves time for that. -/
theorem watch_fades {bus : UInt8} {addresses : AddressSet} {timeout : Span}
    (hrunning : 0 < before.latency.nanos) (hlast : before.clock ≤ last)
    (hfades : ∀ x, before.Emits x → x.2.bus = bus → x.2.address ∈ addresses →
      before.clock < x.1 ∧ x.1 < last)
    (hroom : verdictBy settings before.latency last ≤ before.clock + timeout.nanos) {rounds : Nat}
    (hrounds : timeout.nanos < rounds) :
    Meets False (· = before) (watch Network.link rounds bus addresses timeout settings)
      (Settles settings before last) := by
  refine watch_meets Network.link (R := fun now n => now = before.clock ∧ n = before)
    (by rintro n rfl; exact ⟨rfl, rfl⟩) ?refused ?loop
  case refused =>
    rintro hshort
    have hle : timeout.nanos ≤ settings.quiet.nanos := hshort
    simp only [verdictBy, Instant] at *
    omega
  case loop =>
    rintro - now w ⟨rfl, hw⟩
    have hlook := @look_fades settings before (.opening bus addresses timeout settings before.clock)
      last rfl rfl hrunning hroom
    refine Meets.loop_of_measure hlook hrounds _ w ?_
    rw [hw]
    refine ⟨⟨rfl, rfl, rfl, Nat.le_refl _, Nat.le_refl _, ?_⟩, fun x hx hwatched => ?_, ?_,
      Nat.le_refl _⟩
    · exact Nat.le_trans hlast (Nat.le_trans (Nat.le_add_right ..) (Nat.le_add_right ..))
    · obtain ⟨hlater, hend⟩ := hfades x hx hwatched.1 hwatched.2
      exact ⟨Nat.le_trans (Nat.le_of_lt hlater) (Nat.le_add_right ..), hend⟩
    · exact Nat.le_trans (Nat.le_add_right ..) (Nat.le_add_right ..)

end EcuQuiet.Silence
