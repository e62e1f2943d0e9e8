import EcuQuiet.Proofs.Silence.Verdicts
import EcuQuiet.Proofs.Simulation.Beside

/-!
# A watch on which nothing happens

If no watched frame ever comes, a watch reads the bus at fixed times, counted from its beginning,
and ends with the first reading at which the quiet span is over or after which no other reading
could begin. Its verdict and the time it takes then depend on its settings and on the network's
latency alone. What the units of the network have to say meanwhile is lost on it: it has been taken
off the bus if it was due when the last reading ended, and is still to come if not.
-/

namespace EcuQuiet.Silence

open Run Simulation

/-- How long after its beginning a watch ends its `i`-th reading, if it comes to it: every reading
but the first one follows a pause. -/
def readingEnd (settings : Settings) (latency : Span) (i : Nat) : Nat :=
  latency.nanos + i * (latency.nanos + settings.poll.nanos)

/-- Whether a watch that sees nothing has no other reading after the `i`-th one: the quiet span is
over by its end, or the timeout is after another pause. -/
def EndsWith (settings : Settings) (latency timeout : Span) (i : Nat) : Prop :=
  settings.quiet.nanos ≤ readingEnd settings latency i ∨
    timeout.nanos ≤ readingEnd settings latency i + settings.poll.nanos

/-- The last reading of a watch that sees nothing. -/
structure IsLast (settings : Settings) (latency timeout : Span) (i : Nat) : Prop where
  ends : EndsWith settings latency timeout i
  first : ∀ j < i, ¬EndsWith settings latency timeout j

variable {settings : Settings} {latency timeout : Span} {bus : UInt8} {addresses : AddressSet}
  {i j : Nat}

theorem IsLast.unique (h : IsLast settings latency timeout i)
    (h' : IsLast settings latency timeout j) : i = j := by
  obtain hlt | heq | hgt := Nat.lt_trichotomy i j
  · exact absurd h.ends (h'.first i hlt)
  · exact heq
  · exact absurd h'.ends (h.first j hgt)

theorem readingEnd_mono (h : i ≤ j) :
    readingEnd settings latency i ≤ readingEnd settings latency j :=
  Nat.add_le_add_left (Nat.mul_le_mul_right _ h) _

/-- A watch has a reading that ends at some time or later exactly if it does not end with an earlier
one. -/
theorem IsLast.le_readingEnd_iff (h : IsLast settings latency timeout i) {t : Nat} :
    t ≤ readingEnd settings latency i ↔
      ∀ j, readingEnd settings latency j < t → ¬EndsWith settings latency timeout j := by
  constructor
  · intro hlate j hearly
    refine h.first j (Nat.lt_of_not_le fun hle => ?_)
    exact absurd (Nat.lt_of_le_of_lt (readingEnd_mono hle) hearly) (Nat.not_lt.mpr hlate)
  · intro hnone
    exact Nat.not_lt.mp fun hearly => hnone i hearly h.ends

/-! ### The network meanwhile -/

/-- The network after `i` readings, each with the pause that follows it. -/
def polled (settings : Settings) (n : Network) : Nat → Network
  | 0 => n
  | i + 1 => (polled settings n i).receive.world.advance settings.poll

variable {n : Network}

theorem polled_latency (settings : Settings) (n : Network) (i : Nat) :
    (polled settings n i).latency = n.latency := by
  induction i with
  | zero => rfl
  | succ i ih => exact ih

theorem polled_clock (settings : Settings) (n : Network) (i : Nat) :
    (polled settings n i).clock = n.clock + i * (n.latency.nanos + settings.poll.nanos) := by
  induction i with
  | zero => rw [Nat.zero_mul]; rfl
  | succ i ih =>
      have hnext : (polled settings n (i + 1)).clock = (polled settings n i).clock +
          (polled settings n i).latency.nanos + settings.poll.nanos := rfl
      rw [hnext, ih, polled_latency, Nat.succ_mul]
      simp only [Instant]
      omega

/-- The times at which the readings end. -/
theorem polled_receive_clock (settings : Settings) (n : Network) (i : Nat) :
    (polled settings n i).receive.world.clock = n.clock + readingEnd settings n.latency i := by
  have hclock : (polled settings n i).receive.world.clock =
      (polled settings n i).clock + (polled settings n i).latency.nanos := rfl
  rw [hclock, polled_latency, polled_clock, readingEnd]
  simp only [Instant]
  omega

/-- Readings and pauses add nothing to what is to come. -/
theorem emits_of_polled {x : Timed} (h : (polled settings n i).Emits x) : n.Emits x := by
  induction i with
  | zero => exact h
  | succ i ih => exact ih (Network.receive_emits.mp h).2

/-- After a reading, a unit has left to say what is due after its end. -/
theorem hosts_polled {e : Ecu} {periodic : List Periodic} {outbox : List Timed}
    (h : Hosts e periodic outbox n) (settings : Settings) (i : Nat) :
    ∃ periodic', Hosts e periodic'
      (outbox.filter fun x => !decide (x.1 ≤ n.clock + readingEnd settings n.latency i))
      (polled settings n i).receive.world := by
  have hread : ∀ i periodic' outbox', Hosts e periodic' outbox' (polled settings n i) →
      ∃ periodic'', Hosts e periodic''
        (outbox'.filter fun x => !decide (x.1 ≤ n.clock + readingEnd settings n.latency i))
        (polled settings n i).receive.world := by
    intro i periodic' outbox' hbefore
    rw [← polled_receive_clock settings n i]
    exact ⟨_, hbefore.receive⟩
  induction i with
  | zero => exact hread 0 periodic outbox h
  | succ i ih =>
      obtain ⟨periodic', ih⟩ := ih
      obtain ⟨periodic'', hafter⟩ := hread (i + 1) periodic' _ (ih.advance settings.poll)
      refine ⟨periodic'', ?_⟩
      rw [List.filter_filter] at hafter
      refine (List.filter_congr fun x _ => ?_) ▸ hafter
      -- what was not due at the earlier reading can still be due at the later one
      by_cases hdue : x.1 ≤ n.clock + readingEnd settings n.latency (i + 1)
      · rw [decide_eq_true hdue, Bool.not_true, Bool.false_and]
      · have hearly : ¬x.1 ≤ n.clock + readingEnd settings n.latency i := fun hle =>
          hdue (Nat.le_trans hle (Nat.add_le_add_left (readingEnd_mono (Nat.le_succ i)) _))
        rw [decide_eq_false hearly, Bool.not_false, Bool.and_true]

/-! ### The watch -/

/-- What a watch that sees nothing keeps between two readings. -/
structure Calm (settings : Settings) (before : Network) (opened : Window) (left : Nat)
    (w : Window) (n : Network) : Prop where
  same : w = opened
  stage : ∃ i, n = polled settings before i ∧
    (∀ j < i, readingEnd settings before.latency j < settings.quiet.nanos) ∧
    ∀ j, j + 1 < i →
      readingEnd settings before.latency j + settings.poll.nanos < opened.timeout.nanos
  left : before.clock + opened.timeout.nanos ≤ n.clock + left

/-- What a watch that sees nothing comes to: a positive verdict right after its last reading if the
quiet span is over by then, and a negative one after another pause if it is not. -/
inductive Calmed (settings : Settings) (timeout : Span) (before : Network) :
    Except DiagnosticError Bool → Network → Prop
  | quiet {i : Nat} (hlast : IsLast settings before.latency timeout i)
      (hquiet : settings.quiet.nanos ≤ readingEnd settings before.latency i) :
      Calmed settings timeout before (.ok true) (polled settings before i).receive.world
  | expired {i : Nat} (hlast : IsLast settings before.latency timeout i)
      (hloud : readingEnd settings before.latency i < settings.quiet.nanos) :
      Calmed settings timeout before (.ok false) (polled settings before (i + 1))

variable {before : Network} {opened : Window}

/-- A look that sees nothing. -/
theorem look_calm (hopened : opened = .opening bus addresses timeout settings before.clock)
    (hopens : settings.quiet < timeout) (hrunning : 0 < before.latency.nanos)
    (hcalm : ∀ x, before.Emits x → ¬opened.Watches x.2) (left : Nat) (w : Window) :
    Meets False (Calm settings before opened left w) (look Network.link settings.poll w)
      (Continues (fun next n => ∃ less < left, Calm settings before opened less next n)
        (Calmed settings timeout before)) := by
  refine Meets.of_forall ?_
  rintro _ ⟨rfl, ⟨i, rfl, hloud, hopen⟩, hleft⟩
  have hclock := polled_clock settings before i
  have hends := polled_receive_clock settings before i
  -- a reading that begins in time says so of the pause before it
  have hbegan : (polled settings before i).clock < before.clock + timeout.nanos → ∀ j < i,
      readingEnd settings before.latency j + settings.poll.nanos < timeout.nanos := by
    intro hintime j hj
    have hmono := Nat.mul_le_mul_right (before.latency.nanos + settings.poll.nanos) hj
    rw [hclock] at hintime
    rw [Nat.succ_mul] at hmono
    rw [readingEnd]
    simp only [Instant] at *
    omega
  refine look_meets Network.link
    (R := fun now n => now = n.clock ∧ n = polled settings before i)
    (S := fun batch n => (polled settings before i).clock < before.clock + timeout.nanos ∧
      (∀ f ∈ batch, ¬w.Watches f) ∧ n = (polled settings before i).receive.world)
    (T := fun batch later n => later = n.clock ∧
      (polled settings before i).clock < before.clock + timeout.nanos ∧
      (∀ f ∈ batch, ¬w.Watches f) ∧ n = (polled settings before i).receive.world)
    (fun _ hn => ⟨rfl, hn⟩) ?expired (fun _ _ _ _ _ hfailed => by cases hfailed) ?received
    (fun _ _ hn => ⟨rfl, hn⟩) ?quiet ?paused
  case expired =>
    rintro _ n ⟨rfl, rfl⟩ hexpired
    have hover : timeout.nanos ≤ (polled settings before i).clock - before.clock := by
      rw [hopened] at hexpired
      exact of_decide_eq_true hexpired
    rw [hclock] at hover
    cases i with
    | zero =>
        rw [Span.lt_iff] at hopens
        simp only [Instant] at *
        omega
    | succ i =>
        refine .expired ⟨.inr ?_, fun j hj => ?_⟩ (hloud i (Nat.lt_succ_self i))
        · rw [readingEnd]
          rw [Nat.succ_mul] at hover
          simp only [Instant] at *
          omega
        · have hquiet := hloud j (Nat.lt_succ_of_lt hj)
          have hopen := hopen j (Nat.succ_lt_succ hj)
          rw [hopened] at hopen
          exact not_or.mpr ⟨Nat.not_le.mpr hquiet, Nat.not_le.mpr hopen⟩
  case received =>
    rintro _ n batch ⟨rfl, rfl⟩ hopen hbatch
    have hrunning : ¬timeout.nanos ≤ (polled settings before i).clock - before.clock := by
      rw [hopened] at hopen
      exact of_decide_eq_false hopen
    refine ⟨?_, fun f hf => ?_, rfl⟩
    · simp only [Instant] at *
      omega
    · obtain ⟨t, -, hemits⟩ := (Network.mem_batch_iff hbatch).mp hf
      exact hcalm (t, f) (emits_of_polled hemits)
  case quiet =>
    rintro batch _ n ⟨rfl, hintime, hunwatched, rfl⟩ hquiet
    rw [Window.observe_of_unwatched hunwatched, hopened] at hquiet
    have hquiet : settings.quiet.nanos ≤
        (polled settings before i).receive.world.clock - before.clock := of_decide_eq_true hquiet
    rw [hends, Nat.add_sub_cancel_left] at hquiet
    refine .quiet ⟨.inl hquiet, fun j hj => ?_⟩ hquiet
    exact not_or.mpr ⟨Nat.not_le.mpr (hloud j hj), Nat.not_le.mpr (hbegan hintime j hj)⟩
  case paused =>
    rintro batch _ n ⟨rfl, hintime, hunwatched, rfl⟩ hpaused
    rw [Window.observe_of_unwatched hunwatched] at hpaused ⊢
    rw [hopened] at hpaused
    have hlate : (polled settings before i).receive.world.clock - before.clock <
        settings.quiet.nanos := Nat.not_le.mp (of_decide_eq_false hpaused)
    rw [hends, Nat.add_sub_cancel_left] at hlate
    refine ⟨left - 1, ?_, rfl, ⟨i + 1, rfl, fun j hj => ?_, fun j hj => ?_⟩, ?_⟩
    · rw [hopened] at hleft
      have hleft : before.clock + timeout.nanos ≤ (polled settings before i).clock + left := hleft
      simp only [Instant] at *
      omega
    · obtain hj | rfl := Nat.lt_succ_iff_lt_or_eq.mp hj
      · exact hloud j hj
      · exact hlate
    · rw [hopened]
      exact hbegan hintime j (Nat.lt_of_succ_lt_succ hj)
    · have hnext :
          (Network.link.sleep settings.poll (polled settings before i).receive.world).clock =
            before.clock + (i + 1) * (before.latency.nanos + settings.poll.nanos) :=
        polled_clock settings before (i + 1)
      rw [hnext, Nat.succ_mul]
      rw [hclock] at hleft
      simp only [Instant] at *
      omega

/-- A watch that sees nothing ends with its last reading, or with the pause after it. -/
theorem watch_calm {n : Network} (hopens : settings.quiet < timeout)
    (hrunning : 0 < n.latency.nanos)
    (hcalm : ∀ x, n.Emits x → ¬(x.2.bus = bus ∧ x.2.address ∈ addresses)) {rounds : Nat}
    (hrounds : timeout.nanos < rounds) :
    Meets False (· = n) (watch Network.link rounds bus addresses timeout settings)
      (Calmed settings timeout n) := by
  refine watch_meets Network.link (R := fun now m => now = n.clock ∧ m = n)
    (by rintro m rfl; exact ⟨rfl, rfl⟩) (fun hshort => absurd hopens (Nat.not_lt.mpr hshort)) ?loop
  case loop =>
    rintro - _ w ⟨rfl, hw⟩
    refine Meets.loop_of_measure (look_calm rfl hopens hrunning hcalm) hrounds _ w ?_
    rw [hw]
    exact ⟨rfl, ⟨0, rfl, fun _ hj => absurd hj (Nat.not_lt_zero _),
      fun _ hj => absurd hj (Nat.not_lt_zero _)⟩, Nat.le_refl _⟩

end EcuQuiet.Silence
