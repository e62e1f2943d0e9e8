import EcuQuiet.Proofs.Silence.Watched
import EcuQuiet.Proofs.Simulation.Emission
import Mathlib.Data.List.Basic

/-!
# What the verdict of a watch says

A watch reads the bus now and then and takes every frame for as old as the reading that held it.
Its positive verdict is sound all the same: on a network, a frame is held by the first reading after
it became due, so the last sighting is never before the last watched frame. Its negative verdict is
no evidence of a watched frame unless the timeout leaves room for one pause after the quiet span,
since a watch may sleep through the time that was left for its last reading.
-/

namespace EcuQuiet.Silence

open Run Simulation

namespace Window

/-- A frame that a window watches for. -/
def Watches (w : Window) (f : Frame) : Prop := f.bus = w.bus ∧ f.address ∈ w.addresses

theorem sees_iff {w : Window} {batch : List Frame} :
    w.sees batch = true ↔ ∃ f ∈ batch, w.Watches f := by
  simp [sees, Watches]

theorem observe_of_unwatched {w : Window} {batch : List Frame} (h : ∀ f ∈ batch, ¬w.Watches f)
    (now : Instant) : w.observe batch now = w := by
  rw [observe, if_neg]
  intro hsees
  obtain ⟨f, hf, hwatched⟩ := sees_iff.mp hsees
  exact h f hf hwatched

end Window

/-! ### Silence on a network -/

/-- What is known of a window when the network `before` on which it was opened has become `n`:
but for the last sighting it is still the window that was opened, and the watched frames after the
last sighting are all yet to be received. -/
structure Covers (before : Network) (opened w : Window) (n : Network) : Prop where
  same : w = { opened with lastSeen := w.lastSeen }
  began : before.clock ≤ w.lastSeen
  past : w.lastSeen ≤ n.clock
  coming : ∀ x, before.Emits x → opened.Watches x.2 → w.lastSeen < x.1 → n.Emits x

/-- A verdict that is positive only after a span without watched frames. -/
def Confirms (before : Network) (opened : Window) (verdict : Except DiagnosticError Bool)
    (n : Network) : Prop :=
  verdict = .ok true → before.clock + opened.quiet.nanos ≤ n.clock ∧
    ∀ x, before.Emits x → n.clock < x.1 + opened.quiet.nanos → x.1 ≤ n.clock →
      ¬opened.Watches x.2

namespace Covers

variable {before n : Network} {opened w : Window}

theorem advance (h : Covers before opened w n) (d : Span) :
    Covers before opened w (n.advance d) :=
  ⟨h.same, h.began, Nat.le_trans h.past (Nat.le_add_right ..), h.coming⟩

/-- After a reading, what is yet to be received is also yet to become due. -/
theorem receive (h : Covers before opened w n) {batch : List Frame}
    (hbatch : n.receive.result = .ok batch) :
    Covers before opened (w.observe batch n.receive.world.clock) n.receive.world ∧
      ∀ x, n.receive.world.Emits x → n.receive.world.clock < x.1 := by
  have hclock : n.receive.world.clock = n.clock + n.latency.nanos := rfl
  have hnow : w.lastSeen ≤ n.receive.world.clock := Nat.le_trans h.past (Nat.le_add_right ..)
  refine ⟨?_, fun x hx => (Network.receive_emits.mp hx).1⟩
  rw [Window.observe]
  split
  next hsees =>
    refine ⟨?_, Nat.le_trans h.began hnow, Nat.le_refl _, fun x hx hwatched hlater => ?_⟩
    · rw [h.same]
    · have hcoming := h.coming x hx hwatched (Nat.lt_of_le_of_lt hnow hlater)
      exact Network.receive_emits.mpr ⟨hlater, hcoming⟩
  next hsees =>
    refine ⟨h.same, h.began, hnow, fun x hx hwatched hlater => ?_⟩
    have hcoming := h.coming x hx hwatched hlater
    -- a watched frame that was due would have been held by the batch
    have hdue : n.clock + n.latency.nanos < x.1 := by
      refine Nat.lt_of_not_le fun hdue => hsees (Window.sees_iff.mpr ⟨x.2, ?_, ?_⟩)
      · exact (Network.mem_batch_iff hbatch).mpr ⟨x.1, hdue, hcoming⟩
      · rw [h.same]
        exact hwatched
    exact Network.receive_emits.mpr ⟨hdue, hcoming⟩

theorem confirms (h : Covers before opened w n) (hdue : ∀ x, n.Emits x → n.clock < x.1)
    (hquiet : w.isQuiet n.clock = true) : Confirms before opened (.ok true) n := by
  intro _
  have hspan : w.quiet.nanos ≤ n.clock - w.lastSeen := of_decide_eq_true hquiet
  have hsame : w.quiet = opened.quiet := by rw [h.same]
  rw [hsame] at hspan
  have hbegan := h.began
  have hpast := h.past
  refine ⟨by simp only [Instant] at *; omega, fun x hx hafter hnow hwatched => ?_⟩
  have hseen : w.lastSeen < x.1 := by simp only [Instant] at *; omega
  exact absurd hnow (Nat.not_le.mpr (hdue x (h.coming x hx hwatched hseen)))

end Covers

theorem look_confirms (before : Network) (opened : Window) (poll : Span) (w : Window) :
    Meets True (Covers before opened w) (look Network.link poll w)
      (Continues (Covers before opened) (Confirms before opened)) := by
  refine look_meets Network.link (R := fun _ => Covers before opened w)
    (S := fun batch n => Covers before opened (w.observe batch n.clock) n ∧
      ∀ x, n.Emits x → n.clock < x.1)
    (T := fun batch later n => later = n.clock ∧ Covers before opened (w.observe batch later) n ∧
      ∀ x, n.Emits x → n.clock < x.1)
    (fun n hn => hn) (fun _ n _ _ hverdict => by cases hverdict)
    (fun _ n _ _ _ _ hverdict => by cases hverdict) (fun _ n batch hn _ => hn.receive)
    (fun batch n hn => ⟨rfl, hn⟩) ?quiet (fun batch later n hn _ => hn.2.1.advance poll)
  case quiet =>
    rintro batch later n ⟨rfl, hcovers, hdue⟩ hquiet
    exact hcovers.confirms hdue hquiet

/-- A network is silent when a watch says so: by then the quiet span has passed since the watch
began, and in it no watched frame became due, whether during a reading or between two. -/
theorem silent_of_watch {rounds : Nat} {bus : UInt8} {addresses : AddressSet} {timeout : Span}
    {settings : Settings} {w after : Logged Network}
    (h : watch Network.link rounds bus addresses timeout settings w = some (.ok true, after)) :
    w.world.clock + settings.quiet.nanos ≤ after.world.clock ∧
      ∀ x, w.world.Emits x → after.world.clock < x.1 + settings.quiet.nanos →
        x.1 ≤ after.world.clock → ¬(x.2.bus = bus ∧ x.2.address ∈ addresses) := by
  have hwatch : Meets True (· = w.world)
      (watch Network.link rounds bus addresses timeout settings)
      (Confirms w.world (Window.opening bus addresses timeout settings w.world.clock)) := by
    refine watch_meets Network.link (R := fun now n => now = w.world.clock ∧ n = w.world)
      (by rintro n rfl; exact ⟨rfl, rfl⟩) (fun _ _ n _ hverdict => by cases hverdict) ?loop
    case loop =>
      rintro hopens now start ⟨rfl, hstart⟩
      refine Meets.loop (look_confirms w.world _ settings.poll) rounds _ start ?_
      rw [hstart]
      exact ⟨rfl, Nat.le_refl _, Nat.le_refl _, fun x hx _ _ => hx⟩
  exact hwatch.post rfl h rfl

/-- A network with a unit that was told to stop while a frame of it was still under way, and with
one that goes on. -/
def falling : Network where
  latency := .ofMillis 10
  ecus :=
    [{ Ecu.diagnostic 0 0x7D0 with
        periodic := [{ address := 0x7D0, period := { nanos := 20000000 }, data := [0],
                       positive := by decide }]
        silencedAt := some 50000000
        outbox := [(95000000, { address := 0x7D8, bus := 0, data := [0x02, 0x68, 0x03] })] },
      { Ecu.diagnostic 0 0x7E0 with
        periodic := [{ address := 0x7E0, period := .ofMillis 10, data := [0],
                       positive := by decide }] }]
  scheduled := [(120000000, { address := 0x7D0, bus := 1, data := [0] })]

theorem silent_of_watch_falling :
    ∃ after, watch Network.link 100 0 (.ofList [0x7D0, 0x7D8]) { nanos := 1500000000 } {}
        { world := falling } = some (.ok true, after) ∧
      ∀ x, falling.Emits x → after.world.clock < x.1 + 300000000 → x.1 ≤ after.world.clock →
        ¬(x.2.bus = 0 ∧ x.2.address ∈ AddressSet.ofList [0x7D0, 0x7D8]) := by
  have hrun : (watch Network.link 100 0 (.ofList [0x7D0, 0x7D8]) { nanos := 1500000000 } {}
      { world := falling }).map (·.1) = some (.ok true) := by decide +kernel
  obtain ⟨⟨verdict, after⟩, hrun, rfl⟩ := Option.map_eq_some_iff.mp hrun
  exact ⟨after, hrun, (silent_of_watch hrun).2⟩

/-! ### A bus without watched frames -/

/-- A link that never fails and never delivers a watched frame, as long as its world is `calm`:
reading the clock takes no time, a pause takes the time it is given, and reading the bus takes some
time, but less than the quiet span. -/
structure Uneventful {σ : Type} (link : Link σ) (time : σ → Instant) (calm : σ → Prop)
    (bus : UInt8) (addresses : AddressSet) (quiet : Span) : Prop where
  now : ∀ w, calm w →
    (link.now w).1 = time w ∧ time (link.now w).2 = time w ∧ calm (link.now w).2
  sleep : ∀ d w, calm w → time (link.sleep d w) = time w + d.nanos ∧ calm (link.sleep d w)
  delivers : ∀ w, calm w → ∃ batch, (link.receive w).result = .ok batch ∧
    ∀ f ∈ batch, ¬(f.bus = bus ∧ f.address ∈ addresses)
  receive : ∀ w, calm w → time w < time (link.receive w).world ∧
    time (link.receive w).world < time w + quiet.nanos ∧ calm (link.receive w).world

namespace Uneventful

/-- A network that puts no watched frame on its buses, and whose readings take less than the quiet
span. -/
theorem of_network (bus : UInt8) (addresses : AddressSet) {quiet latency : Span}
    (hpositive : 0 < latency.nanos) (hshort : latency < quiet) :
    Uneventful Network.link Network.clock
      (fun n => n.latency = latency ∧ ∀ x, n.Emits x → ¬(x.2.bus = bus ∧ x.2.address ∈ addresses))
      bus addresses quiet where
  now _ hn := ⟨rfl, rfl, hn⟩
  sleep _ _ hn := ⟨rfl, hn⟩
  delivers n hn := by
    obtain ⟨batch, hbatch, hyields⟩ := n.receive_yields
    refine ⟨batch, hbatch, fun f hf => ?_⟩
    obtain ⟨t, -, hemits⟩ := (hyields f).mp hf
    exact hn.2 (t, f) hemits
  receive n hn := by
    obtain ⟨rfl, hsilent⟩ := hn
    exact ⟨Nat.lt_add_of_pos_right hpositive, Nat.add_lt_add_left hshort _, rfl,
      fun x hx => hsilent x (Network.receive_emits.mp hx).2⟩

variable {σ : Type} {link : Link σ} {time : σ → Instant} {calm : σ → Prop} {w : Window}

/-- A world in which a window that sees nothing becomes quiet within the given time. -/
structure Nearing (time : σ → Instant) (calm : σ → Prop) (w : Window) (left : Nat)
    (world : σ) : Prop where
  calm : calm world
  began : w.opened ≤ time world
  near : w.opened + w.quiet.nanos ≤ time world + left

theorem Nearing.of_time {world later : σ} {left left' : Nat}
    (h : Nearing time calm w left world) (hcalm : calm later) (htime : time world ≤ time later)
    (hleft : time world + left ≤ time later + left') : Nearing time calm w left' later :=
  ⟨hcalm, Nat.le_trans h.began htime, Nat.le_trans h.near hleft⟩

theorem Nearing.read {world later : σ} {left : Nat} (h : Nearing time calm w left world)
    (hcalm : calm later) (htime : time later = time world) : Nearing time calm w left later :=
  h.of_time hcalm (Nat.le_of_eq htime.symm) (Nat.le_of_eq (by rw [htime]))

/-- What a watch over an uneventful link keeps: the window it has opened, and a clock that comes
nearer to the end of the quiet span but not to that of the timeout. -/
def Underway (time : σ → Instant) (calm : σ → Prop) (opened : Window) (left : Nat)
    (w : Window) (world : σ) : Prop :=
  w = opened ∧ Nearing time calm opened left world ∧
    time world < opened.opened + opened.timeout.nanos

/-- A window that sees nothing does not expire if it has room for a pause after its quiet span. -/
theorem look_nears (h : Uneventful link time calm w.bus w.addresses w.quiet) {poll : Span}
    (hroom : w.quiet.nanos + poll.nanos ≤ w.timeout.nanos) (hfresh : w.lastSeen = w.opened)
    (left : Nat) (next : Window) :
    Meets False (Underway time calm w left next) (look link poll next)
      (Continues (fun next world => ∃ less < left, Underway time calm w less next world)
        fun verdict _ => verdict = .ok true) := by
  refine look_meets link
    (R := fun now world => now = time world ∧ Underway time calm w left next world)
    (S := fun batch world => next = w ∧ (∀ f ∈ batch, ¬w.Watches f) ∧
      Nearing time calm w (left - 1) world)
    (T := fun batch later world => later = time world ∧ next = w ∧ (∀ f ∈ batch, ¬w.Watches f) ∧
      Nearing time calm w (left - 1) world)
    ?now ?expired ?failed ?received ?later (fun _ _ _ _ _ => rfl) ?paused
  case now =>
    rintro world ⟨rfl, hnears, hrunning⟩
    obtain ⟨hread, htime, hcalm⟩ := h.now world hnears.calm
    exact ⟨htime ▸ hread, rfl, hnears.read hcalm htime, htime ▸ hrunning⟩
  case expired =>
    rintro now world ⟨rfl, rfl, hnears, hrunning⟩ hexpired
    have hover : next.timeout.nanos ≤ time world - next.opened := of_decide_eq_true hexpired
    have hbegan := hnears.began
    simp only [Instant] at *
    omega
  case failed =>
    rintro now world cause ⟨-, -, hnears, -⟩ - hfailed
    obtain ⟨batch, hbatch, -⟩ := h.delivers world hnears.calm
    cases hfailed.symm.trans hbatch
  case received =>
    rintro now world batch ⟨-, hsame, hnears, -⟩ - hreceived
    obtain ⟨held, hheld, hunwatched⟩ := h.delivers world hnears.calm
    obtain rfl : held = batch := Except.ok.inj (hheld.symm.trans hreceived)
    obtain ⟨hlater, -, hcalm⟩ := h.receive world hnears.calm
    exact ⟨hsame, hunwatched, hnears.of_time hcalm (Nat.le_of_lt hlater)
      (by simp only [Instant] at *; omega)⟩
  case later =>
    rintro batch world ⟨hsame, hunwatched, hnears⟩
    obtain ⟨hread, htime, hcalm⟩ := h.now world hnears.calm
    exact ⟨htime ▸ hread, hsame, hunwatched, hnears.read hcalm htime⟩
  case paused =>
    rintro batch later world ⟨rfl, rfl, hunwatched, hnears⟩ hloud
    rw [Window.observe_of_unwatched hunwatched] at hloud ⊢
    have hshort : time world - next.lastSeen < next.quiet.nanos :=
      Nat.not_le.mp (of_decide_eq_false hloud)
    rw [hfresh] at hshort
    obtain ⟨htime, hcalm⟩ := h.sleep poll world hnears.calm
    have hnear := hnears.near
    refine ⟨left - 1, ?_, rfl, hnears.of_time hcalm ?_ ?_, ?_⟩ <;>
      simp only [Instant] at * <;> omega

/-- The watch confirms the silence before it runs out of time. -/
theorem watch_confirms {bus : UInt8} {addresses : AddressSet} {timeout : Span}
    {settings : Settings} (h : Uneventful link time calm bus addresses settings.quiet)
    (hopens : settings.quiet < timeout)
    (hroom : settings.quiet.nanos + settings.poll.nanos ≤ timeout.nanos) {rounds : Nat}
    (hrounds : settings.quiet.nanos < rounds) :
    Meets False calm (watch link rounds bus addresses timeout settings)
      fun verdict _ => verdict = .ok true := by
  refine watch_meets link (R := fun now world => now = time world ∧ calm world) ?now
    (fun hshort => absurd hshort (Nat.not_le.mpr hopens)) ?loop
  case now =>
    intro world hcalm
    obtain ⟨hread, htime, hcalm⟩ := h.now world hcalm
    exact ⟨htime ▸ hread, hcalm⟩
  case loop =>
    rintro - now start ⟨rfl, hcalm⟩
    refine Meets.loop_of_measure (look_nears (w := .opening bus addresses timeout settings _) h
      hroom rfl) hrounds _ start ⟨rfl, ⟨hcalm, Nat.le_refl _, Nat.le_refl _⟩, ?_⟩
    exact Nat.lt_add_of_pos_right (Nat.lt_of_le_of_lt (Nat.zero_le _) hopens)

end Uneventful

/-- A watch that has either not looked yet or has run out of time. -/
def Stalled (before : Network) (first w : Window) (n : Network) : Prop :=
  w = first ∧ n = before ∨
    w.opened = first.opened ∧ w.timeout = first.timeout ∧
      first.opened + first.timeout.nanos ≤ n.clock

theorem Window.observe_opened (w : Window) (batch : List Frame) (now : Instant) :
    (w.observe batch now).opened = w.opened := by
  rw [observe]
  split <;> rfl

theorem Window.observe_timeout (w : Window) (batch : List Frame) (now : Instant) :
    (w.observe batch now).timeout = w.timeout := by
  rw [observe]
  split <;> rfl

/-- A window is not quiet before its quiet span is over, whatever it has seen. -/
theorem Window.isQuiet_observe_opening {bus : UInt8} {addresses : AddressSet} {timeout : Span}
    {settings : Settings} {now later : Instant} (hshort : later - now < settings.quiet.nanos)
    (batch : List Frame) :
    ((opening bus addresses timeout settings now).observe batch later).isQuiet later = false := by
  rw [observe]
  apply decide_eq_false
  split
  next =>
    have hpositive : 0 < settings.quiet.nanos := Nat.lt_of_le_of_lt (Nat.zero_le _) hshort
    exact Nat.not_le.mpr (Nat.lt_of_le_of_lt (Nat.le_of_eq (Nat.sub_self later)) hpositive)
  next => exact Nat.not_le.mpr hshort

/-- A look at a network confirms nothing if the first one ends before the quiet span and pauses
until the timeout. -/
theorem look_misses {bus : UInt8} {addresses : AddressSet} {timeout : Span} {settings : Settings}
    {before : Network} {first : Window}
    (hfirst : first = .opening bus addresses timeout settings before.clock)
    (hshort : before.latency < settings.quiet)
    (hlong : timeout.nanos ≤ before.latency.nanos + settings.poll.nanos) (w : Window) :
    Meets True (Stalled before first w) (look Network.link settings.poll w)
      (Continues (Stalled before first) fun verdict _ => verdict ≠ .ok true) := by
  refine look_meets Network.link (R := fun now n => now = n.clock ∧ Stalled before first w n)
    (S := fun _ n => n.clock = before.clock + before.latency.nanos ∧ w = first)
    (T := fun _ later n => later = before.clock + before.latency.nanos ∧ n.clock = later ∧
      w = first)
    (fun _ hn => ⟨rfl, hn⟩) (fun _ _ _ _ hverdict => by cases hverdict)
    (fun _ _ _ _ _ _ hverdict => by cases hverdict) ?received
    (fun _ _ hn => ⟨hn.1, rfl, hn.2⟩) ?quiet ?paused
  case received =>
    rintro now n batch ⟨rfl, ⟨rfl, rfl⟩ | ⟨hopened, htimeout, hover⟩⟩ hopen -
    · exact ⟨rfl, rfl⟩
    · have hrunning := of_decide_eq_false hopen
      rw [hopened, htimeout] at hrunning
      exact absurd (Nat.le_sub_of_add_le' hover) hrunning
  case quiet =>
    rintro batch later n ⟨rfl, -, rfl⟩ hquiet
    have hreading : before.clock + before.latency.nanos - before.clock < settings.quiet.nanos :=
      Nat.lt_of_le_of_lt (Nat.le_of_eq (Nat.add_sub_cancel_left ..)) hshort
    rw [hfirst, Window.isQuiet_observe_opening hreading] at hquiet
    cases hquiet
  case paused =>
    rintro batch later n ⟨rfl, hclock, rfl⟩ -
    refine .inr ⟨Window.observe_opened .., Window.observe_timeout .., ?_⟩
    have hlater : (Network.link.sleep settings.poll n).clock = n.clock + settings.poll.nanos := rfl
    rw [hlater, hclock, hfirst, Nat.add_assoc]
    exact Nat.add_le_add_left hlong _

/-- A watch confirms nothing if its first reading ends before the quiet span and its first pause not
before the timeout. -/
theorem watch_misses {bus : UInt8} {addresses : AddressSet} {timeout : Span} {settings : Settings}
    {before : Network} (hshort : before.latency < settings.quiet)
    (hlong : timeout.nanos ≤ before.latency.nanos + settings.poll.nanos) (rounds : Nat) :
    Meets True (· = before) (watch Network.link rounds bus addresses timeout settings)
      fun verdict _ => verdict ≠ .ok true := by
  refine watch_meets Network.link (R := fun now n => now = before.clock ∧ n = before)
    (by rintro n rfl; exact ⟨rfl, rfl⟩) (fun _ _ n _ hverdict => by cases hverdict) ?loop
  case loop =>
    rintro hopens now start ⟨rfl, hstart⟩
    exact Meets.loop (look_misses rfl hshort hlong) rounds _ start (.inl ⟨rfl, hstart⟩)

/-- A timeout is long enough to confirm every uneventful silence exactly if it leaves room for a
pause after the quiet span. No reading is shorter than a quiet span of one nanosecond. -/
theorem silence_confirmed_iff {timeout : Span} {settings : Settings}
    (hopens : settings.quiet < timeout) (hquiet : 1 < settings.quiet.nanos) (bus : UInt8)
    (addresses : AddressSet) :
    (∀ (σ : Type) (link : Link σ) (time : σ → Instant) (calm : σ → Prop),
      Uneventful link time calm bus addresses settings.quiet →
        ∀ (w : Logged σ) (rounds : Nat), calm w.world → settings.quiet.nanos < rounds →
          ∃ after, watch link rounds bus addresses timeout settings w = some (.ok true, after)) ↔
      settings.quiet.nanos + settings.poll.nanos ≤ timeout.nanos := by
  constructor
  · intro hconfirmed
    refine Nat.not_lt.mp fun hnoroom => ?_
    -- readings that end a nanosecond before the quiet span
    let latency : Span :=
      { nanos := settings.quiet.nanos - 1
        bounded := Nat.lt_of_le_of_lt (Nat.sub_le ..) settings.quiet.bounded }
    have hshort : latency < settings.quiet :=
      Nat.sub_one_lt (Nat.ne_of_gt (Nat.lt_of_succ_lt hquiet))
    have hlong : timeout.nanos ≤ latency.nanos + settings.poll.nanos := by
      have hlatency : latency.nanos = settings.quiet.nanos - 1 := rfl
      omega
    have huneventful := Uneventful.of_network bus addresses
      (Nat.sub_pos_of_lt hquiet : 0 < latency.nanos) hshort
    obtain ⟨after, hrun⟩ := hconfirmed Network Network.link Network.clock _ huneventful
      { world := { latency } } (settings.quiet.nanos + 1)
      ⟨rfl, fun x hx => by rcases hx with hx | ⟨e, he, -⟩ <;> contradiction⟩ (Nat.lt_succ_self _)
    exact (watch_misses hshort hlong _).post rfl hrun rfl
  · intro hroom σ link time calm huneventful w rounds hcalm hrounds
    obtain ⟨verdict, after, hrun, rfl⟩ :=
      (huneventful.watch_confirms hopens hroom hrounds).exists_end hcalm
    exact ⟨after, hrun⟩

/-- The default settings and timeout have room, also beside units that go on transmitting. -/
theorem silence_confirmed_default :
    ∃ after, watch Network.link 300000001 0 (.ofList [0x7D0]) { nanos := 1500000000 } {}
      { world := { ecus := [{ Ecu.diagnostic 0 0x7E0 with
                      periodic := [{ address := 0x7E0, period := { nanos := 10000000 }, data := [0],
                                     positive := by decide }] }] } } = some (.ok true, after) := by
  have hpositive : 0 < ({ nanos := 10000000 } : Span).nanos := by decide
  have hshort : { nanos := 10000000 } < ({} : Settings).quiet := by decide
  have hopens : ({} : Settings).quiet < { nanos := 1500000000 } := by decide
  refine (silence_confirmed_iff hopens (by decide) 0 (.ofList [0x7D0])).mpr (by decide) Network
    Network.link Network.clock _ (.of_network _ _ hpositive hshort) _ _ ⟨rfl, ?_⟩ (by decide)
  rintro x (hx | ⟨e, he, hx⟩)
  · cases hx
  · obtain rfl := List.mem_singleton.mp he
    rcases hx with hx | ⟨p, hp, -, -, hframe⟩
    · cases hx
    · obtain rfl := List.mem_singleton.mp hp
      rw [hframe]
      decide

/-- On an empty network whose readings take a millisecond, a watch with the default settings reads
the bus last at 295 ms and sleeps until 315 ms; a timeout of 301 ms is over by then. -/
theorem silence_unconfirmed :
    (watch Network.link 100 0 (.ofList [0x7D0]) { nanos := 301000000 } {}
      { world := { latency := { nanos := 1000000 } } }).map (·.1) = some (.ok false) := by
  decide +kernel

end EcuQuiet.Silence
