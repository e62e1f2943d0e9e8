import EcuQuiet.Proofs.Bus.Contract
import EcuQuiet.Proofs.Bus.Ending
import EcuQuiet.Proofs.Bus.Recording
import EcuQuiet.Silence.Watch

/-!
# What a watch does

The uses that a watch makes of the link, with the verdict they lead to: it reads the clock, looks
whether its time is over, receives one batch, reads the clock again, and either is done or pauses
and looks again.
-/

namespace EcuQuiet.Silence

/-- The uses of a watch over an open window, and its verdict. -/
inductive Looked (poll : Span) : Window → Except DiagnosticError Bool → List Use → Prop
  | expired {w : Window} {now : Instant} (hexpired : w.isExpired now = true) :
      Looked poll w (.ok false) [.read now]
  | failed {w : Window} {now : Instant} {cause : BusError} (hopen : w.isExpired now = false) :
      Looked poll w (.error (.bus cause)) [.read now, .received (.error cause)]
  | quiet {w : Window} {now later : Instant} {batch : List Frame}
      (hopen : w.isExpired now = false) (hquiet : (w.observe batch later).isQuiet later = true) :
      Looked poll w (.ok true) [.read now, .received (.ok batch), .read later]
  | paused {w : Window} {now later : Instant} {batch : List Frame}
      {verdict : Except DiagnosticError Bool} {rest : List Use}
      (hopen : w.isExpired now = false) (hloud : (w.observe batch later).isQuiet later = false)
      (hrest : Looked poll (w.observe batch later) verdict rest) :
      Looked poll w verdict
        (.read now :: .received (.ok batch) :: .read later :: .slept poll :: rest)

/-- The uses of a watch, and its verdict. -/
inductive Watched (bus : UInt8) (addresses : AddressSet) (timeout : Span) (settings : Settings) :
    Except DiagnosticError Bool → List Use → Prop
  | refused {now : Instant} {reason : DiagnosticError}
      (hrefused : Window.open? bus addresses timeout settings now = .error reason) :
      Watched bus addresses timeout settings (.error reason) [.read now]
  | opened {now : Instant} {w : Window} {verdict : Except DiagnosticError Bool}
      {rest : List Use} (hopened : Window.open? bus addresses timeout settings now = .ok w)
      (hrest : Looked settings.poll w verdict rest) :
      Watched bus addresses timeout settings verdict (.read now :: rest)

theorem Looked.passive {poll : Span} {w : Window} {verdict : Except DiagnosticError Bool}
    {uses : List Use} (h : Looked poll w verdict uses) : ∀ use ∈ uses, use.Passive := by
  induction h with
  | expired | failed | quiet => simp [Use.Passive]
  | paused _ _ _ ih => simpa [Use.Passive] using ih

/-- A watch sends nothing. -/
theorem Watched.passive {bus : UInt8} {addresses : AddressSet} {timeout : Span}
    {settings : Settings} {verdict : Except DiagnosticError Bool} {uses : List Use}
    (h : Watched bus addresses timeout settings verdict uses) : ∀ use ∈ uses, use.Passive := by
  cases h with
  | refused => simp [Use.Passive]
  | opened _ hlooked => exact List.forall_mem_cons.mpr ⟨trivial, hlooked.passive⟩

variable {σ : Type} (link : Link σ)

theorem look_records (poll : Span) (w : Window) :
    Run.Records (look link.recorded poll w) (Run.GoesOn (Looked poll) w) := by
  apply link.records_clock_bind
  intro now
  by_cases hexpired : w.isExpired now
  · rw [if_pos hexpired]
    exact Run.Records.pure _ (.expired hexpired)
  · rw [if_neg hexpired]
    have hopen : w.isExpired now = false := Bool.eq_false_iff.mpr hexpired
    apply link.records_batch_bind
    · intro cause
      exact .failed hopen
    · intro batch
      apply link.records_clock_bind
      intro later
      dsimp only
      by_cases hquiet : (w.observe batch later).isQuiet later
      · rw [if_pos hquiet]
        exact Run.Records.pure _ (.quiet hopen hquiet)
      · rw [if_neg hquiet]
        apply link.records_pause_bind
        apply Run.Records.pure
        intro verdict rest hrest
        exact .paused hopen (Bool.eq_false_iff.mpr hquiet) hrest

theorem watch_records (rounds : Nat) (bus : UInt8) (addresses : AddressSet) (timeout : Span)
    (settings : Settings) :
    Run.Records (watch link.recorded rounds bus addresses timeout settings)
      (Watched bus addresses timeout settings) := by
  apply Run.Records.note_bind
  apply link.records_clock_bind
  intro now
  cases hopened : Window.open? bus addresses timeout settings now with
  | error reason => exact Run.Records.ofExcept_bind_error reason (.refused hopened)
  | ok w =>
      have hloop := Run.Records.loop (look_records link settings.poll) rounds w
      intro before result after hrun
      obtain ⟨rest, hrest, hlooked⟩ := hloop before result after hrun
      exact ⟨rest, hrest, .opened hopened hlooked⟩

theorem look_mirrors (poll : Span) (w : Window) :
    Run.Mirrors (look link.recorded poll w) (look link poll w) := by
  apply Run.Mirrors.bind link.clock_recorded
  intro now
  by_cases hexpired : w.isExpired now
  · rw [if_pos hexpired, if_pos hexpired]
    exact .pure _
  · rw [if_neg hexpired, if_neg hexpired]
    apply Run.Mirrors.bind link.batch_recorded
    intro batch
    apply Run.Mirrors.bind link.clock_recorded
    intro later
    dsimp only
    by_cases hquiet : (w.observe batch later).isQuiet later
    · rw [if_pos hquiet, if_pos hquiet]
      exact .pure _
    · rw [if_neg hquiet, if_neg hquiet]
      exact Run.Mirrors.bind (link.pause_recorded poll) fun _ => .pure _

theorem watch_mirrors (rounds : Nat) (bus : UInt8) (addresses : AddressSet) (timeout : Span)
    (settings : Settings) :
    Run.Mirrors (watch link.recorded rounds bus addresses timeout settings)
      (watch link rounds bus addresses timeout settings) := by
  apply Run.Mirrors.bind (.note _)
  intro _
  apply Run.Mirrors.bind link.clock_recorded
  intro now
  apply Run.Mirrors.bind (.ofExcept _)
  intro w
  exact Run.Mirrors.loop (look_mirrors link settings.poll) rounds w

theorem limited_look_spends {bound : Nat} (poll : Span) (w : Window) :
    Run.Spends Allowance.left bound (look link.limited poll w) := by
  apply Run.Spends.bind link.limited_clock_ends
  intro now
  by_cases hexpired : w.isExpired now
  · rw [if_pos hexpired]
    apply Run.Spends.of_ends (.pure _)
    rintro w result after hrun ⟨next, rfl⟩
    cases hrun
  · rw [if_neg hexpired]
    apply link.limited_batch_spends
    intro batch
    apply Run.Ends.bind link.limited_clock_ends
    intro later
    dsimp only
    by_cases hquiet : (w.observe batch later).isQuiet later
    · rw [if_pos hquiet]
      exact .pure _
    · rw [if_neg hquiet]
      exact Run.Ends.bind (link.limited_pause_ends poll) fun _ => .pure _

/-- A watch ends when it is allowed more readings than there are left. -/
theorem limited_watch_ends (bound : Nat) (bus : UInt8) (addresses : AddressSet) (timeout : Span)
    (settings : Settings) :
    Run.Ends Allowance.left bound (watch link.limited bound bus addresses timeout settings) := by
  apply Run.Ends.bind (.note _)
  intro _
  apply Run.Ends.bind link.limited_clock_ends
  intro now
  apply Run.Ends.bind (.ofExcept _)
  intro w
  exact Run.Ends.loop (limited_look_spends link settings.poll) w

/-! ### Contracts of a watch -/

/-- The window that a watch begins with. -/
def Window.opening (bus : UInt8) (addresses : AddressSet) (timeout : Span) (settings : Settings)
    (now : Instant) : Window :=
  { addresses, bus, quiet := settings.quiet, timeout, opened := now, lastSeen := now }

section Contracts

open Run

variable {cutOff : Prop} {P : σ → Prop} {R : Instant → σ → Prop}
  {S : List Frame → σ → Prop} {T : List Frame → Instant → σ → Prop} {I : Window → σ → Prop}
  {Q : Except DiagnosticError Bool → σ → Prop}

/-- A look, use by use: `R` after the clock was read, `S` after the bus was, `T` after the clock was
read again. -/
theorem look_meets {poll : Span} {w : Window}
    (hnow : ∀ world, P world → R (link.now world).1 (link.now world).2)
    (hexpired : ∀ now world, R now world → w.isExpired now = true → Q (.ok false) world)
    (hfailed : ∀ now world cause, R now world → w.isExpired now = false →
      (link.receive world).result = .error cause →
        Q (.error (.bus cause)) (link.receive world).world)
    (hreceived : ∀ now world batch, R now world → w.isExpired now = false →
      (link.receive world).result = .ok batch → S batch (link.receive world).world)
    (hlater : ∀ batch world, S batch world → T batch (link.now world).1 (link.now world).2)
    (hquiet : ∀ batch later world, T batch later world →
      (w.observe batch later).isQuiet later = true → Q (.ok true) world)
    (hpaused : ∀ batch later world, T batch later world →
      (w.observe batch later).isQuiet later = false →
        I (w.observe batch later) (link.sleep poll world)) :
    Meets cutOff P (look link poll w) (Continues I Q) := by
  apply link.meets_clock_bind hnow
  intro now
  by_cases hopen : w.isExpired now
  · rw [if_pos hopen]
    exact Meets.pure _ fun world hworld => hexpired now world hworld hopen
  · rw [if_neg hopen]
    have hopen : w.isExpired now = false := Bool.eq_false_iff.mpr hopen
    apply link.meets_batch_bind (Q := Continues I Q)
      (fun world cause hworld => hfailed now world cause hworld hopen)
      fun world batch hworld => hreceived now world batch hworld hopen
    intro batch
    apply link.meets_clock_bind (hlater batch)
    intro later
    dsimp only
    by_cases hdone : (w.observe batch later).isQuiet later
    · rw [if_pos hdone]
      exact Meets.pure _ fun world hworld => hquiet batch later world hworld hdone
    · rw [if_neg hdone]
      have hloud := Bool.eq_false_iff.mpr hdone
      exact link.meets_pause_bind (fun world hworld => hpaused batch later world hworld hloud)
        (Meets.pure _ fun _ hnext => hnext)

/-- A watch, from what its loop owes when it begins with a fresh window. -/
theorem watch_meets {rounds : Nat} {bus : UInt8} {addresses : AddressSet} {timeout : Span}
    {settings : Settings} (hnow : ∀ world, P world → R (link.now world).1 (link.now world).2)
    (hrefused : timeout ≤ settings.quiet → ∀ now world, R now world →
      Q (.error .invalidParameter) world)
    (hloop : settings.quiet < timeout → ∀ now, Meets cutOff (R now)
      (Run.loop (look link settings.poll) rounds
        (Window.opening bus addresses timeout settings now)) Q) :
    Meets cutOff P (watch link rounds bus addresses timeout settings) Q := by
  apply Meets.note_bind
  apply link.meets_clock_bind hnow
  intro now
  by_cases hshort : timeout ≤ settings.quiet
  · rw [Window.open?, if_pos hshort]
    exact fun w hw => hrefused hshort now w.world hw
  · rw [Window.open?, if_neg hshort]
    exact hloop (Nat.not_le.mp hshort) now

/-- A watch sends nothing, so it keeps what nothing but sending can break. -/
theorem watch_keeps {I : σ → Prop} (h : link.Keeps I) (rounds : Nat) (bus : UInt8)
    (addresses : AddressSet) (timeout : Span) (settings : Settings) :
    Keeps True I (watch link rounds bus addresses timeout settings) := by
  have hlook : ∀ w, Meets True I (look link settings.poll w)
      (Continues (fun _ => I) fun _ : Except DiagnosticError Bool => I) := by
    intro w
    exact look_meets link (R := fun _ => I) (S := fun _ => I) (T := fun _ _ => I) h.now
      (fun _ _ hw _ => hw) (fun _ world _ hw _ _ => h.receive world hw)
      (fun _ world _ hw _ _ => h.receive world hw) (fun _ world hw => h.now world hw)
      (fun _ _ _ hw _ => hw) fun _ _ world hw _ => h.sleep settings.poll world hw
  exact watch_meets link (R := fun _ => I) h.now (fun _ _ _ hw => hw) fun _ _ =>
    Meets.loop hlook rounds _

end Contracts

end EcuQuiet.Silence
