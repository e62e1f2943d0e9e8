import EcuQuiet.Proofs.Bus.Contract
import EcuQuiet.Scripted.Playback
import EcuQuiet.Simulation.Network

/-!
# How long runs last

Over a link on which only readings of the bus and pauses take time, a run lasts no longer than its
parts together. The bounds here are for runs that end: a run lasts for at most some time if it ends
from every world in which the passing of time is known, and ends no later than that after its
beginning.
-/

namespace EcuQuiet

variable {σ α β : Type}

/-- A link of which it is known how time passes as long as its worlds are `steady`: the clock shows
the time, a pause is no longer than it was meant to be, a reading of the bus takes some time but no
more than `most`, whether it fails or not, and sends take no time. -/
structure Link.Punctual (link : Link σ) (steady : σ → Prop) (time : σ → Instant) (most : Span) :
    Prop where
  now : ∀ w, steady w →
    (link.now w).1 = time w ∧ time (link.now w).2 = time w ∧ steady (link.now w).2
  sleep : ∀ d w, steady w →
    time w ≤ time (link.sleep d w) ∧ time (link.sleep d w) ≤ time w + d.nanos ∧
      steady (link.sleep d w)
  receive : ∀ w, steady w →
    time w < time (link.receive w).world ∧ time (link.receive w).world ≤ time w + most.nanos ∧
      steady (link.receive w).world
  send : ∀ frames w, steady w →
    time (link.send frames w).world = time w ∧ steady (link.send frames w).world

/-- The readings of a network all take its latency. -/
theorem Simulation.Network.link_punctual {latency : Span} (hpositive : 0 < latency.nanos) :
    link.Punctual (fun n => n.latency = latency) Network.clock latency where
  now _ hn := ⟨rfl, rfl, hn⟩
  sleep d n hn := ⟨Nat.le_add_right n.clock d.nanos, Nat.le_refl _, hn⟩
  receive n hn := by
    subst hn
    exact ⟨Nat.lt_add_of_pos_right hpositive, Nat.le_refl _, rfl⟩
  send frames n hn := by
    obtain ⟨clock, latency, ecus, scheduled, sent, faults, sends⟩ := n
    cases faults with
    | zero => exact ⟨rfl, hn⟩
    | succ faults => exact ⟨rfl, hn⟩

namespace Scripted.Playback

/-- A scripted bus whose readings all take some time, but no more than `most`. -/
structure Steady (most : Span) (p : Playback) : Prop where
  readings : ∀ r ∈ p.readings, 0 < r.takes.nanos ∧ r.takes ≤ most
  idle : 0 < p.idle.nanos ∧ p.idle ≤ most

theorem link_punctual (most : Span) : link.Punctual (Steady most) Playback.clock most where
  now _ hp := ⟨rfl, rfl, hp⟩
  sleep d p hp := ⟨Nat.le_add_right p.clock d.nanos, Nat.le_refl _, hp.readings, hp.idle⟩
  receive p hp := by
    obtain ⟨clock, idle, readings, faults, sent⟩ := p
    cases readings with
    | nil =>
        obtain ⟨hpositive, hmost⟩ := hp.idle
        exact ⟨Nat.lt_add_of_pos_right hpositive, Nat.add_le_add_left hmost _, hp.readings, hp.idle⟩
    | cons next readings =>
        obtain ⟨hnext, hreadings⟩ := List.forall_mem_cons.mp hp.readings
        exact ⟨Nat.lt_add_of_pos_right hnext.1, Nat.add_le_add_left hnext.2 _, hreadings, hp.idle⟩
  send frames p hp := by
    obtain ⟨clock, idle, readings, faults, sent⟩ := p
    cases faults with
    | nil => exact ⟨rfl, hp.readings, hp.idle⟩
    | cons fault faults => exact ⟨rfl, hp.readings, hp.idle⟩

end Scripted.Playback

namespace Run

/-- A steady world in which it is not later than `t`. -/
def By (steady : σ → Prop) (time : σ → Instant) (t : Instant) (w : σ) : Prop :=
  steady w ∧ time w ≤ t

variable {steady : σ → Prop} {time : σ → Instant}

theorem By.mono {t u : Instant} {w : σ} (h : By steady time t w) (htu : t ≤ u) :
    By steady time u w := ⟨h.1, Nat.le_trans h.2 htu⟩

/-- A run ends, no more than `most` after its beginning. -/
def Lasts (steady : σ → Prop) (time : σ → Instant) (x : Run σ α) (most : Nat) : Prop :=
  ∀ t, Meets False (By steady time t) x fun _ => By steady time (t + most)

variable {x : Run σ α} {f : α → Run σ β} {most more : Nat}

/-- When a run of bounded time began, it had some time to end. -/
theorem Lasts.exists_end (h : Lasts steady time x most) {w : Logged σ} (hw : steady w.world) :
    ∃ result after, x w = some (result, after) ∧ steady after.world ∧
      time after.world ≤ time w.world + most :=
  (h (time w.world)).exists_end ⟨hw, Nat.le_refl _⟩

theorem Lasts.mono (h : Lasts steady time x most) (hmore : most ≤ more) :
    Lasts steady time x more :=
  fun t => (h t).mono fun _ _ hw => hw.mono (Nat.add_le_add_left hmore t)

/-- A run may be bounded from each of its beginnings. -/
theorem Lasts.of_forall
    (h : ∀ w, steady w → Meets False (· = w) x fun _ => By steady time (time w + most)) :
    Lasts steady time x most := by
  intro t w hw
  refine ((h w.world hw.1).mono fun _ after hafter => ?_) w rfl
  exact hafter.mono (Nat.add_le_add_right hw.2 most)

theorem Lasts.pure (a : α) : Lasts steady time (Pure.pure a : Run σ α) 0 :=
  fun _ => Meets.pure a fun _ hw => hw

theorem Lasts.ofExcept (r : Except DiagnosticError α) :
    Lasts steady time (ofExcept r : Run σ α) 0 := fun _ => Meets.ofExcept r fun _ hw => hw

/-- A sequence lasts no longer than its parts together. -/
theorem Lasts.bind (hx : Lasts steady time x most) (hf : ∀ a, Lasts steady time (f a) more) :
    Lasts steady time (x >>= f) (most + more) := by
  intro t
  refine Meets.bind (hx t) (fun _ _ hw => ?_) fun a => ?_
  · exact hw.mono (Nat.add_le_add_left (Nat.le_add_right most more) t)
  · rw [← Nat.add_assoc]
    exact hf a (t + most)

/-- What takes no time does not prolong what went before it. -/
theorem Lasts.bind_instant (hx : Lasts steady time x most) (hf : ∀ a, Lasts steady time (f a) 0) :
    Lasts steady time (x >>= f) most := hx.bind hf

theorem Lasts.ofExcept_bind (r : Except DiagnosticError α)
    (hf : ∀ a, Lasts steady time (f a) more) : Lasts steady time (Run.ofExcept r >>= f) more := by
  have hbind := (Lasts.ofExcept r).bind hf
  rwa [Nat.zero_add] at hbind

theorem Lasts.note_bind (n : Note) {f : Unit → Run σ β} (h : Lasts steady time (f ()) more) :
    Lasts steady time (note n >>= f) more := fun t => Meets.note_bind n (h t)

theorem Lasts.noteAll_bind (notes : List Note) {f : Unit → Run σ β}
    (h : Lasts steady time (f ()) more) : Lasts steady time (noteAll notes >>= f) more :=
  fun t => Meets.noteAll_bind notes (h t)

variable {link : Link σ} {longest : Span}

theorem Lasts.pause (hlink : link.Punctual steady time longest) (d : Span) :
    Lasts steady time (link.pause d) d.nanos := by
  intro t w hw
  obtain ⟨-, hlater, hsteady⟩ := hlink.sleep d w.world hw.1
  exact ⟨hsteady, Nat.le_trans hlater (Nat.add_le_add_right hw.2 _)⟩

end Run

end EcuQuiet
