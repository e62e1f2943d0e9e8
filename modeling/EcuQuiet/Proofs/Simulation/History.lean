import EcuQuiet.Proofs.Simulation.Alone
import EcuQuiet.Proofs.Simulation.Emission
import EcuQuiet.Proofs.Simulation.Requests

/-!
# Histories of networks

What can be done with a network, one thing after the other. Whatever it is, time does not go back,
units stay at their places, and it says of every unit alike what becomes of it: a reading takes what
is due, and a send that succeeds is heard. A unit that hears something adds to its outbox, and no
frame that it adds is due before the present time.
-/

namespace EcuQuiet.Simulation

/-- Something that is done with a network. A unit is attached as it was built: it has heard nothing,
so nothing waits in its outbox. -/
inductive Action
  | read
  | send (frames : List Frame)
  | schedule (delay : Span) (f : Frame)
  | attach (e : Ecu) (fresh : e.outbox = [])
  | advance (d : Span)
  | failNext (count : Nat)

/-! ### Units that hear something -/

namespace Ecu

/-- The second unit is what became of the first one when it heard something: it may have more to
say, but nothing that is due before. -/
structure Replied (e : Ecu) (now : Instant) (e' : Ecu) : Prop where
  bus : e'.bus = e.bus
  periodic : e'.periodic = e.periodic
  obeys : e'.obeys = e.obeys
  silenceDelay : e'.silenceDelay = e.silenceDelay
  outbox : ∃ added, e'.outbox = e.outbox ++ added ∧ ∀ x ∈ added, now ≤ x.1

namespace Replied

variable {e e' e'' : Ecu} {now : Instant}

/-- A unit that keeps its place, its periodic frames and its outbox has said nothing. -/
theorem silent (hbus : e'.bus = e.bus) (hperiodic : e'.periodic = e.periodic)
    (hobeys : e'.obeys = e.obeys) (hdelay : e'.silenceDelay = e.silenceDelay)
    (houtbox : e'.outbox = e.outbox) : Replied e now e' :=
  ⟨hbus, hperiodic, hobeys, hdelay, [], by rw [houtbox, List.append_nil],
    fun _ hx => absurd hx List.not_mem_nil⟩

theorem refl (e : Ecu) (now : Instant) : Replied e now e := .silent rfl rfl rfl rfl rfl

theorem trans (h : Replied e now e') (h' : Replied e' now e'') : Replied e now e'' := by
  obtain ⟨added, houtbox, hadded⟩ := h.outbox
  obtain ⟨more, houtbox', hmore⟩ := h'.outbox
  refine ⟨h'.bus.trans h.bus, h'.periodic.trans h.periodic, h'.obeys.trans h.obeys,
    h'.silenceDelay.trans h.silenceDelay, added ++ more, ?_, ?_⟩
  · rw [houtbox', houtbox, List.append_assoc]
  · exact List.forall_mem_append.mpr ⟨hadded, hmore⟩

end Replied

variable (e : Ecu) (now : Instant)

/-- A relation that hearing keeps: it holds of every change that does not show outside, and of
putting content into the outbox that is not due before. -/
structure HearingKeeps (now : Instant) (R : Ecu → Ecu → Prop) : Prop where
  refl : ∀ e, R e e
  trans : ∀ {e e' e''}, R e e' → R e' e'' → R e e''
  silent : ∀ {e e' : Ecu}, e'.bus = e.bus → e'.target = e.target → e'.periodic = e.periodic →
    e'.obeys = e.obeys → e'.silenceDelay = e.silenceDelay → e'.outbox = e.outbox → R e e'
  queue : ∀ (e : Ecu) {due : Instant}, now ≤ due → ∀ content, R e (e.queue due content)

namespace HearingKeeps

variable {now} {R : Ecu → Ecu → Prop} (h : HearingKeeps now R)

include h

theorem respond (response : Bytes) : R e (e.respond now response) := by
  rw [Ecu.respond]
  dsimp only
  split
  · exact h.queue e (Nat.le_add_right ..) _
  · exact h.trans (h.queue e (Nat.le_add_right ..) _) (h.silent rfl rfl rfl rfl rfl rfl)

theorem control (r : Uds.ControlRequest) : R e (e.control now r) := by
  have heffect : R e (if !e.obeys then e
      else if r.control.silences then { e with silencedAt := some (now + e.silenceDelay.nanos) }
      else { e with silencedAt := none }) := by
    split
    · exact h.refl e
    · split <;> exact h.silent rfl rfl rfl rfl rfl rfl
  rw [Ecu.control]
  split
  · exact heffect
  · exact h.trans heffect (h.respond ..)

theorem handle (request : Bytes) : R e (e.handle now request).1 := by
  have hkept : R e { e with requests := e.requests.push request } :=
    h.silent rfl rfl rfl rfl rfl rfl
  rw [Ecu.handle]
  dsimp only
  split
  · exact h.silent rfl rfl rfl rfl rfl rfl
  · split
    · exact h.trans hkept (h.control ..)
    · split
      · exact h.trans hkept (h.respond ..)
      · exact hkept

/-- What is still to come of a request does not show. -/
theorem incoming (incoming : Option Incoming) : R e { e with incoming } :=
  h.silent rfl rfl rfl rfl rfl rfl

theorem consecutive (head : UInt8) (content : Bytes) :
    R e (e.consecutive now head content).1 := by
  rw [Ecu.consecutive]
  split
  · exact h.refl e
  · split
    · exact h.incoming e none
    · dsimp only
      split
      · exact h.trans (h.incoming e none) (h.handle ..)
      · exact h.incoming e _

theorem sendBlock (o : Outgoing) (left sent : Nat) : R e (e.sendBlock now o left sent) := by
  induction left generalizing e o sent with
  | zero => exact h.silent rfl rfl rfl rfl rfl rfl
  | succ left ih =>
      rw [Ecu.sendBlock]
      split
      · exact h.silent rfl rfl rfl rfl rfl rfl
      · exact h.trans (h.queue e (Nat.le_add_right ..) _) (ih ..)

theorem proceed (content : Bytes) : R e (e.proceed now content) := by
  rw [Ecu.proceed]
  split
  · exact h.refl e
  · exact h.sendBlock ..

theorem hear (content : Bytes) : R e (e.hear now content).1 := by
  rw [Ecu.hear.eq_def]
  split
  · exact h.refl e
  · split
    · split
      · exact h.handle ..
      · exact h.refl e
    · split
      · exact h.trans (h.incoming e _) (h.queue _ (Nat.le_add_right ..) _)
      · exact h.refl e
    · exact h.consecutive ..
    · dsimp only
      split
      · exact h.proceed ..
      · exact h.refl e
    · exact h.refl e

theorem receive (f : Frame) : R e (e.receive now f).1 := by
  rw [Ecu.receive]
  split
  · split
    · exact h.refl e
    · exact h.hear ..
  · exact h.refl e

theorem receiveAll (frames : List Frame) : R e (e.receiveAll now frames) := by
  induction frames generalizing e with
  | nil => exact h.refl e
  | cons f rest ih => exact h.trans (h.receive e f) (ih _)

end HearingKeeps

theorem hearingKeeps_replied : HearingKeeps now fun e e' => Replied e now e' where
  refl e := .refl e now
  trans := .trans
  silent hbus _ := .silent hbus
  queue _ _ hdue _ := ⟨rfl, rfl, rfl, rfl, _, rfl, List.forall_mem_singleton.mpr hdue⟩

theorem replied_receive (f : Frame) : Replied e now (e.receive now f).1 :=
  (hearingKeeps_replied now).receive e f

theorem replied_receiveAll (frames : List Frame) : Replied e now (e.receiveAll now frames) :=
  (hearingKeeps_replied now).receiveAll e frames

end Ecu

/-! ### One action -/

namespace Network

/-- When the next reading ends if it begins now. -/
def readingEnd (n : Network) : Instant := n.clock + n.latency.nanos

/-- The network after an action. -/
def perform (n : Network) : Action → Network
  | .read => n.receive.world
  | .send frames => (send frames n).world
  | .schedule delay f => n.schedule delay f
  | .attach e _ => n.attach e
  | .advance d => n.advance d
  | .failNext count => n.failNext count

end Network

/-- What becomes of a unit that is attached when something is done with its network. -/
def Ecu.undergo (e : Ecu) (n : Network) : Action → Ecu
  | .read => (e.poll n.readingEnd).1
  | .send frames => if n.faults = 0 then e.receiveAll n.clock frames else e
  | _ => e

/-- Whatever is done but a reading, a unit only adds to its outbox. -/
theorem Ecu.replied_undergo (e : Ecu) (n : Network) {a : Action} (h : a ≠ .read) :
    e.Replied n.clock (e.undergo n a) := by
  cases a with
  | read => exact absurd rfl h
  | send frames =>
      rw [undergo]
      split
      · exact e.replied_receiveAll n.clock frames
      · exact .refl e n.clock
  | schedule | attach | advance | failNext => exact .refl e n.clock

namespace Action

/-- The units that come to a network with an action. -/
def attached (n : Network) : Action → List Ecu
  | attach e _ => [e.attachedAt n.clock]
  | read | send _ | schedule .. | advance _ | failNext _ => []

/-- Whether an action is a reading that ends at `t` or later. -/
def covers (n : Network) (t : Instant) : Action → Bool
  | read => t ≤ n.readingEnd
  | _ => false

theorem covers_iff {n : Network} {t : Instant} {a : Action} :
    a.covers n t ↔ a = read ∧ t ≤ n.readingEnd := by
  cases a with
  | read => simp [covers]
  | _ => simp [covers]

end Action

namespace Network

/-- Frames that are shown to all units are heard by each of them, one after the other. -/
theorem deliverAll_ecus (now : Instant) (frames : List Frame) (ecus : List Ecu) :
    (deliverAll now frames ecus).1 = ecus.map (·.receiveAll now frames) := by
  induction frames generalizing ecus with
  | nil => exact (List.map_id ecus).symm
  | cons f rest ih =>
      rw [deliverAll]
      dsimp only
      rw [ih, deliver, List.map_map, List.map_map]
      rfl

variable (n : Network) (a : Action)

/-- What an action makes of the units: each undergoes it, and then some may have come. -/
theorem ecus_perform : (n.perform a).ecus = n.ecus.map (·.undergo n a) ++ a.attached n := by
  cases a with
  | read => exact n.ecus_receive.trans (List.append_nil _).symm
  | send frames =>
      rw [perform, send]
      dsimp only [Ecu.undergo, Action.attached]
      rw [List.append_nil]
      cases n.faults with
      | zero => exact deliverAll_ecus n.clock frames n.ecus
      | succ faults => exact (List.map_id n.ecus).symm
  | attach e fresh => exact congrArg (· ++ _) (List.map_id n.ecus).symm
  | schedule | advance | failNext =>
      exact ((List.append_nil _).trans (List.map_id n.ecus)).symm

variable {n} {i : Nat} {e : Ecu}

/-- A unit stays at its place. -/
theorem unit_perform (h : n.ecus[i]? = some e) : (n.perform a).ecus[i]? = some (e.undergo n a) := by
  rw [ecus_perform, List.getElem?_append_left, List.getElem?_map, h]
  · rfl
  · rw [List.length_map]
    exact (List.getElem?_eq_some_iff.mp h).1

variable (n)

theorem clock_le_perform : n.clock ≤ (n.perform a).clock := by
  cases a with
  | send frames =>
      rw [perform, send]
      dsimp only
      split <;> exact Nat.le_refl _
  | read | advance => exact Nat.le_add_right ..
  | schedule | attach | failNext => exact Nat.le_refl _

/-! ### Many actions -/

/-- The network after a history of actions. -/
def after (actions : List Action) : Network := actions.foldl perform n

theorem after_cons (actions : List Action) : n.after (a :: actions) = (n.perform a).after actions :=
  rfl

theorem clock_le_after (actions : List Action) : n.clock ≤ (n.after actions).clock := by
  induction actions generalizing n with
  | nil => exact Nat.le_refl _
  | cons a rest ih => exact Nat.le_trans (n.clock_le_perform a) (ih _)

/-- The first reading of a history that ends at `t` or later: its position, counted from `i` on, and
the network that it finds. -/
def firstReading (t : Instant) : (i : Nat) → Network → List Action → Option (Nat × Network)
  | _, _, [] => none
  | i, n, a :: rest =>
    if a.covers n t then some (i, n) else firstReading t (i + 1) (n.perform a) rest

variable {n} {t : Instant} {m : Network} {actions : List Action} {j : Nat}

/-- What the first reading is: a reading that ends in time, when none before did. -/
theorem firstReading_eq_some_iff :
    firstReading t i n actions = some (j, m) ↔ ∃ k, j = i + k ∧ actions[k]? = some .read ∧
      m = n.after (actions.take k) ∧ t ≤ m.readingEnd ∧
      firstReading t i n (actions.take k) = none := by
  induction actions generalizing i n with
  | nil => simp [firstReading]
  | cons a rest ih =>
      rw [firstReading]
      by_cases hcovers : a.covers n t
      · rw [if_pos hcovers]
        obtain ⟨rfl, hend⟩ := Action.covers_iff.mp hcovers
        constructor
        · rintro ⟨rfl, rfl⟩
          exact ⟨0, rfl, rfl, rfl, hend, rfl⟩
        · rintro ⟨k, rfl, -, rfl, -, hnone⟩
          cases k with
          | zero => rfl
          | succ k =>
              rw [List.take_succ_cons, firstReading, if_pos hcovers] at hnone
              cases hnone
      · rw [if_neg hcovers, ih]
        constructor
        · rintro ⟨k, rfl, hread, rfl, hend, hnone⟩
          refine ⟨k + 1, Nat.add_right_comm i 1 k, hread, rfl, hend, ?_⟩
          rw [List.take_succ_cons, firstReading, if_neg hcovers]
          exact hnone
        · rintro ⟨k, rfl, hread, rfl, hend, hnone⟩
          cases k with
          | zero => exact absurd (Action.covers_iff.mpr ⟨Option.some.inj hread, hend⟩) hcovers
          | succ k =>
              rw [List.take_succ_cons, firstReading, if_neg hcovers] at hnone
              exact ⟨k, (Nat.add_right_comm i k 1).trans rfl, hread, rfl, hend, hnone⟩

end Network

end EcuQuiet.Simulation
