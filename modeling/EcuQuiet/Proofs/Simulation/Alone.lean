import EcuQuiet.Proofs.IsoTp.Queries
import EcuQuiet.Simulation.Network

/-!
# A network of one unit

What a tester meets on a network that has one unit and on which nothing else is to come: a reading
yields what the unit had to say by its end, in order, and sending shows frames to the unit.
-/

namespace EcuQuiet

namespace Simulation

/-- Frames that are in the order of time stay as they are. -/
theorem inOrder_of_pairwise {frames : List Timed} (h : frames.Pairwise (·.1 ≤ ·.1)) :
    inOrder frames = frames := by
  induction frames with
  | nil => rfl
  | cons frame rest ih =>
      obtain ⟨hfirst, hrest⟩ := List.pairwise_cons.mp h
      have hinserted : inOrder (frame :: rest) = insertTimed frame (inOrder rest) := rfl
      rw [hinserted, ih hrest]
      cases rest with
      | nil => rfl
      | cons next rest => rw [insertTimed, if_pos (hfirst next List.mem_cons_self)]

namespace Ecu

/-- The unit after frames were shown to it, one after the other. -/
def receiveAll (now : Instant) (frames : List Frame) (e : Ecu) : Ecu :=
  frames.foldl (fun e f => (e.receive now f).1) e

theorem receiveAll_cons (now : Instant) (f : Frame) (rest : List Frame) (e : Ecu) :
    receiveAll now (f :: rest) e = receiveAll now rest (e.receive now f).1 := rfl

/-- What a unit without periodic frames has to say comes out of its outbox. -/
theorem poll_of_quiet {e : Ecu} (h : e.periodic = []) (now : Instant) :
    e.poll now =
      ({ e with outbox := e.outbox.filter fun x => !decide (x.1 ≤ now) },
        e.outbox.filter (·.1 ≤ now)) := by
  obtain ⟨bus, address, subAddress, responses, periodic⟩ := e
  subst h
  rw [poll, List.partition_eq_filter_filter]
  rfl

end Ecu

/-- A network of one unit on which nothing else is to come. -/
structure Alone (n : Network) (e : Ecu) : Prop where
  ecus : n.ecus = [e]
  scheduled : n.scheduled = []
  faults : n.faults = 0

namespace Alone

variable {w : Logged Network} {e : Ecu}

theorem batch (h : Alone w.world e) (hquiet : e.periodic = [])
    (hsorted : e.outbox.Pairwise (·.1 ≤ ·.1)) {now : Instant}
    (hnow : now = w.world.clock + w.world.latency.nanos) :
    ∃ after : Logged Network,
      Network.link.batch w = some (.ok ((e.outbox.filter (·.1 ≤ now)).map (·.2)), after) ∧
      Alone after.world { e with outbox := e.outbox.filter fun x => !decide (x.1 ≤ now) } ∧
      after.world.clock = now ∧ after.world.latency = w.world.latency := by
  obtain ⟨⟨clock, latency, ecus, scheduled, sent, faults, sends⟩, notes⟩ := w
  obtain ⟨hecus, hscheduled, hfaults⟩ := h
  dsimp only at hecus hscheduled hfaults hnow
  subst hecus hscheduled hfaults hnow
  have hready : inOrder (e.outbox.filter (·.1 ≤ clock + latency.nanos)) =
      e.outbox.filter (·.1 ≤ clock + latency.nanos) :=
    inOrder_of_pairwise (hsorted.filter _)
  refine ⟨⟨⟨clock + latency.nanos, latency, [(e.poll (clock + latency.nanos)).1], [], sent, 0,
    sends⟩, notes ++ ([] : List Note)⟩, ?_, ⟨by rw [Ecu.poll_of_quiet hquiet], rfl, rfl⟩, rfl, rfl⟩
  rw [Link.batch]
  simp only [Network.link, Network.receive, Network.advance, Network.collect,
    List.partition_eq_filter_filter, List.filter_nil, List.map_cons, List.map_nil,
    List.flatMap_cons, List.flatMap_nil, List.append_nil, List.nil_append,
    Ecu.poll_of_quiet hquiet, hready]
  rfl

/-- Everything that is sent is shown to the unit at once. -/
theorem perform (h : Alone w.world e) (outputs : List IsoTp.Output) :
    ∃ after : Logged Network,
      IsoTp.Output.perform Network.link outputs w = some (.ok (), after) ∧
      Alone after.world (e.receiveAll w.world.clock (IsoTp.Output.frames outputs)) ∧
      after.world.clock = w.world.clock ∧ after.world.latency = w.world.latency := by
  induction outputs generalizing w e with
  | nil => exact ⟨w, rfl, h, rfl, rfl⟩
  | cons output rest ih =>
      cases output with
      | note event =>
          have hnoted : Alone (w.note event).world e := h
          exact ih hnoted
      | send frame =>
          obtain ⟨⟨clock, latency, ecus, scheduled, sent, faults, sends⟩, notes⟩ := w
          obtain ⟨hecus, hscheduled, hfaults⟩ := h
          dsimp only at hecus hscheduled hfaults
          subst hecus hscheduled hfaults
          have hsent : Alone
              ⟨clock, latency, [(e.receive clock frame).1], [], sent ++ [(clock, frame)], 0,
                sends + 1⟩ (e.receive clock frame).1 := ⟨rfl, rfl, rfl⟩
          obtain ⟨after, hrun, hafter⟩ := @ih ⟨_, _⟩ _ hsent
          exact ⟨after, hrun, hafter⟩

end Alone

end Simulation

end EcuQuiet
