import EcuQuiet.Simulation.Network
import Mathlib.Data.List.Basic

/-!
# What a network puts on its buses

As long as nothing is sent to it, a network puts a fixed collection of timed frames on its buses:
what is scheduled, what waits in the outboxes of its units, and the periodic frames up to the time
at which their unit was silenced. A reading takes those of them that are due by its end, however
long ago they became due, and leaves the others.
-/

namespace EcuQuiet.Simulation

theorem mem_insertTimed {t x : Timed} {frames : List Timed} :
    x ∈ insertTimed t frames ↔ x = t ∨ x ∈ frames := by
  induction frames with
  | nil => simp [insertTimed]
  | cons u rest ih =>
      rw [insertTimed]
      split
      · exact List.mem_cons
      · rw [List.mem_cons, ih, List.mem_cons, or_left_comm]

theorem mem_inOrder {x : Timed} {frames : List Timed} : x ∈ inOrder frames ↔ x ∈ frames := by
  induction frames with
  | nil => exact Iff.rfl
  | cons t rest ih =>
      have hinserted : inOrder (t :: rest) = insertTimed t (inOrder rest) := rfl
      rw [hinserted, mem_insertTimed, ih, List.mem_cons]

theorem pairwise_insertTimed {t : Timed} {frames : List Timed}
    (h : frames.Pairwise (·.1 ≤ ·.1)) : (insertTimed t frames).Pairwise (·.1 ≤ ·.1) := by
  induction frames with
  | nil => exact List.pairwise_singleton ..
  | cons u rest ih =>
      obtain ⟨hfirst, hrest⟩ := List.pairwise_cons.mp h
      rw [insertTimed]
      split
      next hle =>
        refine List.pairwise_cons.mpr ⟨fun x hx => ?_, h⟩
        obtain rfl | hx := List.mem_cons.mp hx
        · exact hle
        · exact Nat.le_trans hle (hfirst x hx)
      next hlater =>
        refine List.pairwise_cons.mpr ⟨fun x hx => ?_, ih hrest⟩
        obtain rfl | hx := mem_insertTimed.mp hx
        · exact Nat.le_of_not_le hlater
        · exact hfirst x hx

theorem pairwise_inOrder (frames : List Timed) : (inOrder frames).Pairwise (·.1 ≤ ·.1) := by
  induction frames with
  | nil => exact .nil
  | cons t rest ih => exact pairwise_insertTimed ih

/-- A frame goes in front of all that are not earlier. -/
theorem insertTimed_of_le {t : Timed} {frames : List Timed} (h : ∀ x ∈ frames, t.1 ≤ x.1) :
    insertTimed t frames = t :: frames := by
  cases frames with
  | nil => rfl
  | cons u rest => rw [insertTimed, if_pos (h u List.mem_cons_self)]

theorem filter_insertTimed {t : Timed} {frames : List Timed} (p : Timed → Bool)
    (h : frames.Pairwise (·.1 ≤ ·.1)) :
    (insertTimed t frames).filter p =
      if p t then insertTimed t (frames.filter p) else frames.filter p := by
  induction frames with
  | nil => exact List.filter_cons
  | cons u rest ih =>
      obtain ⟨hfirst, hrest⟩ := List.pairwise_cons.mp h
      rw [insertTimed]
      split
      next hle =>
        have hall : ∀ x ∈ (u :: rest).filter p, t.1 ≤ x.1 := by
          intro x hx
          obtain rfl | hx := List.mem_cons.mp (List.mem_of_mem_filter hx)
          · exact hle
          · exact Nat.le_trans hle (hfirst x hx)
        rw [insertTimed_of_le hall, List.filter_cons]
      next hlater =>
        rw [List.filter_cons, ih hrest, List.filter_cons]
        by_cases hu : p u
        · rw [if_pos hu, if_pos hu, insertTimed, if_neg hlater, apply_ite (u :: ·)]
        · rw [if_neg hu, if_neg hu]

/-- Some of the frames in the order of time are these frames in the order of time. -/
theorem filter_inOrder (p : Timed → Bool) (frames : List Timed) :
    (inOrder frames).filter p = inOrder (frames.filter p) := by
  induction frames with
  | nil => rfl
  | cons t rest ih =>
      have hinserted : inOrder (t :: rest) = insertTimed t (inOrder rest) := rfl
      rw [hinserted, filter_insertTimed p (pairwise_inOrder rest), ih, List.filter_cons]
      by_cases ht : p t
      · rw [if_pos ht, if_pos ht]
        rfl
      · rw [if_neg ht, if_neg ht]

namespace Periodic

/-- A moment at which an entry is due, now or later. -/
def DueAt (p : Periodic) (t : Instant) : Prop := ∃ k, t = p.due + k * p.period.nanos

theorem lt_count_iff {p : Periodic} {now : Instant} {k : Nat} :
    k < p.count now ↔ p.due + k * p.period.nanos ≤ now := by
  rw [count]
  split
  next hdue => rw [Nat.lt_succ_iff, Nat.le_div_iff_mul_le p.positive, Nat.le_sub_iff_add_le' hdue]
  next hdue =>
    exact iff_of_false (Nat.not_lt_zero k) fun h => hdue (Nat.le_trans (Nat.le_add_right ..) h)

theorem mem_moments {p : Periodic} {now t : Instant} :
    t ∈ p.moments now ↔ t ≤ now ∧ p.DueAt t := by
  simp only [moments, List.mem_map, List.mem_range, lt_count_iff, DueAt]
  constructor
  · rintro ⟨k, hk, rfl⟩
    exact ⟨hk, k, rfl⟩
  · rintro ⟨hnow, k, rfl⟩
    exact ⟨k, hnow, rfl⟩

/-- The moments of the entry that is left are the later ones. -/
theorem past_dueAt {p : Periodic} {now t : Instant} :
    (p.past now).DueAt t ↔ now < t ∧ p.DueAt t := by
  have hsum : ∀ k, p.due + p.count now * p.period.nanos + k * p.period.nanos =
      p.due + (p.count now + k) * p.period.nanos := by
    intro k
    rw [Nat.add_mul, Nat.add_assoc]
  simp only [DueAt, past, hsum]
  constructor
  · rintro ⟨k, rfl⟩
    have hlater := mt lt_count_iff.mpr (Nat.not_lt.mpr (Nat.le_add_right (p.count now) k))
    exact ⟨Nat.not_le.mp hlater, _, rfl⟩
  · rintro ⟨hnow, k, rfl⟩
    have hcount := Nat.not_lt.mp (mt lt_count_iff.mp (Nat.not_le.mpr hnow))
    exact ⟨k - p.count now, by rw [Nat.add_sub_cancel' hcount]⟩

end Periodic

namespace Ecu

/-- The frames, with their times, that a unit puts on its bus as long as it hears nothing. -/
def Emits (e : Ecu) (x : Timed) : Prop :=
  x ∈ e.outbox ∨ ∃ p ∈ e.periodic, p.DueAt x.1 ∧ e.silencedAt.all (x.1 < ·) = true ∧
    x.2 = { address := p.address, bus := e.bus, data := p.data }

theorem mem_periodicFrames {e : Ecu} {now : Instant} {x : Timed} :
    x ∈ e.periodicFrames now ↔ x.1 ≤ now ∧ ∃ p ∈ e.periodic, p.DueAt x.1 ∧
      e.silencedAt.all (x.1 < ·) = true ∧
      x.2 = { address := p.address, bus := e.bus, data := p.data } := by
  obtain ⟨t, f⟩ := x
  simp only [periodicFrames, List.mem_flatMap, List.mem_map, List.mem_filter, Prod.mk.injEq,
    Periodic.mem_moments]
  constructor
  · rintro ⟨p, hp, t, ⟨⟨hnow, hdue⟩, hloud⟩, rfl, rfl⟩
    exact ⟨hnow, p, hp, hdue, hloud, rfl⟩
  · rintro ⟨hnow, p, hp, hdue, hloud, rfl⟩
    exact ⟨p, hp, t, ⟨⟨hnow, hdue⟩, hloud⟩, rfl, rfl⟩

theorem mem_poll {e : Ecu} {now : Instant} {x : Timed} :
    x ∈ (e.poll now).2 ↔ x.1 ≤ now ∧ e.Emits x := by
  simp only [poll, List.partition_eq_filter_filter, List.mem_append, mem_periodicFrames,
    List.mem_filter, decide_eq_true_eq, Emits]
  constructor
  · rintro (⟨hnow, hx⟩ | ⟨hx, hnow⟩)
    · exact ⟨hnow, .inr hx⟩
    · exact ⟨hnow, .inl hx⟩
  · rintro ⟨hnow, hx | hx⟩
    · exact .inr ⟨hx, hnow⟩
    · exact .inl ⟨hnow, hx⟩

theorem poll_emits {e : Ecu} {now : Instant} {x : Timed} :
    (e.poll now).1.Emits x ↔ now < x.1 ∧ e.Emits x := by
  have hwaiting : x ∈ (e.poll now).1.outbox ↔ now < x.1 ∧ x ∈ e.outbox := by
    simp [poll, List.partition_eq_filter_filter, and_comm]
  have hperiodic : (e.poll now).1.periodic = e.periodic.map (·.past now) := rfl
  simp only [Emits, hwaiting, hperiodic, List.mem_map, exists_exists_and_eq_and,
    Periodic.past_dueAt]
  constructor
  · rintro (⟨hnow, hx⟩ | ⟨p, hp, ⟨hnow, hdue⟩, hloud, hframe⟩)
    · exact ⟨hnow, .inl hx⟩
    · exact ⟨hnow, .inr ⟨p, hp, hdue, hloud, hframe⟩⟩
  · rintro ⟨hnow, hx | ⟨p, hp, hdue, hloud, hframe⟩⟩
    · exact .inl ⟨hnow, hx⟩
    · exact .inr ⟨p, hp, ⟨hnow, hdue⟩, hloud, hframe⟩

end Ecu

namespace Network

/-- The frames, with their times, that a network puts on its buses as long as nothing is sent to
it. -/
def Emits (n : Network) (x : Timed) : Prop := x ∈ n.scheduled ∨ ∃ e ∈ n.ecus, e.Emits x

theorem mem_collect {n : Network} {x : Timed} :
    x ∈ n.collect.2 ↔ x.1 ≤ n.clock ∧ n.Emits x := by
  simp only [collect, List.partition_eq_filter_filter, mem_inOrder, List.mem_append,
    List.mem_filter, decide_eq_true_eq, List.mem_flatMap, List.mem_map, exists_exists_and_eq_and,
    Ecu.mem_poll, Emits]
  constructor
  · rintro (⟨hx, hnow⟩ | ⟨e, he, hnow, hx⟩)
    · exact ⟨hnow, .inl hx⟩
    · exact ⟨hnow, .inr ⟨e, he, hx⟩⟩
  · rintro ⟨hnow, hx | ⟨e, he, hx⟩⟩
    · exact .inl ⟨hx, hnow⟩
    · exact .inr ⟨e, he, hnow, hx⟩

theorem collect_emits {n : Network} {x : Timed} :
    n.collect.1.Emits x ↔ n.clock < x.1 ∧ n.Emits x := by
  have hwaiting : x ∈ n.collect.1.scheduled ↔ n.clock < x.1 ∧ x ∈ n.scheduled := by
    simp [collect, List.partition_eq_filter_filter, and_comm]
  have hecus : n.collect.1.ecus = n.ecus.map fun e => (e.poll n.clock).1 := by
    simp [collect]
  simp only [Emits, hwaiting, hecus, List.mem_map, exists_exists_and_eq_and, Ecu.poll_emits]
  constructor
  · rintro (⟨hnow, hx⟩ | ⟨e, he, hnow, hx⟩)
    · exact ⟨hnow, .inl hx⟩
    · exact ⟨hnow, .inr ⟨e, he, hx⟩⟩
  · rintro ⟨hnow, hx | ⟨e, he, hx⟩⟩
    · exact .inl ⟨hnow, hx⟩
    · exact .inr ⟨e, he, hnow, hx⟩

/-- A reading yields what the network puts on its buses by its end. -/
theorem receive_yields (n : Network) :
    ∃ batch, n.receive.result = .ok batch ∧ ∀ f,
      f ∈ batch ↔ ∃ t ≤ n.clock + n.latency.nanos, n.Emits (t, f) := by
  refine ⟨(n.advance n.latency).collect.2.map (·.2), rfl, fun f => ?_⟩
  simp only [List.mem_map, mem_collect]
  constructor
  · rintro ⟨⟨t, f⟩, ⟨hnow, hx⟩, rfl⟩
    exact ⟨t, hnow, hx⟩
  · rintro ⟨t, hnow, hx⟩
    exact ⟨(t, f), ⟨hnow, hx⟩, rfl⟩

/-- The batch of a reading holds no other frames than these. -/
theorem mem_batch_iff {n : Network} {batch : List Frame} (h : n.receive.result = .ok batch)
    {f : Frame} : f ∈ batch ↔ ∃ t ≤ n.clock + n.latency.nanos, n.Emits (t, f) := by
  obtain ⟨held, hheld, hyields⟩ := n.receive_yields
  obtain rfl : held = batch := Except.ok.inj (hheld.symm.trans h)
  exact hyields f

/-- What a reading leaves is what becomes due after its end. -/
theorem receive_emits {n : Network} {x : Timed} :
    n.receive.world.Emits x ↔ n.clock + n.latency.nanos < x.1 ∧ n.Emits x := collect_emits

end Network

end EcuQuiet.Simulation
