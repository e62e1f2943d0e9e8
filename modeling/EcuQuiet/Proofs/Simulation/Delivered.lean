import EcuQuiet.Proofs.Simulation.History
import Mathlib.Data.List.Perm.Basic

/-!
# What the readings of a network deliver

A network holds promises: frames that wait for their time, and periodic entries of its units, which
go on for ever. A history adds to them when frames are scheduled, units are attached, and units
reply. Every frame that is promised comes with the first reading that ends when it is due or later,
and with no other one, unless it is periodic and that reading finds its unit silenced by then. All
readings together deliver their frames in the order of time.
-/

namespace EcuQuiet.Simulation

/-! ### Order -/

theorem insertTimed_perm (t : Timed) (frames : List Timed) :
    (insertTimed t frames).Perm (t :: frames) := by
  induction frames with
  | nil => exact .refl _
  | cons u rest ih =>
      rw [insertTimed]
      split
      · exact .refl _
      · exact (ih.cons u).trans (.swap t u rest)

/-- Bringing frames in order neither loses nor doubles one. -/
theorem inOrder_perm (frames : List Timed) : (inOrder frames).Perm frames := by
  induction frames with
  | nil => exact .refl _
  | cons t rest ih => exact (insertTimed_perm t (inOrder rest)).trans (ih.cons t)

namespace Periodic

variable {p : Periodic} {now later : Instant}

theorem count_mono (h : now ≤ later) : p.count now ≤ p.count later := by
  by_contra hless
  have hlast := lt_count_iff.mp (Nat.not_le.mp hless)
  exact Nat.lt_irrefl _ (lt_count_iff.mpr (Nat.le_trans hlast h))

/-- What became due by a later time had become due before, or is due in the entry that was left. -/
theorem count_past (h : now ≤ later) :
    p.count later = p.count now + (p.past now).count later := by
  have hlt : ∀ k, k < (p.past now).count later ↔ p.count now + k < p.count later := by
    intro k
    rw [lt_count_iff, lt_count_iff, past, Nat.add_mul, Nat.add_assoc]
  have hmono := count_mono (p := p) h
  have hat := hlt ((p.past now).count later)
  have hbefore := hlt (p.count later - p.count now)
  omega

/-- However many moments of an entry are looked at, those that are not later than `now` are the
ones at which it became due by then. -/
theorem moments_eq_filter (p : Periodic) (now : Instant) : p.moments now =
    ((List.range (now + 1)).map fun k => p.due + k * p.period.nanos).filter (· ≤ now) := by
  have hcount : p.count now ≤ now + 1 := by
    by_contra hmore
    have hlast := lt_count_iff.mp (Nat.not_le.mp hmore)
    have hlong := Nat.le_mul_of_pos_right (now + 1) p.positive
    exact Nat.not_succ_le_self now (Nat.le_trans hlong (Nat.le_trans (Nat.le_add_left ..) hlast))
  obtain ⟨more, hmore⟩ := Nat.exists_eq_add_of_le hcount
  rw [hmore, List.range_add, List.map_append, List.filter_append, List.filter_eq_self.mpr ?due,
    List.filter_eq_nil_iff.mpr ?later, List.append_nil, moments]
  case due =>
    exact List.forall_mem_map.mpr fun k hk =>
      decide_eq_true (lt_count_iff.mp (List.mem_range.mp hk))
  case later =>
    rw [List.map_map]
    refine List.forall_mem_map.mpr fun k _ hdue => ?_
    have hlt := lt_count_iff.mpr (of_decide_eq_true hdue)
    exact Nat.not_lt.mpr (Nat.le_add_right ..) hlt

theorem moments_past (h : now ≤ later) :
    p.moments later = p.moments now ++ (p.past now).moments later := by
  rw [moments, count_past h, List.range_add, List.map_append, List.map_map]
  refine congrArg (p.moments now ++ ·) (List.map_congr_left fun k _ => ?_)
  show p.due + (p.count now + k) * p.period.nanos =
    p.due + p.count now * p.period.nanos + k * p.period.nanos
  rw [Nat.add_mul, Nat.add_assoc]

end Periodic

/-! ### Promises -/

/-- What a network has yet to put on its buses: a frame that waits for its time, or the further
frames of a periodic entry of the unit at some place. -/
inductive Promise
  | once (x : Timed)
  | entry (unit : Nat) (bus : UInt8) (p : Periodic)

namespace Promise

/-- Its frames that are due by `now`, each with the moment at which it is due. In an entry, one
frame is due and then another one after every period, so no more than `now + 1` of them. -/
def dueBy (now : Instant) : Promise → List Timed
  | once x => [x].filter (·.1 ≤ now)
  | entry _ bus p =>
    ((List.range (now + 1)).map fun k =>
      (p.due + k * p.period.nanos,
        { address := p.address, bus, data := p.data })).filter (·.1 ≤ now)

/-- Whether its frame of the moment `t` is transmitted as the network is now: a periodic one is not
if its unit was silenced by then. -/
def keeps (n : Network) (t : Instant) : Promise → Bool
  | once _ => true
  | entry unit .. => n.ecus[unit]?.all fun e => e.silencedAt.all (t < ·)

/-- What is left of it once the frames that are due by `now` were taken. -/
def left (now : Instant) : Promise → Option Promise
  | once x => if x.1 ≤ now then none else some (once x)
  | entry unit bus p => some (entry unit bus (p.past now))

/-- When its next frame is due. -/
def due : Promise → Instant
  | once x => x.1
  | entry _ _ p => p.due

/-- What a history delivers of it: each of its frames with the first reading that ends when it is
due or later, together with the position of that reading. -/
def deliveries (i : Nat) (n : Network) (actions : List Action) (pr : Promise) :
    List (Nat × Timed) :=
  (pr.dueBy (n.after actions).clock).filterMap fun x =>
    ((Network.firstReading x.1 i n actions).filter fun r => pr.keeps r.2 x.1).map fun r => (r.1, x)

end Promise

/-- What a unit has yet to put on its bus. -/
def Ecu.promises (e : Ecu) (unit : Nat) : List Promise :=
  e.periodic.map (.entry unit e.bus) ++ e.outbox.map .once

/-- What a network has yet to put on its buses. -/
def Network.promises (n : Network) : List Promise :=
  n.scheduled.map .once ++ n.ecus.zipIdx.flatMap fun u => u.1.promises u.2

/-- What an action adds to the promises of a network: a frame with its delay, the entries of a unit
from the present time on, or what the units put into their outboxes when they hear something. -/
def Action.promises (n : Network) : Action → List Promise
  | schedule delay f => [.once (n.clock + delay.nanos, f)]
  | attach e _ => e.periodic.map fun p => .entry n.ecus.length e.bus { p with due := n.clock }
  | send frames => (n.ecus.zip (n.perform (.send frames)).ecus).flatMap fun (e, e') =>
    (e'.outbox.drop e.outbox.length).map .once
  | read | advance _ | failNext _ => []

/-- The deliveries of all that is added to the promises in the course of a history. -/
def promised : Nat → Network → List Action → List (Nat × Timed)
  | _, _, [] => []
  | i, n, a :: rest =>
    (a.promises n).flatMap (Promise.deliveries (i + 1) (n.perform a) rest) ++
      promised (i + 1) (n.perform a) rest

namespace Network

/-- The batch that an action yields: a reading yields one. -/
def batch (n : Network) : Action → List Frame
  | .read => n.receive.result.toOption.getD []
  | _ => []

/-- All batches of a history, one after the other, each frame with the position of its reading. -/
def received : Nat → Network → List Action → List (Nat × Frame)
  | _, _, [] => []
  | i, n, a :: rest => (n.batch a).map (i, ·) ++ received (i + 1) (n.perform a) rest

/-- What an action takes out of a network. -/
def taken (n : Network) : Action → List Timed
  | .read => (n.advance n.latency).collect.2
  | _ => []

/-- All that a history takes out of a network, with the times at which it was due. -/
def delivered : Nat → Network → List Action → List (Nat × Timed)
  | _, _, [] => []
  | i, n, a :: rest => (n.taken a).map (i, ·) ++ delivered (i + 1) (n.perform a) rest

theorem map_taken (n : Network) (a : Action) : (n.taken a).map (·.2) = n.batch a := by
  cases a <;> rfl

/-- The batches hold what is taken. -/
theorem map_delivered (i : Nat) (n : Network) (actions : List Action) :
    (delivered i n actions).map (fun d => (d.1, d.2.2)) = received i n actions := by
  induction actions generalizing i n with
  | nil => rfl
  | cons a rest ih =>
      rw [delivered, received, List.map_append, ih, ← map_taken, List.map_map, List.map_map]
      rfl

end Network

/-! ### What an action does to the promises -/

namespace Promise

variable {n : Network} {pr pr' : Promise} {now later : Instant} {x : Timed}

theorem dueBy_entry (now : Instant) (unit : Nat) (bus : UInt8) (p : Periodic) :
    dueBy now (.entry unit bus p) =
      (p.moments now).map fun t => (t, { address := p.address, bus, data := p.data }) := by
  rw [dueBy, Periodic.moments_eq_filter, List.filter_map, List.filter_map, List.map_map]
  rfl

theorem mem_dueBy (h : x ∈ pr.dueBy now) : pr.due ≤ x.1 ∧ x.1 ≤ now := by
  cases pr with
  | once y =>
      rw [dueBy, List.mem_filter, List.mem_singleton, decide_eq_true_eq] at h
      obtain ⟨rfl, hnow⟩ := h
      exact ⟨Nat.le_refl _, hnow⟩
  | entry unit bus p =>
      rw [dueBy_entry] at h
      obtain ⟨t, ht, rfl⟩ := List.mem_map.mp h
      obtain ⟨hnow, k, rfl⟩ := Periodic.mem_moments.mp ht
      exact ⟨Nat.le_add_right .., hnow⟩

theorem lt_due_of_left (h : pr.left now = some pr') : now < pr'.due := by
  cases pr with
  | once x =>
      rw [left] at h
      split at h
      · cases h
      next hlater =>
        cases h
        exact Nat.not_le.mp hlater
  | entry unit bus p =>
      cases h
      have hdue : (p.past now).DueAt (p.past now).due := ⟨0, by rw [Nat.zero_mul, Nat.add_zero]⟩
      exact (Periodic.past_dueAt.mp hdue).1

theorem keeps_of_left (h : pr.left now = some pr') (n : Network) (t : Instant) :
    pr'.keeps n t = pr.keeps n t := by
  cases pr with
  | once x =>
      rw [left] at h
      split at h
      · cases h
      · cases h
        rfl
  | entry unit bus p =>
      cases h
      rfl

/-- What is due by a later time was due before, or is due in what was left. -/
theorem dueBy_left (h : now ≤ later) (pr : Promise) :
    pr.dueBy later = pr.dueBy now ++ (pr.left now).toList.flatMap (dueBy later) := by
  cases pr with
  | once x =>
      rw [left]
      split
      next hdue => simp [dueBy, hdue, Nat.le_trans hdue h]
      next hlater => simp [dueBy, hlater]
  | entry unit bus p =>
      rw [left, Option.toList_some, List.flatMap_singleton, dueBy_entry, dueBy_entry, dueBy_entry,
        Periodic.moments_past h, List.map_append]
      rfl

/-- What a reading of the network takes of a promise: what is due by its end and kept. -/
def takenBy (n : Network) (pr : Promise) : List Timed :=
  (pr.dueBy n.readingEnd).filter fun x => pr.keeps n x.1

variable {i : Nat} {a : Action} {rest : List Action}

theorem deliveries_of_ne_read (h : a ≠ .read) :
    pr.deliveries i n (a :: rest) = pr.deliveries (i + 1) (n.perform a) rest := by
  have hfirst : ∀ t, Network.firstReading t i n (a :: rest) =
      Network.firstReading t (i + 1) (n.perform a) rest := fun t =>
    if_neg fun hcovers => h (Action.covers_iff.mp hcovers).1
  simp only [deliveries, hfirst, Network.after_cons]

/-- A reading delivers what it takes, and what is left is delivered later. -/
theorem deliveries_read :
    pr.deliveries i n (.read :: rest) = (pr.takenBy n).map (i, ·) ++
      (pr.left n.readingEnd).toList.flatMap (deliveries (i + 1) n.receive.world rest) := by
  have hclock : n.readingEnd ≤ (n.after (.read :: rest)).clock :=
    (n.perform .read).clock_le_after rest
  have hnow : ∀ {t}, t ≤ n.readingEnd →
      Network.firstReading t i n (.read :: rest) = some (i, n) := fun ht =>
    if_pos (Action.covers_iff.mpr ⟨rfl, ht⟩)
  have hlater : ∀ {t}, n.readingEnd < t → Network.firstReading t i n (.read :: rest) =
      Network.firstReading t (i + 1) n.receive.world rest := fun ht =>
    if_neg fun hcovers => Nat.not_le.mpr ht (Action.covers_iff.mp hcovers).2
  -- What is due by the end of the history falls apart at the end of this reading: it is the first
  -- one for all that is due by then, and none for what is due later.
  rw [deliveries, dueBy_left hclock, List.filterMap_append]
  refine congrArg₂ (· ++ ·) ?taken ?left
  case taken =>
    rw [takenBy, ← List.filterMap_eq_map, ← List.filterMap_eq_filter, List.filterMap_filterMap]
    refine List.filterMap_congr fun x hx => ?_
    rw [hnow (mem_dueBy hx).2, Option.filter_some, Option.guard_eq_ite]
    dsimp only
    split <;> rfl
  case left =>
    cases hleft : pr.left n.readingEnd with
    | none => rfl
    | some pr' =>
        rw [Option.toList_some, List.flatMap_singleton, List.flatMap_singleton, deliveries]
        refine List.filterMap_congr fun x hx => ?_
        rw [hlater (Nat.lt_of_lt_of_le (lt_due_of_left hleft) (mem_dueBy hx).1)]
        simp only [keeps_of_left hleft]

/-- Frames that wait are left until they are due. -/
theorem left_once (frames : List Timed) (now : Instant) :
    (frames.map once).flatMap (fun pr => (pr.left now).toList) =
      (frames.filter fun x => !decide (x.1 ≤ now)).map once := by
  induction frames with
  | nil => rfl
  | cons x rest ih =>
      rw [List.map_cons, List.flatMap_cons, ih, left, List.filter_cons]
      by_cases hdue : x.1 ≤ now <;> simp [hdue]

/-- Frames that wait are taken when they are due. -/
theorem takenBy_once (frames : List Timed) (n : Network) :
    (frames.map once).flatMap (takenBy n) = frames.filter (·.1 ≤ n.readingEnd) := by
  induction frames with
  | nil => rfl
  | cons x rest ih =>
      rw [List.map_cons, List.flatMap_cons, ih, List.filter_cons]
      by_cases hdue : x.1 ≤ n.readingEnd <;> simp [takenBy, dueBy, keeps, hdue]

end Promise

namespace Ecu

variable (e : Ecu)

theorem poll_outbox (now : Instant) :
    (e.poll now).1.outbox = e.outbox.filter fun x => !decide (x.1 ≤ now) := by
  rw [poll, List.partition_eq_filter_filter]
  rfl

theorem promises_poll (now : Instant) (unit : Nat) :
    (e.poll now).1.promises unit = (e.promises unit).flatMap fun pr => (pr.left now).toList := by
  rw [promises, promises, List.flatMap_append, Promise.left_once, poll_outbox, List.flatMap_map]
  refine congrArg (· ++ _) ?_
  show (e.periodic.map (·.past now)).map (Promise.entry unit e.bus) = _
  rw [List.map_map, List.map_eq_flatMap]
  rfl

/-- What a reading takes from a unit at its place. -/
theorem poll_taken {n : Network} {unit : Nat} (h : n.ecus[unit]? = some e) :
    (e.poll n.readingEnd).2 = (e.promises unit).flatMap (Promise.takenBy n) := by
  have hentry : ∀ p, Promise.takenBy n (.entry unit e.bus p) =
      ((p.moments n.readingEnd).filter fun t => e.silencedAt.all (t < ·)).map fun t =>
        (t, { address := p.address, bus := e.bus, data := p.data }) := by
    intro p
    rw [Promise.takenBy, Promise.dueBy_entry, List.filter_map]
    refine congrArg (List.map _) (List.filter_congr fun t _ => ?_)
    show Promise.keeps n t (.entry unit e.bus p) = _
    rw [Promise.keeps, h]
    rfl
  rw [promises, List.flatMap_append, Promise.takenBy_once, List.flatMap_map, poll,
    List.partition_eq_filter_filter, periodicFrames]
  simp only [hentry]

end Ecu

/-- What is added to the outbox is added to the promises. -/
theorem Ecu.Replied.promises {e e' : Ecu} {now : Instant} (h : Ecu.Replied e now e') (unit : Nat) :
    e'.promises unit =
      e.promises unit ++ (e'.outbox.drop e.outbox.length).map .once := by
  obtain ⟨added, houtbox, -⟩ := h.outbox
  rw [Ecu.promises, Ecu.promises, h.bus, h.periodic, houtbox, List.drop_left, List.map_append,
    List.append_assoc]

/-- The places of the elements do not matter to what does not look at them. -/
theorem flatMap_zipIdx {α β : Type} (f : α → List β) (l : List α) :
    l.zipIdx.flatMap (fun u => f u.1) = l.flatMap f := by
  rw [← List.flatMap_map Prod.fst f, List.zipIdx_map_fst]

namespace Network

variable (n : Network)

/-- A reading leaves of each promise what is due after its end. -/
theorem promises_receive : n.receive.world.promises =
    n.promises.flatMap fun pr => (pr.left n.readingEnd).toList := by
  have hscheduled : n.receive.world.scheduled =
      n.scheduled.filter fun x => !decide (x.1 ≤ n.readingEnd) := by
    rw [receive, collect, List.partition_eq_filter_filter]
    rfl
  have hecus : n.receive.world.ecus = n.ecus.map fun e => (e.poll n.readingEnd).1 :=
    n.ecus_receive
  rw [promises, promises, List.flatMap_append, Promise.left_once, hscheduled, hecus,
    List.zipIdx_map, List.flatMap_map, List.flatMap_assoc]
  exact congrArg (_ ++ ·) (List.flatMap_congr fun u _ => u.1.promises_poll ..)

/-- A reading takes of each promise what is due by its end and kept. -/
theorem taken_perm : (n.taken .read).Perm (n.promises.flatMap (Promise.takenBy n)) := by
  have hpolled : (n.ecus.map (·.poll n.readingEnd)).flatMap (·.2) =
      (n.ecus.zipIdx.flatMap fun u => u.1.promises u.2).flatMap (Promise.takenBy n) := by
    rw [List.flatMap_map, List.flatMap_assoc, ← flatMap_zipIdx]
    exact List.flatMap_congr fun u hu => u.1.poll_taken (List.mk_mem_zipIdx_iff_getElem?.mp hu)
  rw [promises, List.flatMap_append, Promise.takenBy_once, ← hpolled, taken, collect,
    List.partition_eq_filter_filter]
  exact inOrder_perm _

theorem taken_of_ne_read {a : Action} (h : a ≠ .read) : n.taken a = [] := by
  cases a with
  | read => exact absurd rfl h
  | _ => rfl

/-- Whatever else is done leaves the promises and adds to them. -/
theorem promises_perform {a : Action} (h : a ≠ .read) :
    (n.perform a).promises.Perm (n.promises ++ a.promises n) := by
  cases a with
  | read => exact absurd rfl h
  | schedule delay f =>
      show ((n.scheduled ++ [_]).map _ ++ _).Perm _
      rw [List.map_append, promises, List.append_assoc, List.append_assoc]
      exact List.perm_append_comm.append_left _
  | attach e fresh =>
      show (n.scheduled.map _ ++ (n.ecus ++ [e.attachedAt n.clock]).zipIdx.flatMap _).Perm _
      have hcame : (e.attachedAt n.clock).promises n.ecus.length =
          (Action.attach e fresh).promises n := by
        show _ ++ e.outbox.map Promise.once = _
        rw [fresh, List.map_nil, List.append_nil]
        exact List.map_map
      rw [List.zipIdx_append, List.flatMap_append, ← List.append_assoc, Nat.zero_add,
        List.zipIdx_singleton, List.flatMap_singleton]
      exact .of_eq (congrArg (_ ++ ·) hcame)
  | send frames =>
      have hscheduled : (n.perform (.send frames)).scheduled = n.scheduled := by
        rw [perform, send]
        dsimp only
        split <;> rfl
      have hecus := (n.ecus_perform (.send frames)).trans (List.append_nil _)
      rw [promises, promises, hscheduled, hecus, List.zipIdx_map, List.flatMap_map,
        List.append_assoc, Action.promises, hecus, ← List.map_prod_left_eq_zip, List.flatMap_map,
        ← flatMap_zipIdx _ n.ecus]
      refine (List.Perm.trans (.of_eq ?_) (List.flatMap_append_perm ..).symm).append_left _
      exact List.flatMap_congr fun u _ => (u.1.replied_undergo n h).promises u.2
  | advance | failNext => exact .of_eq (List.append_nil _).symm

/-! ### Histories -/

/-- What an action takes and what the promises come to afterwards is what they, and those that the
action adds, come to from it on. -/
theorem deliveries_perform (i : Nat) (a : Action) (rest : List Action) :
    ((n.taken a).map (i, ·) ++
        (n.perform a).promises.flatMap (Promise.deliveries (i + 1) (n.perform a) rest)).Perm
      (n.promises.flatMap (Promise.deliveries i n (a :: rest)) ++
        (a.promises n).flatMap (Promise.deliveries (i + 1) (n.perform a) rest)) := by
  by_cases hread : a = .read
  · subst hread
    have htaken := (n.taken_perm.map (i, ·)).append_right
      (n.receive.world.promises.flatMap (Promise.deliveries (i + 1) n.receive.world rest))
    refine htaken.trans ?_
    rw [List.map_flatMap, promises_receive, List.flatMap_assoc, Action.promises, List.flatMap_nil,
      List.append_nil]
    refine (List.flatMap_append_perm ..).trans (.of_eq ?_)
    exact List.flatMap_congr fun pr _ => Promise.deliveries_read.symm
  · have hskipped : n.promises.flatMap (Promise.deliveries i n (a :: rest)) =
        n.promises.flatMap (Promise.deliveries (i + 1) (n.perform a) rest) :=
      List.flatMap_congr fun pr _ => Promise.deliveries_of_ne_read hread
    rw [n.taken_of_ne_read hread, hskipped, ← List.flatMap_append]
    exact (n.promises_perform hread).flatMap_right _

/-- What a history takes out of a network is what is promised in the beginning and on the way. -/
theorem delivered_perm (i : Nat) (actions : List Action) :
    (delivered i n actions).Perm
      (n.promises.flatMap (Promise.deliveries i n actions) ++ promised i n actions) := by
  induction actions generalizing i n with
  | nil =>
      have hnone : ∀ pr : Promise, pr.deliveries i n [] = [] := fun _ =>
        List.filterMap_eq_nil_iff.mpr fun _ _ => rfl
      rw [List.flatMap_eq_nil_iff.mpr fun pr _ => hnone pr]
      exact .refl _
  | cons a rest ih =>
      rw [delivered, promised, ← List.append_assoc]
      refine ((ih (n.perform a) (i + 1)).append_left _).trans ?_
      rw [← List.append_assoc]
      exact (n.deliveries_perform i a rest).append_right _

/-- The time is `t` or later, and so is all that a network holds. -/
structure DueFrom (n : Network) (t : Instant) : Prop where
  clock : t ≤ n.clock
  promises : ∀ pr ∈ n.promises, t ≤ pr.due

/-- What an action adds to the promises is not due before the present time. -/
theorem clock_le_due {a : Action} {pr : Promise} (h : pr ∈ a.promises n) : n.clock ≤ pr.due := by
  cases a with
  | read | advance | failNext => cases h
  | schedule delay f =>
      obtain rfl := List.mem_singleton.mp h
      exact Nat.le_add_right ..
  | attach e fresh =>
      obtain ⟨p, -, rfl⟩ := List.mem_map.mp h
      exact Nat.le_refl _
  | send frames =>
      rw [Action.promises, ecus_perform, Action.attached, List.append_nil,
        ← List.map_prod_left_eq_zip, List.flatMap_map] at h
      obtain ⟨e, -, hadded⟩ := List.mem_flatMap.mp h
      obtain ⟨x, hx, rfl⟩ := List.mem_map.mp hadded
      have hsend : Action.send frames ≠ .read := fun hread => by cases hread
      obtain ⟨added, houtbox, hdue⟩ := (e.replied_undergo n hsend).outbox
      rw [houtbox, List.drop_left] at hx
      exact hdue x hx

/-- What an action takes is due before all that it leaves and adds. -/
theorem DueFrom.perform {n : Network} {t : Instant} (h : n.DueFrom t) (a : Action) :
    ∃ t', (∀ x ∈ n.taken a, t ≤ x.1 ∧ x.1 ≤ t') ∧ (n.perform a).DueFrom t' ∧ t ≤ t' := by
  by_cases hread : a = .read
  · subst hread
    refine ⟨n.readingEnd, fun x hx => ?_, ⟨Nat.le_refl _, fun pr hpr => ?_⟩, ?_⟩
    · obtain ⟨pr, hpr, hx⟩ := List.mem_flatMap.mp (n.taken_perm.mem_iff.mp hx)
      obtain ⟨hdue, hend⟩ := Promise.mem_dueBy (List.mem_of_mem_filter hx)
      exact ⟨Nat.le_trans (h.promises pr hpr) hdue, hend⟩
    · rw [Network.perform, promises_receive] at hpr
      obtain ⟨pr', -, hleft⟩ := List.mem_flatMap.mp hpr
      exact Nat.le_of_lt (Promise.lt_due_of_left (Option.mem_toList.mp hleft))
    · exact Nat.le_trans h.clock (Nat.le_add_right ..)
  · refine ⟨t, ?_, ⟨Nat.le_trans h.clock (n.clock_le_perform a), fun pr hpr => ?_⟩, Nat.le_refl t⟩
    · rw [n.taken_of_ne_read hread]
      exact fun _ hx => absurd hx List.not_mem_nil
    · obtain hheld | hadded := List.mem_append.mp ((n.promises_perform hread).mem_iff.mp hpr)
      · exact h.promises pr hheld
      · exact Nat.le_trans h.clock (n.clock_le_due hadded)

theorem taken_sorted (a : Action) : (n.taken a).Pairwise (·.1 ≤ ·.1) := by
  cases a with
  | read => exact pairwise_inOrder _
  | _ => exact .nil

/-- What a history takes out of a network is in the order of time. -/
theorem DueFrom.delivered_sorted {n : Network} {t : Instant} (h : n.DueFrom t) (i : Nat)
    (actions : List Action) :
    (∀ d ∈ delivered i n actions, t ≤ d.2.1) ∧
      (delivered i n actions).Pairwise fun d d' => d.2.1 ≤ d'.2.1 := by
  induction actions generalizing i n t with
  | nil => exact ⟨fun _ hd => absurd hd List.not_mem_nil, .nil⟩
  | cons a rest ih =>
      -- The bound moves on with each reading: it separates what was taken from what is still held.
      obtain ⟨t', htaken, hafter, hle⟩ := h.perform a
      obtain ⟨hrest, hsorted⟩ := ih hafter (i + 1)
      rw [delivered]
      refine ⟨List.forall_mem_append.mpr ⟨?late, fun d hd => Nat.le_trans hle (hrest d hd)⟩,
        List.pairwise_append.mpr ⟨?sorted, hsorted, ?across⟩⟩
      case late =>
        exact List.forall_mem_map.mpr fun x hx => (htaken x hx).1
      case sorted =>
        exact List.pairwise_map.mpr (n.taken_sorted a)
      case across =>
        exact List.forall_mem_map.mpr fun x hx d hd => Nat.le_trans (htaken x hx).2 (hrest d hd)

/-- Whatever is done with a network, its batches hold just what it promised, each frame once: what
it held in the beginning, what was scheduled, the entries of units that were attached, and what
units put into their outboxes. A frame comes with the first reading that ends when it is due or
later, unless it is periodic and that reading finds its unit silenced by then. All batches together
are in the order of time. -/
theorem delivered_once (actions : List Action) :
    ∃ timed : List (Nat × Timed), timed.map (fun d => (d.1, d.2.2)) = received 0 n actions ∧
      timed.Perm (n.promises.flatMap (Promise.deliveries 0 n actions) ++ promised 0 n actions) ∧
      timed.Pairwise fun d d' => d.2.1 ≤ d'.2.1 :=
  ⟨delivered 0 n actions, map_delivered 0 n actions, n.delivered_perm 0 actions,
    (DueFrom.delivered_sorted ⟨Nat.zero_le _, fun _ _ => Nat.zero_le _⟩ 0 actions).2⟩

end Network

end EcuQuiet.Simulation
