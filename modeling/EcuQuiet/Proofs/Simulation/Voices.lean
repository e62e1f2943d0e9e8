import EcuQuiet.Proofs.IsoTp.Endpoints
import EcuQuiet.Proofs.Simulation.History
import EcuQuiet.Proofs.Simulation.Units

/-!
# Units behind one address

Units may share the address they take requests on, and then the address they answer on too: what
keeps them apart is the extra address byte that opens every frame to and from them. A unit puts
nothing into its outbox but frames that bear its own byte, whatever has been done with its network.
So a frame for one unit leaves its neighbours as they are, and what these still have to say is
nothing that the tester of the other one listens to.
-/

namespace EcuQuiet.Simulation

open IsoTp

namespace Ecu

/-! ### What a unit says -/

/-- A unit whose outbox holds no other frames than its own. -/
def SpeaksForItself (e : Ecu) : Prop :=
  ∀ x ∈ e.outbox, ∃ content, x.2 = answer e.bus e.target content

/-- The second unit is what became of the first one when it heard something: it is at its place, and
it may have added frames of its own to its outbox. -/
structure Spoke (e e' : Ecu) : Prop where
  bus : e'.bus = e.bus
  target : e'.target = e.target
  outbox : ∃ added, e'.outbox = e.outbox ++ added ∧
    ∀ x ∈ added, ∃ content, x.2 = answer e.bus e.target content

namespace Spoke

variable {e e' e'' : Ecu}

theorem silent (hbus : e'.bus = e.bus) (htarget : e'.target = e.target)
    (houtbox : e'.outbox = e.outbox) : Spoke e e' :=
  ⟨hbus, htarget, [], by rw [houtbox, List.append_nil], fun _ hx => absurd hx List.not_mem_nil⟩

theorem refl (e : Ecu) : Spoke e e := .silent rfl rfl rfl

theorem trans (h : Spoke e e') (h' : Spoke e' e'') : Spoke e e'' := by
  obtain ⟨added, houtbox, hadded⟩ := h.outbox
  obtain ⟨more, houtbox', hmore⟩ := h'.outbox
  rw [h.bus, h.target] at hmore
  refine ⟨h'.bus.trans h.bus, h'.target.trans h.target, added ++ more, ?_, ?_⟩
  · rw [houtbox', houtbox, List.append_assoc]
  · exact List.forall_mem_append.mpr ⟨hadded, hmore⟩

theorem speaksForItself (h : Spoke e e') (he : e.SpeaksForItself) : e'.SpeaksForItself := by
  obtain ⟨added, houtbox, hadded⟩ := h.outbox
  rw [SpeaksForItself, houtbox, h.bus, h.target]
  exact List.forall_mem_append.mpr ⟨he, hadded⟩

end Spoke

theorem hearingKeeps_spoke (now : Instant) : HearingKeeps now Spoke where
  refl := .refl
  trans := .trans
  silent hbus htarget _ _ _ houtbox := .silent hbus htarget houtbox
  queue _ _ _ content := ⟨rfl, rfl, _, rfl, List.forall_mem_singleton.mpr ⟨content, rfl⟩⟩

variable {e : Ecu}

theorem SpeaksForItself.poll (h : e.SpeaksForItself) (now : Instant) :
    (e.poll now).1.SpeaksForItself := by
  intro x hx
  simp only [Ecu.poll, List.partition_eq_filter_filter] at hx
  exact h x (List.mem_of_mem_filter hx)

/-- Whatever is done with its network, a unit goes on to speak for itself. -/
theorem SpeaksForItself.undergo (h : e.SpeaksForItself) (n : Network) (a : Action) :
    (e.undergo n a).SpeaksForItself := by
  cases a with
  | read => exact h.poll n.readingEnd
  | send frames =>
      rw [Ecu.undergo]
      split
      · exact ((hearingKeeps_spoke n.clock).receiveAll e frames).speaksForItself h
      · exact h
  | schedule | attach | advance | failNext => exact h

end Ecu

namespace Network

theorem speaksForItself_perform {n : Network} (h : ∀ e ∈ n.ecus, e.SpeaksForItself) (a : Action) :
    ∀ e ∈ (n.perform a).ecus, e.SpeaksForItself := by
  rw [ecus_perform]
  refine List.forall_mem_append.mpr ⟨?_, ?_⟩
  · exact List.forall_mem_map.mpr fun e he => (h e he).undergo n a
  · cases a with
    | attach e fresh =>
        refine List.forall_mem_singleton.mpr fun x hx => ?_
        rw [Ecu.attachedAt, fresh] at hx
        exact absurd hx List.not_mem_nil
    | _ => exact fun _ he => absurd he List.not_mem_nil

theorem speaksForItself_after {n : Network} (h : ∀ e ∈ n.ecus, e.SpeaksForItself)
    (actions : List Action) : ∀ e ∈ (n.after actions).ecus, e.SpeaksForItself := by
  induction actions generalizing n with
  | nil => exact h
  | cons a rest ih => exact ih (speaksForItself_perform h a)

end Network

/-! ### Neighbours -/

namespace Ecu

/-- Whether a unit is another one behind the address of an endpoint: it takes requests on the same
bus and address, under an extra address byte of its own. -/
def isNeighbour (bus : UInt8) (t : Target) (e : Ecu) : Bool :=
  e.bus = bus ∧ e.address = t.address ∧ e.subAddress.isSome ∧ e.subAddress ≠ t.subAddress

variable {c : Settings} {bus : UInt8} {t : Target} {e e' : Ecu} {sub : UInt8}

/-- A unit stays a neighbour at its place. -/
theorem isNeighbour_of_place (hbus : e'.bus = e.bus) (htarget : e'.target = e.target) :
    e'.isNeighbour bus t = e.isNeighbour bus t := by
  have haddress : e'.address = e.address := congrArg Target.address htarget
  have hsub : e'.subAddress = e.subAddress := congrArg Target.subAddress htarget
  simp only [isNeighbour, hbus, haddress, hsub]

theorem isNeighbour_receive (e : Ecu) (now : Instant) (f : Frame) :
    (e.receive now f).1.isNeighbour bus t = e.isNeighbour bus t := by
  have hspoke := (hearingKeeps_spoke now).receive e f
  exact isNeighbour_of_place hspoke.bus hspoke.target

/-- What is wrapped for one endpoint says nothing to another one with an extra address byte of its
own. -/
theorem content?_wrap_other {u : Target} {own : UInt8} (ht : t.subAddress = some sub)
    (hu : u.subAddress = some own) (hne : own ≠ sub) (content filling : Bytes) :
    t.content? (u.wrap content ++ filling) = none := by
  simp [Target.content?, Target.wrap, ht, hu, hne]

theorem isNeighbour_iff (ht : t.subAddress = some sub) :
    e.isNeighbour bus t ↔ e.bus = bus ∧ e.address = t.address ∧
      ∃ own, e.target.subAddress = some own ∧ own ≠ sub := by
  cases hown : e.subAddress <;> simp [isNeighbour, target, ht, hown]

/-- A frame for an endpoint leaves its neighbours as they are. -/
theorem receive_neighbour (ht : t.subAddress = some sub) (h : e.isNeighbour bus t)
    (now : Instant) (content : Bytes) : e.receive now (c.frame bus t content) = (e, []) := by
  obtain ⟨-, -, own, hown, hne⟩ := (isNeighbour_iff ht).mp h
  have hunheard : e.target.content? (c.frame bus t content).data = none := by
    rw [Settings.frame]
    dsimp only
    split
    · exact content?_wrap_other hown ht hne.symm content _
    · rw [← List.append_nil (t.wrap content)]
      exact content?_wrap_other hown ht hne.symm content []
  rw [receive, hunheard]
  exact ite_self _

/-- Nothing of what a unit puts on its bus as long as it hears nothing says something to an
endpoint. -/
def Mute (c : Settings) (t : Target) (e : Ecu) : Prop := ∀ x, e.Emits x → said? c t x.2 = none

/-- Neighbours are mute whose periodic frames are on other addresses, whatever waits in their
outboxes. -/
theorem SpeaksForItself.mute (hspeaks : e.SpeaksForItself) (ht : t.subAddress = some sub)
    (h : e.isNeighbour bus t)
    (hperiodic : ∀ p ∈ e.periodic, p.address ≠ responseAddress t.address c.responseOffset) :
    e.Mute c t := by
  obtain ⟨-, -, own, hown, hne⟩ := (isNeighbour_iff ht).mp h
  rintro x (hx | ⟨p, hp, -, -, hframe⟩)
  · obtain ⟨content, hframe⟩ := hspeaks x hx
    rw [hframe, said?]
    split
    · exact content?_wrap_other ht hown hne content _
    · rfl
  · rw [hframe, said?, if_neg (hperiodic p hp)]

theorem Mute.poll (h : e.Mute c t) (now : Instant) : (e.poll now).1.Mute c t :=
  fun x hx => h x (poll_emits.mp hx).2

theorem Mute.polled (h : e.Mute c t) (now : Instant) {x : Timed} (hx : x ∈ (e.poll now).2) :
    said? c t x.2 = none := h x (mem_poll.mp hx).2

end Ecu

end EcuQuiet.Simulation
