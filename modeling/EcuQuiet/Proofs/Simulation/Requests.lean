import EcuQuiet.Proofs.IsoTp.Frames
import EcuQuiet.Simulation.Network

/-!
# The requests that a unit takes

A unit keeps every complete request, and nothing takes one away again. A single frame is a complete
request at once; a first frame, a flow control and the passing of time bring none.
-/

namespace EcuQuiet.Simulation

open IsoTp

namespace Ecu

/-- The second unit is what became of the first one when it took some requests. -/
structure Took (e : Ecu) (added : List Bytes) (e' : Ecu) : Prop where
  bus : e'.bus = e.bus
  target : e'.target = e.target
  requests : e'.requests.toList = e.requests.toList ++ added

namespace Took

variable {e e' e'' : Ecu} {first rest : List Bytes}

/-- A unit that keeps its place and its requests has taken none. -/
theorem none (hbus : e'.bus = e.bus) (htarget : e'.target = e.target)
    (hrequests : e'.requests = e.requests) : Took e [] e' :=
  ⟨hbus, htarget, by rw [hrequests, List.append_nil]⟩

theorem refl (e : Ecu) : Took e [] e := .none rfl rfl rfl

theorem trans (h : Took e first e') (h' : Took e' rest e'') : Took e (first ++ rest) e'' :=
  ⟨h'.bus.trans h.bus, h'.target.trans h.target,
    by rw [h'.requests, h.requests, List.append_assoc]⟩

end Took

variable (e : Ecu) (now : Instant)

theorem took_queue (due : Instant) (content : Bytes) : Took e [] (e.queue due content) :=
  .none rfl rfl rfl

theorem took_respond (response : Bytes) : Took e [] (e.respond now response) := by
  rw [respond]
  dsimp only
  split
  · exact e.took_queue ..
  · exact .none rfl rfl rfl

theorem took_control (r : Uds.ControlRequest) : Took e [] (e.control now r) := by
  have heffect : Took e [] (if !e.obeys then e
      else if r.control.silences then { e with silencedAt := some (now + e.silenceDelay.nanos) }
      else { e with silencedAt := none }) := by
    split
    · exact .refl e
    · split <;> exact .none rfl rfl rfl
  rw [control]
  split
  · exact heffect
  · exact heffect.trans (took_respond ..)

/-- A complete request is kept, whatever comes of it. -/
theorem took_handle (request : Bytes) : Took e [request] (e.handle now request).1 := by
  have hkept : Took e [request] { e with requests := e.requests.push request } :=
    ⟨rfl, rfl, Array.toList_push⟩
  rw [handle]
  dsimp only
  split
  · exact ⟨rfl, rfl, Array.toList_push⟩
  · split
    · exact hkept.trans (took_control ..)
    · split
      · exact hkept.trans (took_respond ..)
      · exact hkept

theorem took_sendBlock (o : Outgoing) (left sent : Nat) :
    Took e [] (e.sendBlock now o left sent) := by
  induction left generalizing e o sent with
  | zero => exact .none rfl rfl rfl
  | succ left ih =>
      rw [sendBlock]
      split
      · exact .none rfl rfl rfl
      · exact (e.took_queue ..).trans (ih ..)

theorem took_proceed (content : Bytes) : Took e [] (e.proceed now content) := by
  rw [proceed]
  split
  · exact .refl e
  · exact e.took_sendBlock ..

theorem took_poll : Took e [] (e.poll now).1 := .none rfl rfl rfl

/-! ### Frames of a tester -/

/-- A frame for a unit is heard, with its filling. -/
theorem receive_of_frame (c : Settings) (content : Bytes) :
    e.receive now (c.frame e.bus e.target content) =
      e.hear now (content ++ c.filling e.target content) := by
  rw [receive, if_pos ⟨rfl, rfl⟩, c.content?_frame]

/-- A request that fits one frame is complete with it. -/
theorem receive_short (c : Settings) {request : Bytes}
    (hshort : request.length < capacity e.target) :
    e.receive now (c.startFrame e.bus e.target request) = e.handle now request := by
  have hcapacity := capacity_eq e.target
  have hlow : lowHalf (ofHalves 0 request.length) = request.length := by
    rw [lowHalf_ofHalves]
    omega
  rw [Settings.startFrame, Sender.start_of_short hshort, receive_of_frame]
  simp only [List.cons_append, hear, highHalf_ofHalves, Nat.zero_mod, hlow]
  rw [if_pos (by rw [List.length_append]; omega), List.take_left' rfl]

variable {bus : UInt8} {target : Target} {request : Bytes}

theorem took_short (c : Settings) (hbus : e.bus = bus) (htarget : e.target = target)
    (hshort : request.length < capacity target) :
    Took e [request] (e.receive now (c.startFrame bus target request)).1 := by
  subst hbus htarget
  rw [e.receive_short now c hshort]
  exact e.took_handle now request

/-- The start of a longer request is no request. -/
theorem took_long (c : Settings) (hbus : e.bus = bus) (htarget : e.target = target)
    (hlong : capacity target ≤ request.length) :
    Took e [] (e.receive now (c.startFrame bus target request)).1 := by
  subst hbus htarget
  rw [Settings.startFrame, Sender.start_of_long hlong, receive_of_frame]
  simp only [List.cons_append, hear, highHalf_ofHalves, Nat.reduceMod]
  split
  · exact .none rfl rfl rfl
  · exact .refl e

theorem took_flowControl (c : Settings) (hbus : e.bus = bus) (htarget : e.target = target) :
    Took e [] (e.receive now (c.frame bus target c.flowControl)).1 := by
  subst hbus htarget
  rw [receive_of_frame]
  exact e.took_proceed now _

end Ecu

namespace Network

theorem ecus_receive (n : Network) :
    n.receive.world.ecus = n.ecus.map fun e => (e.poll (n.clock + n.latency.nanos)).1 := by
  simp [receive, collect, advance]

/-- A frame that is sent is shown to every unit, unless the send fails. -/
theorem ecus_send (f : Frame) (n : Network) :
    (∃ e, (Network.send [f] n).result = .error e ∧ (Network.send [f] n).world.ecus = n.ecus) ∨
      (Network.send [f] n).result = .ok () ∧
        (Network.send [f] n).world.ecus = n.ecus.map fun e => (e.receive n.clock f).1 := by
  rw [Network.send]
  dsimp only
  split
  · exact .inl ⟨_, rfl, rfl⟩
  · exact .inr ⟨rfl, by simp [deliverAll, deliver]⟩

/-- The unit that was `e` is still at its place, and it has taken requests as described. -/
def Told (i : Nat) (e : Ecu) (described : List Bytes → Prop) (n : Network) : Prop :=
  ∃ e' added, n.ecus[i]? = some e' ∧ e.Took added e' ∧ described added

namespace Told

variable {i : Nat} {e : Ecu} {described described' : List Bytes → Prop} {n : Network}

theorem mono (h : n.Told i e described) (hdescribed : ∀ added, described added → described' added) :
    n.Told i e described' := by
  obtain ⟨e', added, hunit, htook, hadded⟩ := h
  exact ⟨e', added, hunit, htook, hdescribed added hadded⟩

theorem receive (h : n.Told i e described) : n.receive.world.Told i e described := by
  obtain ⟨e', added, hunit, htook, hadded⟩ := h
  have hpolled := htook.trans (e'.took_poll (n.clock + n.latency.nanos))
  rw [List.append_nil] at hpolled
  refine ⟨_, added, ?_, hpolled, hadded⟩
  rw [ecus_receive, List.getElem?_map, hunit]
  rfl

theorem fail (h : n.Told i e described) {f : Frame} {cause : BusError}
    (hfailed : (Network.send [f] n).result = .error cause) :
    (Network.send [f] n).world.Told i e described := by
  obtain ⟨_, _, hecus⟩ | ⟨hok, _⟩ := ecus_send f n
  · rw [Told, hecus]
    exact h
  · cases hfailed.symm.trans hok

theorem send (h : n.Told i e described) {f : Frame}
    (hok : (Network.send [f] n).result = .ok ())
    (hheard : ∀ e' : Ecu, e'.bus = e.bus → e'.target = e.target →
      ∃ more, e'.Took more (e'.receive n.clock f).1 ∧
        ∀ added, described added → described' (added ++ more)) :
    (Network.send [f] n).world.Told i e described' := by
  obtain ⟨e', added, hunit, htook, hadded⟩ := h
  obtain ⟨_, hfailed, _⟩ | ⟨_, hecus⟩ := ecus_send f n
  · cases hfailed.symm.trans hok
  · obtain ⟨more, hmore, hdescribed⟩ := hheard e' htook.bus htook.target
    refine ⟨_, added ++ more, ?_, htook.trans hmore, hdescribed added hadded⟩
    rw [hecus, List.getElem?_map, hunit]
    rfl

/-- What is said of the requests stays true if the frame leaves it so. -/
theorem send_keeps (h : n.Told i e described) {f : Frame}
    (hheard : ∀ e' : Ecu, e'.bus = e.bus → e'.target = e.target →
      ∃ more, e'.Took more (e'.receive n.clock f).1 ∧
        ∀ added, described added → described (added ++ more)) :
    (Network.send [f] n).world.Told i e described := by
  cases hresult : (Network.send [f] n).result with
  | error cause => exact h.fail hresult
  | ok => exact h.send hresult hheard

end Told

end Network

end EcuQuiet.Simulation
