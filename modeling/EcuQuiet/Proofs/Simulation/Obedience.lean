import EcuQuiet.Proofs.Simulation.History

/-!
# How long a unit stays silent

Whether a unit is silent is decided by the last communication control request that it obeyed. One
that enables it ends the silence at once and for the past as well: what became due in the silence
and was not read yet is transmitted after all. One that silences it starts the silence anew, after
the unit's delay, so that a unit with a delay that is silenced a second time transmits again.
-/

namespace EcuQuiet.Simulation

/-- A communication control request that a unit obeys, and when. -/
structure Command where
  time : Instant
  request : Uds.ControlRequest
deriving DecidableEq

namespace Command

/-- From when on it silences a unit that goes on for `delay`, if it silences one. -/
def silencing (delay : Span) (c : Command) : Option Instant :=
  if c.request.control.silences then some (c.time + delay.nanos) else none

/-- Whether a unit that goes on for `delay` is silent at `t` on this command. -/
def Silences (delay : Span) (t : Instant) (c : Command) : Prop :=
  c.request.control.silences = true ∧ c.time + delay.nanos ≤ t

theorem silences_iff {delay : Span} {t : Instant} {c : Command} :
    c.Silences delay t ↔ (c.silencing delay).any (· ≤ t) = true := by
  rw [Silences, silencing]
  cases c.request.control.silences <;> simp

end Command

/-! ### Requests that a unit obeys -/

namespace Ecu

/-- The request that a frame completes for a unit, if it completes one. -/
def completed (e : Ecu) (now : Instant) (f : Frame) : Option Bytes :=
  (e.receive now f).1.requests[e.requests.size]?

/-- What a unit obeys in a request: communication control, if it obeys that at all and drops no
requests. -/
def command (e : Ecu) (now : Instant) (request : Bytes) : Option Command :=
  if e.obeys ∧ e.ignoring = 0 then (Uds.ControlRequest.ofBytes? request).map (⟨now, ·⟩) else none

/-- The commands among frames that are shown to a unit. -/
def commandsAmong (now : Instant) : List Frame → Ecu → List Command
  | [], _ => []
  | f :: rest, e =>
    ((e.completed now f).bind (e.command now)).toList ++ commandsAmong now rest (e.receive now f).1

/-- The commands that an action brings to a unit. -/
def commandsIn (e : Ecu) (n : Network) : Action → List Command
  | .send frames => if n.faults = 0 then commandsAmong n.clock frames e else []
  | _ => []

/-- The second unit is what became of the first one with some commands: the last one counts. -/
structure Commanded (e : Ecu) (commands : List Command) (e' : Ecu) : Prop where
  delay : e'.silenceDelay = e.silenceDelay
  silencedAt : e'.silencedAt =
    commands.getLast?.elim e.silencedAt (·.silencing e.silenceDelay)

namespace Commanded

variable {e e' e'' : Ecu} {first rest : List Command}

theorem refl (e : Ecu) : Commanded e [] e := ⟨rfl, rfl⟩

theorem trans (h : Commanded e first e') (h' : Commanded e' rest e'') :
    Commanded e (first ++ rest) e'' := by
  refine ⟨h'.delay.trans h.delay, ?_⟩
  rw [h'.silencedAt, h.silencedAt, h.delay, List.getLast?_append]
  cases rest.getLast? <;> rfl

end Commanded

/-- A unit that was silenced is silent later unless the last command says otherwise. -/
theorem Commanded.isSilenced_iff {e e' : Ecu} {commands : List Command} {d t : Instant}
    (h : e.Commanded commands e') (hsilenced : e.isSilenced d = true) (ht : d ≤ t) :
    e'.isSilenced t = true ↔ ∀ c ∈ commands.getLast?, c.Silences e.silenceDelay t := by
  rw [isSilenced, h.silencedAt]
  cases commands.getLast? with
  | none =>
      have hsilent : e.silencedAt.any (· ≤ t) = true := by
        rw [isSilenced] at hsilenced
        cases hs : e.silencedAt with
        | none => simp [hs] at hsilenced
        | some s =>
            rw [hs] at hsilenced
            exact decide_eq_true (Nat.le_trans (of_decide_eq_true hsilenced) ht)
      exact iff_of_true hsilent fun c hc => by cases hc
  | some c => simpa using Command.silences_iff.symm

/-- The second unit is what became of the first one when it may have taken a request: it obeys what
it has to, and it keeps the request. -/
structure Followed (e : Ecu) (now : Instant) (request? : Option Bytes) (e' : Ecu) : Prop where
  requests : e'.requests = request?.elim e.requests e.requests.push
  silencedAt : e'.silencedAt =
    (request?.bind (e.command now)).elim e.silencedAt (·.silencing e.silenceDelay)

variable (e : Ecu) (now : Instant)

theorem respond_keeps (response : Bytes) :
    (e.respond now response).requests = e.requests ∧
      (e.respond now response).silencedAt = e.silencedAt := by
  rw [respond]
  dsimp only
  split <;> exact ⟨rfl, rfl⟩

theorem control_keeps (r : Uds.ControlRequest) : (e.control now r).requests = e.requests ∧
    (e.control now r).silencedAt =
      if e.obeys then (Command.mk now r).silencing e.silenceDelay else e.silencedAt := by
  have heffect : ∀ e' : Ecu, (if r.suppressed then e'
      else e'.respond now [Uds.Service.communicationControl.response, r.control.byte]).requests =
        e'.requests ∧ (if r.suppressed then e'
      else e'.respond now [Uds.Service.communicationControl.response, r.control.byte]).silencedAt =
        e'.silencedAt := by
    intro e'
    split
    · exact ⟨rfl, rfl⟩
    · exact e'.respond_keeps ..
  rw [control, Command.silencing]
  cases e.obeys <;> cases r.control.silences <;> exact heffect _

theorem followed_handle (request : Bytes) :
    Followed e now (some request) (e.handle now request).1 := by
  rw [handle]
  dsimp only
  split
  next hdrops =>
    refine ⟨rfl, ?_⟩
    rw [Option.bind_some, command, if_neg fun h => Nat.succ_ne_zero _ (hdrops.symm.trans h.2)]
    rfl
  next hheeds =>
    split
    next r hcontrol =>
      obtain ⟨hrequests, hsilenced⟩ :=
        control_keeps { e with requests := e.requests.push request } now r
      refine ⟨hrequests, hsilenced.trans ?_⟩
      rw [Option.bind_some, command, hcontrol]
      by_cases hobeys : e.obeys <;> simp [hobeys, hheeds]
    next hcontrol =>
      have hno : (some request).bind (e.command now) = none := by
        rw [Option.bind_some, command, hcontrol, Option.map_none, ite_self]
      split
      · obtain ⟨hrequests, hsilenced⟩ :=
          respond_keeps { e with requests := e.requests.push request } now _
        exact ⟨hrequests, by rw [hno]; exact hsilenced⟩
      · exact ⟨rfl, by rw [hno]; rfl⟩

theorem followed_consecutive (head : UInt8) (content : Bytes) :
    ∃ request?, Followed e now request? (e.consecutive now head content).1 := by
  rw [consecutive]
  split
  · exact ⟨none, rfl, rfl⟩
  · split
    · exact ⟨none, rfl, rfl⟩
    · dsimp only
      split
      · obtain ⟨hrequests, hsilenced⟩ := followed_handle { e with incoming := none } now _
        exact ⟨_, hrequests, hsilenced⟩
      · exact ⟨none, rfl, rfl⟩

theorem followed_sendBlock (o : Outgoing) (left sent : Nat) :
    Followed e now none (e.sendBlock now o left sent) := by
  induction left generalizing e o sent with
  | zero => exact ⟨rfl, rfl⟩
  | succ left ih =>
      rw [sendBlock]
      split
      · exact ⟨rfl, rfl⟩
      · exact ⟨(ih ..).requests, (ih ..).silencedAt⟩

theorem followed_proceed (content : Bytes) : Followed e now none (e.proceed now content) := by
  rw [proceed]
  split
  · exact ⟨rfl, rfl⟩
  · exact e.followed_sendBlock ..

theorem followed_hear (content : Bytes) :
    ∃ request?, Followed e now request? (e.hear now content).1 := by
  -- Only a single frame and the last consecutive frame of a request bring one.
  rw [hear.eq_def]
  split
  · exact ⟨none, rfl, rfl⟩
  · split
    · split
      · exact ⟨_, e.followed_handle ..⟩
      · exact ⟨none, rfl, rfl⟩
    · split <;> exact ⟨none, rfl, rfl⟩
    · exact e.followed_consecutive ..
    · dsimp only
      split
      · exact ⟨none, e.followed_proceed ..⟩
      · exact ⟨none, rfl, rfl⟩
    · exact ⟨none, rfl, rfl⟩

theorem followed_receive (f : Frame) :
    Followed e now (e.completed now f) (e.receive now f).1 := by
  have hfollowed : ∃ request?, Followed e now request? (e.receive now f).1 := by
    rw [receive]
    split
    · split
      · exact ⟨none, rfl, rfl⟩
      · exact e.followed_hear ..
    · exact ⟨none, rfl, rfl⟩
  obtain ⟨request?, h⟩ := hfollowed
  have hcompleted : e.completed now f = request? := by
    rw [completed, h.requests]
    cases request? <;> simp
  exact hcompleted ▸ h

/-- What a unit becomes when it is shown frames is decided by the last command among them. -/
theorem commanded_receiveAll (frames : List Frame) :
    Commanded e (commandsAmong now frames e) (e.receiveAll now frames) := by
  induction frames generalizing e with
  | nil => exact .refl e
  | cons f rest ih =>
      have hfirst : Commanded e ((e.completed now f).bind (e.command now)).toList
          (e.receive now f).1 := by
        refine ⟨(e.replied_receive now f).silenceDelay,
          (e.followed_receive now f).silencedAt.trans ?_⟩
        cases (e.completed now f).bind (e.command now) <;> rfl
      exact hfirst.trans (ih _)

theorem commanded_undergo (n : Network) (a : Action) :
    Commanded e (e.commandsIn n a) (e.undergo n a) := by
  cases a with
  | send frames =>
      rw [undergo, commandsIn]
      split
      · exact e.commanded_receiveAll n.clock frames
      · exact .refl e
  | read => exact ⟨rfl, rfl⟩
  | schedule | attach | advance | failNext => exact .refl e

/-! ### Periodic frames -/

/-- The frames, with their times, that a unit would put on its bus if it were not silenced. -/
def Repeats (e : Ecu) (x : Timed) : Prop :=
  ∃ p ∈ e.periodic, p.DueAt x.1 ∧ x.2 = { address := p.address, bus := e.bus, data := p.data }

theorem mem_periodicFrames_iff {e : Ecu} {now : Instant} {x : Timed} :
    x ∈ e.periodicFrames now ↔ x.1 ≤ now ∧ e.Repeats x ∧ ¬e.isSilenced x.1 = true := by
  have hloud : e.silencedAt.all (x.1 < ·) = true ↔ ¬e.isSilenced x.1 = true := by
    rw [isSilenced]
    cases e.silencedAt <;> simp
  rw [mem_periodicFrames, hloud]
  constructor
  · rintro ⟨hnow, p, hp, hdue, hloud, hframe⟩
    exact ⟨hnow, ⟨p, hp, hdue, hframe⟩, hloud⟩
  · rintro ⟨hnow, ⟨p, hp, hdue, hframe⟩, hloud⟩
    exact ⟨hnow, p, hp, hdue, hloud, hframe⟩

/-- A reading takes what is due by its end; nothing else takes a periodic frame away. -/
theorem undergo_repeats {e : Ecu} {n : Network} {a : Action} {x : Timed} :
    (e.undergo n a).Repeats x ↔ e.Repeats x ∧ a.covers n x.1 = false := by
  by_cases hread : a = .read
  · subst hread
    have hperiodic : (e.undergo n .read).periodic = e.periodic.map (·.past n.readingEnd) := rfl
    have hlater : Action.covers n x.1 .read = false ↔ n.readingEnd < x.1 := by
      rw [Action.covers, decide_eq_false_iff_not, Nat.not_le]
    simp only [Repeats, hperiodic, List.mem_map, exists_exists_and_eq_and, Periodic.past_dueAt,
      hlater]
    constructor
    · rintro ⟨p, hp, ⟨hend, hdue⟩, hframe⟩
      exact ⟨⟨p, hp, hdue, hframe⟩, hend⟩
    · rintro ⟨⟨p, hp, hdue, hframe⟩, hend⟩
      exact ⟨p, hp, ⟨hend, hdue⟩, hframe⟩
  · have hkept := e.replied_undergo n hread
    have huncovered : a.covers n x.1 = false :=
      Bool.eq_false_iff.mpr fun hcovers => hread (Action.covers_iff.mp hcovers).1
    rw [Repeats, hkept.periodic, hkept.bus, ← Repeats]
    exact (and_iff_left huncovered).symm

end Ecu

namespace Network

/-- The commands that a history brings to the unit at some place. -/
def commands (i : Nat) : Network → List Action → List Command
  | _, [] => []
  | n, a :: rest => (n.ecus[i]?.elim [] (·.commandsIn n a)) ++ commands i (n.perform a) rest

variable {n : Network} {i : Nat} {e : Ecu}

/-- What becomes of a unit in a history. -/
theorem unit_after (h : n.ecus[i]? = some e) (actions : List Action) (k : Nat) :
    ∃ e', (n.after actions).ecus[i]? = some e' ∧ e.Commanded (commands i n actions) e' ∧
      ∀ x, e'.Repeats x ↔ e.Repeats x ∧ firstReading x.1 k n actions = none := by
  induction actions generalizing n e k with
  | nil => exact ⟨e, h, .refl e, fun x => (and_iff_left rfl).symm⟩
  | cons a rest ih =>
      obtain ⟨e', hunit, hcommanded, hrepeats⟩ := ih (unit_perform a h) (k + 1)
      refine ⟨e', hunit, ?_, fun x => ?_⟩
      · rw [commands, h]
        exact (e.commanded_undergo n a).trans hcommanded
      · rw [hrepeats, Ecu.undergo_repeats, firstReading]
        cases a.covers n x.1 <;> simp

/-- A silenced unit is silent at a later time exactly if the last command that it obeyed since, if
there was one, silences it at that time: not after one that enables it, and not within its delay
after one that silences it again. A periodic frame that is due in the silence and has not been read
yet is taken by the first reading that ends when it is due or later, exactly if by then the last
command has enabled the unit or has put the silence off; and it is taken by no other reading. -/
theorem silent_again_iff (hunit : n.ecus[i]? = some e) {d : Instant}
    (hsilenced : e.isSilenced d = true) (actions : List Action) :
    (∃ e', (n.after actions).ecus[i]? = some e' ∧ ∀ t, d ≤ t →
      (e'.isSilenced t = true ↔
        ∀ c ∈ (commands i n actions).getLast?, c.Silences e.silenceDelay t)) ∧
    ∀ p ∈ e.periodic, p.DueAt d → ∀ j, actions[j]? = some .read →
      ∃ e', (n.after (actions.take j)).ecus[i]? = some e' ∧
        ((d, { address := p.address, bus := e.bus, data := p.data }) ∈
            e'.periodicFrames (n.after (actions.take j)).readingEnd ↔
          firstReading d 0 n actions = some (j, n.after (actions.take j)) ∧
            ∃ c ∈ (commands i n (actions.take j)).getLast?, ¬c.Silences e.silenceDelay d) := by
  constructor
  · obtain ⟨e', hunit', hcommanded, -⟩ := unit_after hunit actions 0
    exact ⟨e', hunit', fun t ht => hcommanded.isSilenced_iff hsilenced ht⟩
  · intro p hp hdue j hread
    obtain ⟨e', hunit', hcommanded, hrepeats⟩ := unit_after hunit (actions.take j) 0
    refine ⟨e', hunit', ?_⟩
    rw [Ecu.mem_periodicFrames_iff, hrepeats, hcommanded.isSilenced_iff hsilenced (Nat.le_refl d),
      firstReading_eq_some_iff]
    constructor
    · rintro ⟨hend, ⟨-, hnone⟩, hloud⟩
      refine ⟨⟨j, (Nat.zero_add j).symm, hread, rfl, hend, hnone⟩, ?_⟩
      simpa only [not_forall, exists_prop] using hloud
    · rintro ⟨⟨k, hk, -, -, hend, hnone⟩, c, hc, hloud⟩
      obtain rfl := hk.trans (Nat.zero_add k)
      exact ⟨hend, ⟨⟨p, hp, hdue, rfl⟩, hnone⟩, fun hsilent => hloud (hsilent c hc)⟩

/-- A unit with a periodic frame that goes on for 40 ms when it is silenced. -/
def murmuring : Ecu :=
  { Ecu.diagnostic 0 0x7D0 with
    periodic :=
      [{ address := 0x500, period := .ofMillis 30, data := [0x01], positive := by decide }]
    silenceDelay := .ofMillis 40 }

/-- A request to this unit in one frame. -/
def telling (r : Uds.ControlRequest) : Action :=
  .send [{ address := 0x7D0, bus := 0, data := 0x03 :: r.toBytes }]

/-- A network of this unit, 90 ms after the unit was silenced. -/
def muted : Network :=
  after {} [.attach murmuring rfl, telling {}, .advance (.ofMillis 90)]

/-- Silenced once more, the unit is silent 40 ms later only; enabled, it transmits what became due
meanwhile. -/
theorem silent_again_iff_muted :
    (∃ e', (muted.after [telling {}]).ecus[0]? = some e' ∧
      ∀ t, 90000000 ≤ t → (e'.isSilenced t = true ↔ 130000000 ≤ t)) ∧
    ∃ e', (muted.after [telling { control := .enableBoth }]).ecus[0]? = some e' ∧
      (90000000, { address := 0x500, bus := 0, data := [0x01] }) ∈ e'.periodicFrames 100000000 := by
  let e : Ecu := { murmuring with silencedAt := some 40000000, requests := #[[0x28, 0x83, 0x01]] }
  have hunit : muted.ecus[0]? = some e := by decide +kernel
  have hsilenced : e.isSilenced 90000000 = true := rfl
  have hcommands : (commands 0 muted [telling {}]).getLast? = some ⟨90000000, {}⟩ := by
    decide +kernel
  have henabled : (commands 0 muted [telling { control := .enableBoth }]).getLast? =
      some ⟨90000000, { control := .enableBoth }⟩ := by decide +kernel
  constructor
  · obtain ⟨⟨e', hunit', hagain⟩, -⟩ := silent_again_iff hunit hsilenced [telling {}]
    refine ⟨e', hunit', fun t ht => (hagain t ht).trans ?_⟩
    simp [hcommands, Command.Silences, murmuring, e, Span.ofMillis, Uds.ControlType.silences]
  · obtain ⟨-, hread⟩ :=
      silent_again_iff hunit hsilenced [telling { control := .enableBoth }, .read]
    obtain ⟨e', hunit', htaken⟩ := hread _ List.mem_cons_self ⟨3, rfl⟩ 1 rfl
    have hfirst : firstReading 90000000 0 muted [telling { control := .enableBoth }, .read] =
        some (1, muted.after [telling { control := .enableBoth }]) := by decide +kernel
    refine ⟨e', hunit', htaken.mpr ⟨hfirst, _, henabled, fun hsilent => ?_⟩⟩
    cases hsilent.1

/-- So a silenced unit can be heard again before it was enabled, and what became due in the silence
can be transmitted. -/
theorem heard_after_silence :
    muted.ecus.map (·.isSilenced muted.clock) = [true] ∧
      (muted.after [telling {}]).ecus.map (·.isSilenced muted.clock) = [false] ∧
      ((muted.after [telling { control := .enableBoth }]).advance (.ofMillis 10)).collect.2 =
        [0, 30000000, 60000000, 90000000].map
          (·, { address := 0x500, bus := 0, data := [0x01] }) := by
  decide +kernel

end Network

end EcuQuiet.Simulation
