import EcuQuiet.Proofs.Bus.Views
import EcuQuiet.Proofs.Simulation.Voices

/-!
# Isolation of units behind one address

Units that share a bus and an address differ by their extra address byte alone. A query for one of
them runs as if the others were not there: its result, its notes and the frames it sends, each with
its time, are those of the same query on the network without them, whatever they still have to say.
Of the others nothing changes but that what they had to say goes out when it is due.
-/

namespace EcuQuiet.Simulation

open IsoTp Run

/-! ### Networks without some of their units -/

namespace Network

/-- The network without the units that meet a condition. -/
def without (n : Network) (p : Ecu → Bool) : Network := { n with ecus := n.ecus.filter (!p ·) }

theorem sent_without (n : Network) (p : Ecu → Bool) : (n.without p).sent = n.sent := rfl

/-- What adds nothing can be left out. -/
theorem flatMap_filter_of_nil {α β : Type} {l : List α} {p : α → Bool} {f : α → List β}
    (h : ∀ a ∈ l, p a = true → f a = []) : (l.filter (!p ·)).flatMap f = l.flatMap f := by
  induction l with
  | nil => rfl
  | cons a rest ih =>
      obtain ⟨hfirst, hrest⟩ := List.forall_mem_cons.mp h
      rw [List.filter_cons, List.flatMap_cons]
      cases hp : p a with
      | true => rw [hfirst hp, List.nil_append, ← ih hrest]; rfl
      | false => rw [← ih hrest]; rfl

variable {p : Ecu → Bool}

/-- Units that a frame does not reach need not be there. -/
theorem deliver_without {now : Instant} {f : Frame} {ecus : List Ecu}
    (hdeaf : ∀ e, p e = true → e.receive now f = (e, []))
    (hkept : ∀ e : Ecu, p (e.receive now f).1 = p e) :
    deliver now f (ecus.filter (!p ·)) =
      ((deliver now f ecus).1.filter (!p ·), (deliver now f ecus).2) := by
  have hstays : (fun e : Ecu => !p (e.receive now f).1) = fun e => !p e := by
    funext e
    rw [hkept]
  simp only [deliver, List.map_map, List.flatMap_map, List.filter_map, Function.comp_def, hstays]
  rw [flatMap_filter_of_nil fun e _ he => by rw [hdeaf e he]]

/-- A frame that some units ignore is sent to the others as if these were not there. -/
theorem send_without {f : Frame} (hdeaf : ∀ now e, p e = true → e.receive now f = (e, []))
    (hkept : ∀ now (e : Ecu), p (e.receive now f).1 = p e) (n : Network) :
    send [f] (n.without p) = (send [f] n).seen (·.without p) := by
  obtain ⟨clock, latency, ecus, scheduled, sent, faults, sends⟩ := n
  cases faults with
  | succ faults => rfl
  | zero =>
      simp only [send, without, deliverAll, deliver_without (hdeaf clock) (hkept clock)]
      rfl

/-- A reading on the network without some units that are mute differs in nothing that says something
to the endpoint. -/
theorem receive_without (hkept : ∀ now (e : Ecu), p (e.poll now).1 = p e) {c : Settings}
    {t : Target} {n : Network} (hmute : ∀ e ∈ n.ecus, p e = true → e.Mute c t) :
    ∃ batch part, n.receive.result = .ok batch ∧
      (n.without p).receive = { result := .ok part, world := n.receive.world.without p } ∧
      part.filter (fun f => (said? c t f).isSome) =
        batch.filter (fun f => (said? c t f).isSome) := by
  have hstays : (fun e : Ecu => !p (e.poll (n.clock + n.latency.nanos)).1) = fun e => !p e := by
    funext e
    rw [hkept]
  have hnothing : ∀ e ∈ n.ecus, p e = true → (e.poll (n.clock + n.latency.nanos)).2.filter
      (fun x => (said? c t x.2).isSome) = [] := by
    intro e he hp
    refine List.filter_eq_nil_iff.mpr fun x hx => ?_
    rw [(hmute e he hp).polled _ hx]
    exact Bool.false_ne_true
  refine ⟨(n.advance n.latency).collect.2.map (·.2),
    ((n.without p).advance n.latency).collect.2.map (·.2), rfl, ?_, ?_⟩
  · simp only [receive, collect, advance, without, List.map_map, List.filter_map,
      Function.comp_def, hstays]
    rfl
  · simp only [collect, advance, without, List.filter_map, Function.comp_def, filter_inOrder,
      List.filter_append, List.filter_flatMap, List.flatMap_map]
    rw [flatMap_filter_of_nil hnothing]
    rfl

end Network

/-! ### A query beside neighbours -/

/-- The second unit is the first one after some readings of the bus: it has heard nothing since. -/
inductive Ecu.Idled : Ecu → Ecu → Prop
  | start (e : Ecu) : Idled e e
  | polled {e e' : Ecu} (h : Idled e e') (now : Instant) : Idled e (e'.poll now).1

/-- All that readings take from a unit is what it had to say. -/
theorem Ecu.Idled.keeps {e e' : Ecu} (h : Idled e e') : e'.bus = e.bus ∧ e'.target = e.target ∧
    e'.requests = e.requests ∧ e'.incoming = e.incoming ∧ e'.outgoing = e.outgoing := by
  induction h with
  | start => exact ⟨rfl, rfl, rfl, rfl, rfl⟩
  | polled _ now ih => exact ih

section Query

variable {c : Settings} {q : Query} {t : Target} {sub : UInt8} {before : Network}

/-- In the course of a query for an endpoint: the neighbours of the endpoint are mute, and they have
heard nothing. -/
structure Apart (c : Settings) (q : Query) (t : Target) (before n : Network) : Prop where
  mute : ∀ e ∈ n.ecus, e.isNeighbour q.bus t → e.Mute c t
  idled : ∀ (i : Nat) e, before.ecus[i]? = some e → e.isNeighbour q.bus t →
    ∃ e', n.ecus[i]? = some e' ∧ e.Idled e'

namespace Apart

variable {n : Network}

theorem receive (h : Apart c q t before n) : Apart c q t before n.receive.world := by
  constructor
  · rw [Network.ecus_receive]
    exact List.forall_mem_map.mpr fun e he hneighbour => (h.mute e he hneighbour).poll _
  · intro i e he hneighbour
    obtain ⟨e', he', hidled⟩ := h.idled i e he hneighbour
    refine ⟨_, ?_, hidled.polled (n.clock + n.latency.nanos)⟩
    rw [Network.ecus_receive, List.getElem?_map, he']
    rfl

theorem send (ht : t.subAddress = some sub) (h : Apart c q t before n) (content : Bytes) :
    Apart c q t before (Network.send [c.frame q.bus t content] n).world := by
  obtain ⟨-, -, hecus⟩ | ⟨-, hecus⟩ := Network.ecus_send (c.frame q.bus t content) n
  · exact ⟨by rw [hecus]; exact h.mute, by rw [hecus]; exact h.idled⟩
  constructor
  · rw [hecus]
    refine List.forall_mem_map.mpr fun e he hneighbour => ?_
    rw [Ecu.isNeighbour_receive] at hneighbour
    rw [Ecu.receive_neighbour ht hneighbour]
    exact h.mute e he hneighbour
  · intro i e he hneighbour
    obtain ⟨e', he', hidled⟩ := h.idled i e he hneighbour
    obtain ⟨hbus, htarget, -⟩ := hidled.keeps
    have hsame : e'.receive n.clock (c.frame q.bus t content) = (e', []) :=
      Ecu.receive_neighbour ht (by rwa [Ecu.isNeighbour_of_place hbus htarget]) _ _
    refine ⟨e', ?_, hidled⟩
    rw [hecus, List.getElem?_map, he', Option.map_some, hsame]

end Apart

/-- What a query for an endpoint sends appears on the network without its neighbours. -/
theorem perform_appears (ht : t.subAddress = some sub) {outputs : List Output}
    (hfor : ∀ f, .send f ∈ outputs → ∃ content, f = c.frame q.bus t content) :
    Appears (·.without (Ecu.isNeighbour q.bus t)) (Apart c q t before)
      (Output.perform Network.link outputs) (Output.perform Network.link outputs) := by
  induction outputs with
  | nil => exact .pure _
  | cons output rest ih =>
      have hrest := ih fun f hf => hfor f (List.mem_cons_of_mem _ hf)
      cases output with
      | note event => exact .note_bind event hrest
      | send f =>
          obtain ⟨content, rfl⟩ := hfor f List.mem_cons_self
          refine .bind (R := fun _ => Apart c q t before) (Link.appears_transmit fun n _ => ?_)
            (fun w hw => hw.send ht content) fun _ => hrest
          exact Network.send_without (fun now e he => Ecu.receive_neighbour ht he now content)
            (fun now e => e.isNeighbour_receive now _) n

theorem perform_apart (ht : t.subAddress = some sub) {outputs : List Output}
    (hfor : ∀ f, .send f ∈ outputs → ∃ content, f = c.frame q.bus t content) :
    Keeps True (Apart c q t before) (Output.perform Network.link outputs) := by
  refine perform_keeps Network.link fun f hf n hn => ?_
  obtain ⟨content, rfl⟩ := hfor f hf
  exact hn.send ht content

/-- What is known before a round. -/
structure Between (c : Settings) (q : Query) (t : Target) (before : Network)
    (all : List Conversation) (n : Network) : Prop where
  about : ∀ s ∈ all, s.About c t
  apart : Apart c q t before n

theorem step_between (ht : t.subAddress = some sub) (all : List Conversation) :
    Meets True (Between c q t before all) (step c q Network.link all)
      (Continues (Between c q t before) fun _ => Apart c q t before) := by
  refine step_meets Network.link c q (R := fun _ => Between c q t before all)
    (S := fun _ _ => Between c q t before all) (fun _ _ hn => hn.apart)
    (fun _ _ _ _ hfailed => by cases hfailed)
    (fun _ _ _ hn _ => ⟨hn.about, hn.apart.receive⟩) (fun _ _ hn => hn) ?played
  case played =>
    intro batch now w hw
    refine (perform_apart ht (Round.frames_play_for hw.about now batch)).mono
      (fun result n hn => ?_) w hw.apart
    cases result with
    | error e => exact hn
    | ok => exact ⟨Round.about_play hw.about now batch, hn⟩

theorem step_appears (ht : t.subAddress = some sub) (all : List Conversation) :
    Appears (·.without (Ecu.isNeighbour q.bus t)) (Between c q t before all)
      (step c q Network.link all) (step c q Network.link all) := by
  rw [step]
  by_cases hover : all.all (·.isOver)
  · rw [if_pos hover]
    exact .pure _
  · rw [if_neg hover]
    refine Link.appears_batch_bind fun n hn => ?_
    obtain ⟨batch, part, hbatch, hpart, hsaid⟩ := Network.receive_without
      (fun _ _ => Ecu.isNeighbour_of_place rfl rfl) hn.apart.mute
    -- the batches differ, but only in what neighbours say, and that is lost on the conversations
    have hplay := fun now => Round.play_said (q := q) hn.about now hsaid
    refine ⟨batch, part, hbatch, hpart, ?_⟩
    simp only [hplay]
    refine .mono (.bind (R := fun _ => Apart c q t before) (Link.appears_clock fun _ _ => rfl)
      (fun _ hw => hw) fun now => ?_) (P := fun world => world = n.receive.world) ?_
    · exact .bind (perform_appears ht (Round.frames_play_for hn.about now batch))
        (perform_apart ht (Round.frames_play_for hn.about now batch)) fun _ => .pure _
    · rintro _ rfl
      exact hn.apart.receive

/-- A query for an endpoint begins with a frame for it. -/
theorem frames_begun_for (htargets : q.targets = [t]) (first : Exchange) (later : List Exchange)
    (start limit : Instant) : ∀ f, .send f ∈
      (q.targets.map (Conversation.begin c q first later start limit)).flatMap (·.2) →
        ∃ content, f = c.frame q.bus t content := by
  rw [htargets, begin_outputs]
  intro f hf
  rw [List.mem_cons, List.mem_singleton] at hf
  obtain hf | hf := hf
  · cases hf
  · cases hf
    exact ⟨_, rfl⟩

theorem about_begun (htargets : q.targets = [t]) (first : Exchange) (later : List Exchange)
    (start limit : Instant) : ∀ s ∈
      (q.targets.map (Conversation.begin c q first later start limit)).map (·.1), s.About c t := by
  rw [htargets]
  exact List.forall_mem_singleton.mpr (.begin first later start limit)

variable (htargets : q.targets = [t]) (ht : t.subAddress = some sub)

include htargets ht

theorem engine_apart (rounds : Nat) :
    Keeps True (Apart c q t before) (engine c Network.link rounds q) := by
  refine engine_meets Network.link c q (N := fun _ => Apart c q t before)
    (M := fun _ => Apart c q t before) (fun _ _ hn => hn) (fun _ hn => hn) (fun _ _ _ hn => hn)
    ?asked (fun _ _ _ hn => hn) ?heard
  case asked =>
    intro first later start limit _ _
    refine (perform_apart ht (frames_begun_for htargets first later start limit)).mono
      fun result n hn => ?_
    cases result with
    | error e => exact hn
    | ok => exact hn
  case heard =>
    intro _ first later start limit _ _ w hw
    exact Meets.loop (step_between ht) rounds _ w
      ⟨about_begun htargets first later start limit, hw⟩

/-- A query for an endpoint appears on the network without its neighbours. -/
theorem engine_appears (rounds : Nat) :
    Appears (·.without (Ecu.isNeighbour q.bus t)) (Apart c q t before)
      (engine c Network.link rounds q) (engine c Network.link rounds q) := by
  rw [engine]
  cases q.exchanges with
  | nil => exact .fail _
  | cons first later =>
      dsimp only
      by_cases hsendable : isSendable q
      · rw [hsendable, Bool.not_true, if_neg Bool.false_ne_true]
        refine .bind (R := fun _ => Apart c q t before) (Link.appears_clock fun _ _ => rfl)
          (fun _ hw => hw) fun start => ?_
        cases Instant.after? start (c.longestWait q.timeout) with
        | none => exact .note_bind _ (.fail _)
        | some limit =>
            have hfor := frames_begun_for (c := c) htargets first later start limit
            refine .bind (perform_appears ht hfor) (perform_apart ht hfor) fun _ => ?_
            by_cases htimeout : q.timeout = .zero
            · rw [if_pos htimeout]
              exact .note_bind _ (.pure _)
            · rw [if_neg htimeout]
              exact (Appears.loop (step_appears ht) (step_between ht) rounds _).mono fun n hn =>
                ⟨about_begun htargets first later start limit, hn⟩
      · rw [Bool.eq_false_iff.mpr hsendable, Bool.not_false, if_pos rfl]
        exact .fail _

end Query

/-! ### Queries on a network end -/

namespace Network

/-- The pace of a network: every reading takes its latency. -/
def pace (latency : Span) : Pace Network where
  steady n := n.latency = latency
  time := Network.clock
  span := latency

theorem link_paced (latency : Span) : link.Paced (pace latency) where
  now _ hn := ⟨hn, Nat.le_refl _, Nat.le_refl _⟩
  receive n hn := ⟨hn, Nat.le_of_eq (congrArg (n.clock + ·.nanos) hn.symm)⟩
  send frames n hn := by
    obtain ⟨clock, latency, ecus, scheduled, sent, faults, sends⟩ := n
    cases faults with
    | zero => exact ⟨hn, Nat.le_refl _⟩
    | succ faults => exact ⟨hn, Nat.le_refl _⟩

/-- When readings take time, every query ends that is allowed a reading more than its longest wait
has room for. -/
theorem engine_ends {c : Settings} {q : Query} {w : Logged Network}
    (hlatency : 0 < w.world.latency.nanos) {rounds : Nat}
    (hrounds : ((c.longestWait q.timeout).nanos + w.world.latency.nanos - 1) /
      w.world.latency.nanos < rounds) :
    ∃ result after, engine c link rounds q w = some (result, after) := by
  obtain ⟨result, record, hrun, -⟩ := (engine_waits (link_paced w.world.latency)
    (le_rounded_mul (c.longestWait q.timeout).nanos hlatency) hrounds).exists_end
    (w := Recorded.blank w) ⟨rfl, rfl⟩
  have hplain := engine_mirrors link c q rounds (Recorded.blank w)
  rw [hrun] at hplain
  exact ⟨result, Recorded.erase record, hplain.symm⟩

end Network

/-- Units behind one address are isolated by their extra address bytes. On every network whose units
have come about by any history, and none of which that is a neighbour of an endpoint has a periodic
frame on the address on which the endpoint is listened to, a query for the endpoint ends, with the
result, the notes and the frames sent, each with its time, of the same query on the network without
these neighbours; and none of them takes a request, or moves in what it takes in or sends out. -/
theorem neighbours_isolated {c : Settings} {q : Query} {t : Target} {sub : UInt8}
    {n bare : Network} {actions : List Action} (htargets : q.targets = [t])
    (hsub : t.subAddress = some sub) (hbare : bare.ecus = [])
    (hunits : n.ecus = (bare.after actions).ecus)
    (hperiodic : ∀ e ∈ n.ecus, e.isNeighbour q.bus t → ∀ p ∈ e.periodic,
      p.address ≠ responseAddress t.address c.responseOffset)
    (hlatency : 0 < n.latency.nanos) {rounds : Nat}
    (hrounds : ((c.longestWait q.timeout).nanos + n.latency.nanos - 1) / n.latency.nanos < rounds)
    (notes : Array Note) :
    ∃ result after alone,
      engine c Network.link rounds q { world := n, notes } = some (result, after) ∧
      engine c Network.link rounds q
        { world := n.without (Ecu.isNeighbour q.bus t), notes } = some (result, alone) ∧
      alone.world = after.world.without (Ecu.isNeighbour q.bus t) ∧
      alone.world.sent = after.world.sent ∧ alone.notes = after.notes ∧
      ∀ (i : Nat) (e : Ecu), n.ecus[i]? = some e → e.isNeighbour q.bus t →
        ∃ e' : Ecu, after.world.ecus[i]? = some e' ∧ e'.requests = e.requests ∧
          e'.incoming = e.incoming ∧ e'.outgoing = e.outgoing := by
  have hspeak : ∀ e ∈ n.ecus, e.SpeaksForItself := by
    rw [hunits]
    refine Network.speaksForItself_after ?_ actions
    rw [hbare]
    exact fun _ he => absurd he List.not_mem_nil
  -- what waits in the outboxes of neighbours bears their own bytes, so they are mute from the start
  have hapart : Apart c q t n n :=
    ⟨fun e he hneighbour => (hspeak e he).mute hsub hneighbour (hperiodic e he hneighbour),
      fun i e he _ => ⟨e, he, .start e⟩⟩
  obtain ⟨result, after, hrun⟩ :=
    Network.engine_ends (w := { world := n, notes }) hlatency hrounds
  have hkept : Apart c q t n after.world :=
    (engine_apart htargets hsub rounds).post (w := { world := n, notes }) hapart hrun
  have hsame := engine_appears htargets hsub rounds { world := n, notes } hapart
  rw [hrun] at hsame
  refine ⟨result, after, _, hrun, hsame, rfl, after.world.sent_without _, rfl,
    fun i e he hneighbour => ?_⟩
  obtain ⟨e', he', hidled⟩ := hkept.idled i e he hneighbour
  obtain ⟨-, -, hkeeps⟩ := hidled.keeps
  exact ⟨e', he', hkeeps⟩

/-- Two units behind one address, the first of which has begun a response of twenty bytes that its
tester has not read yet. -/
def midResponse : Network := ({} : Network).after
  [.attach { Ecu.diagnostic 0 0x750 with
      subAddress := some 0x10
      responses := [([0x22, 0xF1, 0x90], 0x62 :: List.replicate 19 0x30)] } rfl,
    .attach { Ecu.diagnostic 0 0x750 with subAddress := some 0x20 } rfl,
    .send [{ address := 0x750, bus := 0, data := [0x10, 0x03, 0x22, 0xF1, 0x90] }]]

/-- A query that asks the second unit for an extended session. -/
def extendedSession : Query where
  bus := 0
  targets := [{ address := 0x750, subAddress := some 0x20 }]
  exchanges := [{ request := [0x10, 0x03], expected := [0x50, 0x03] }]
  timeout := .ofMillis 50

theorem neighbours_isolated_midResponse :
    (midResponse.ecus.map fun e => (e.isNeighbour 0 { address := 0x750, subAddress := some 0x20 },
      e.requests.size, e.outbox.length, e.outgoing.isSome)) =
        [(true, 1, 1, true), (false, 0, 0, false)] ∧
    ∃ result after alone,
      engine { totalMillis := 100 } Network.link 11 extendedSession { world := midResponse } =
        some (result, after) ∧
      engine { totalMillis := 100 } Network.link 11 extendedSession
        { world := midResponse.without
            (Ecu.isNeighbour 0 { address := 0x750, subAddress := some 0x20 }) } =
        some (result, alone) ∧
      alone.world = after.world.without
        (Ecu.isNeighbour 0 { address := 0x750, subAddress := some 0x20 }) ∧
      alone.world.sent = after.world.sent ∧ alone.notes = after.notes ∧
      ∀ (i : Nat) (e : Ecu), midResponse.ecus[i]? = some e →
        e.isNeighbour 0 { address := 0x750, subAddress := some 0x20 } →
          ∃ e' : Ecu, after.world.ecus[i]? = some e' ∧ e'.requests = e.requests ∧
            e'.incoming = e.incoming ∧ e'.outgoing = e.outgoing :=
  ⟨by decide +kernel, neighbours_isolated rfl rfl rfl rfl (by decide +kernel) (by decide +kernel)
    (by decide +kernel) #[]⟩

end EcuQuiet.Simulation
