import EcuQuiet.Proofs.Disabling.Handshake
import EcuQuiet.Proofs.IsoTp.Steps
import EcuQuiet.Proofs.Simulation.Requests

/-!
# What a disabling delivers

A disabling reports success as soon as communication control was started. A unit takes the request
if its start frame holds all of it; of a longer request the unit is given the beginning and nothing
else.
-/

namespace EcuQuiet

open Run Simulation

namespace IsoTp

variable {σ : Type} {link : Link σ} {c : Settings} {q : Query} {t : Target} {e : Exchange}
  {I J : σ → Prop}

/-- A conversation with one target about one short request, in a world of which something holds. -/
def Alongside (c : Settings) (t : Target) (e : Exchange) (I : σ → Prop) (all : List Conversation)
    (w : σ) : Prop :=
  (∃ s contents, all = [s] ∧ Following c t e contents s) ∧ I w

/-- A round of such a conversation sends nothing but flow control. -/
theorem step_keeps (hlink : link.Keeps I)
    (hflow : ∀ w, I w → I (link.send [c.frame q.bus t c.flowControl] w).world)
    (all : List Conversation) :
    Meets True (Alongside c t e I all) (step c q link all)
      (Continues (Alongside c t e I) fun _ => I) := by
  refine step_meets link c q (R := fun _ => Alongside c t e I all)
    (S := fun _ _ => Alongside c t e I all) (fun _ w hw => hw.2)
    (fun _ w _ hw _ => hlink.receive w hw.2) (fun _ w _ hw _ => ⟨hw.1, hlink.receive w hw.2⟩)
    (fun _ w hw => ⟨hw.1, hlink.now w hw.2⟩) ?played
  case played =>
    rintro batch now w ⟨⟨s, contents, rfl, hs⟩, hw⟩
    obtain ⟨s', outputs, hplay, hs', honly⟩ := hs.play (q := q) now batch
    rw [hplay]
    have hperform : Keeps True I (Output.perform link outputs) := by
      refine perform_keeps link fun frame hframe => ?_
      rw [honly frame hframe]
      exact hflow
    refine hperform.mono (fun result w hw => ?_) w hw
    cases result with
    | error reason => exact hw
    | ok => exact ⟨⟨s', _, rfl, hs'⟩, hw⟩

/-- A query of one short request keeps what its start frame, its flow control and its readings
keep. -/
theorem engine_keeps (hlink : link.Keeps I) (htargets : q.targets = [t])
    (hexchanges : q.exchanges = [e]) (hshort : e.request.length < capacity t)
    (hstart : ∀ w, I w → I (link.send [c.startFrame q.bus t e.request] w).world)
    (hflow : ∀ w, I w → I (link.send [c.frame q.bus t c.flowControl] w).world) (rounds : Nat) :
    Keeps True I (engine c link rounds q) := by
  refine engine_meets link c q (N := fun _ => I) (M := fun _ => I) (fun _ _ hw => hw) hlink.now
    (fun _ _ _ hw => hw) ?asked (fun _ _ _ hw => hw) ?heard
  case asked =>
    intro first later start limit hcons _
    cases hexchanges.symm.trans hcons
    rw [htargets, begin_outputs]
    refine Meets.mono (perform_keeps (I := I) link fun frame hframe => ?_) fun result w hw => ?_
    · obtain rfl : frame = c.startFrame q.bus t e.request := by simpa using hframe
      exact hstart
    · cases result <;> exact hw
  case heard =>
    intro _ first later start limit hcons _ w hw
    cases hexchanges.symm.trans hcons
    rw [htargets]
    exact Meets.loop (step_keeps hlink hflow) rounds _ w ⟨⟨_, [], rfl, .begin hshort⟩, hw⟩

/-- A query that does not wait has sent its start frame when it succeeds. -/
theorem engine_starts (hlink : link.Keeps I) (htargets : q.targets = [t])
    (hexchanges : q.exchanges = [e]) (htimeout : q.timeout = .zero)
    (hfailed : ∀ w cause, I w → (link.send [c.startFrame q.bus t e.request] w).result =
      .error cause → I (link.send [c.startFrame q.bus t e.request] w).world)
    (hsent : ∀ w, I w → (link.send [c.startFrame q.bus t e.request] w).result = .ok () →
      J (link.send [c.startFrame q.bus t e.request] w).world) (rounds : Nat) :
    Meets True I (engine c link rounds q) (Either I J) := by
  refine engine_meets link c q (N := fun _ => I) (M := fun _ => J) (fun _ _ hw => hw) hlink.now
    (fun _ _ _ hw => hw) ?asked (fun _ _ _ hw => hw) (fun hwaits => absurd htimeout hwaits)
  case asked =>
    intro first later start limit hcons _
    cases hexchanges.symm.trans hcons
    rw [htargets, begin_outputs]
    exact Meets.note_bind _ (link.meets_transmit_bind hfailed hsent (Meets.pure _ fun _ hw => hw))

end IsoTp

namespace Disabling

section Contracts

variable {σ : Type} {engine : Engine σ} {link : Link σ} {o : Options} {I J : σ → Prop}

/-- What the last phase comes to after a watch with that verdict. -/
def Silencing.watched (quiet : Bool) : Silencing := if quiet then .confirmed else .timedOut

/-- The last phase, from what the pause or the watch in it owes. -/
theorem awaitSilence_parts {cutOff : Prop} {P : σ → Prop}
    {Q : Except DiagnosticError Silencing → σ → Prop} {rounds : Nat}
    (hleft : o.watchedAddresses = none → ∀ w, P w →
      Q (.ok (.left (o.delay.getD defaultDelay))) (link.sleep (o.delay.getD defaultDelay) w))
    (hwatched : ∀ addresses, o.watchedAddresses = some addresses →
      Meets cutOff P (Silence.watch link rounds o.bus addresses o.watchTimeout o.silence)
        fun verdict w => Q (verdict.map Silencing.watched) w) :
    Meets cutOff P (awaitSilence link rounds o) Q := by
  rw [awaitSilence]
  cases hwatches : o.watchedAddresses with
  | none =>
      exact Meets.note_bind _ (link.meets_pause_bind (hleft hwatches) (Meets.pure _ fun _ hw => hw))
  | some addresses =>
      refine Meets.note_bind _ (Meets.bind (hwatched addresses hwatches) (fun _ _ hw => hw)
        fun quiet => ?_)
      cases quiet with
      | true => exact Meets.note_bind _ (Meets.pure _ fun _ hw => hw)
      | false => exact Meets.note_bind _ (Meets.pure _ fun _ hw => hw)

theorem awaitSilence_keeps (hlink : link.Keeps I) (rounds : Nat) (o : Options) :
    Keeps True I (awaitSilence link rounds o) :=
  awaitSilence_parts (fun _ w hw => hlink.sleep _ w hw) fun addresses _ =>
    Silence.watch_keeps link hlink rounds o.bus addresses o.watchTimeout o.silence

/-- A session query that brings the expected response grants the session. -/
theorem enterSession_grants {cutOff : Prop} {P R : σ → Prop}
    (hsession : Meets cutOff P (engine (sessionQuery o)) fun result w =>
      (∃ answers, result = .ok answers ∧
        answers.get? o.target = some (.ok Uds.extendedSession.expected)) ∧ R w) :
    Meets cutOff P (enterSession engine o) fun result w => result = .ok () ∧ R w := by
  refine Meets.bind hsession ?_ fun answers => ?_
  · rintro reason w ⟨⟨answers, hfailed, -⟩, -⟩
    cases hfailed
  · rintro w ⟨⟨_, hanswers, hget⟩, hw⟩
    obtain rfl := Except.ok.inj hanswers
    rw [hget]
    exact ⟨rfl, hw⟩

/-- An attempt in which the session is granted and communication control is sent comes to what its
last phase comes to. -/
theorem attempt_parts {cutOff : Prop} {P R S : σ → Prop}
    {Q : Except DiagnosticError Silencing → σ → Prop} {rounds : Nat}
    (hsession : Meets cutOff P (enterSession engine o) fun result w => result = .ok () ∧ R w)
    (hcontrol : Meets cutOff R (engine (controlQuery o)) fun result w =>
      (∃ answers, result = .ok answers) ∧ S w)
    (hawait : Meets cutOff S (awaitSilence link rounds o) Q) :
    Meets cutOff P (attempt engine link rounds o) Q := by
  refine Meets.bind hsession ?_ fun _ => Meets.note_bind _ ?_
  · rintro reason w ⟨hfailed, -⟩
    cases hfailed
  refine Meets.bind (R := fun result w => (∃ answers, result = .ok answers) ∧ S w)
    (fun w hw => hcontrol w hw.2) ?_ fun _ => Meets.note_bind _ fun w hw => hawait w hw.2
  · rintro reason w ⟨⟨answers, hfailed⟩, -⟩
    cases hfailed

/-- An attempt comes to what its control query comes to. -/
theorem attempt_meets (hlink : link.Keeps J) (hweaker : ∀ w, J w → I w)
    (hsession : Keeps True I (engine (sessionQuery o)))
    (hcontrol : Meets True I (engine (controlQuery o)) (Either I J)) (rounds : Nat) :
    Meets True I (attempt engine link rounds o) (Either I J) := by
  have henter : Keeps True I (enterSession engine o) := by
    refine Meets.bind hsession (fun _ _ hw => hw) fun answers => ?_
    refine Meets.bind (R := fun _ => I) (Meets.ofExcept _ fun _ hw => hw) (fun _ _ hw => hw)
      fun response => ?_
    exact Meets.noteAll_bind _ (Meets.ofExcept _ fun _ hw => hw)
  refine Meets.bind henter (fun _ _ hw => hw) fun _ => Meets.note_bind _ ?_
  refine Meets.bind hcontrol (fun _ _ hw => hw) fun _ => Meets.note_bind _ ?_
  refine (awaitSilence_keeps hlink rounds o).mono fun result w hw => ?_
  cases result with
  | error reason => exact hweaker w hw
  | ok silencing => exact hw

/-- A series of attempts that succeeds comes to what its last attempt does. -/
theorem attempts_meets {attempt : Run σ Silencing} (h : Meets True I attempt (Either I J))
    (target : Target) (left made : Nat) {w after : Logged σ} {outcome : Outcome} (hw : I w.world)
    (hrun : attempts attempt target left made w = some (outcome, after))
    (hdisabled : outcome.disabled = true) : J after.world := by
  induction left generalizing made w with
  | zero =>
      cases hrun
      cases hdisabled
  | succ left ih =>
      rw [attempts] at hrun
      cases hone : attempt w with
      | none => rw [hone] at hrun; cases hrun
      | some ended =>
          obtain ⟨result, middle⟩ := ended
          have hended := h.post hw hone
          rw [hone] at hrun
          cases result with
          | ok silencing => cases hrun; exact hended
          | error reason =>
              refine ih (made + 1) ?_ hrun
              exact hended

end Contracts

/-- Requests of which each is one of a disabling: the session request, or communication control if
it fits one frame. -/
def Asked (o : Options) (added : List Bytes) : Prop :=
  ∀ request ∈ added, request = [0x10, 0x03] ∨
    request = o.request ∧ o.request.length < IsoTp.capacity o.target

/-- Such requests, with communication control among them if it fits one frame. -/
def Controlled (o : Options) (added : List Bytes) : Prop :=
  Asked o added ∧ (o.request.length < IsoTp.capacity o.target → o.request ∈ added)

variable {o : Options} {i : Nat} {e : Ecu}

theorem told_keeps (described : List Bytes → Prop) :
    Network.link.Keeps (Network.Told i e described) where
  now _ hn := hn
  sleep _ _ hn := hn
  receive _ hn := hn.receive

theorem Asked.append {added more : List Bytes} (h : Asked o added) (hmore : Asked o more) :
    Asked o (added ++ more) := by
  intro request hrequest
  obtain h' | h' := List.mem_append.mp hrequest
  · exact h request h'
  · exact hmore request h'

theorem asked_session (o : Options) : Asked o [[0x10, 0x03]] :=
  fun _ h => .inl (List.mem_singleton.mp h)

/-- The session query has a unit take session requests. -/
theorem session_told (hbus : e.bus = o.bus) (htarget : e.target = o.target) (rounds : Nat) :
    Keeps True (Network.Told i e (Asked o))
      (IsoTp.engine {} Network.link rounds (sessionQuery o)) := by
  have hcapacity := IsoTp.capacity_eq o.target
  have hshort : Uds.extendedSession.request.length < IsoTp.capacity o.target := by
    obtain h | h := hcapacity <;> rw [h] <;> decide
  refine IsoTp.engine_keeps (told_keeps _) rfl rfl hshort (fun n hn => hn.send_keeps ?start)
    (fun n hn => hn.send_keeps ?flow) rounds
  case start =>
    intro e' hbus' htarget'
    have htook := e'.took_short n.clock {} (hbus'.trans hbus) (htarget'.trans htarget) hshort
    exact ⟨_, htook, fun added h => h.append (asked_session o)⟩
  case flow =>
    intro e' hbus' htarget'
    have htook := e'.took_flowControl n.clock {} (hbus'.trans hbus) (htarget'.trans htarget)
    exact ⟨[], htook, fun added h => by rwa [List.append_nil]⟩

/-- The control query has a unit take communication control if its start frame holds it. -/
theorem control_told (hbus : e.bus = o.bus) (htarget : e.target = o.target) (rounds : Nat) :
    Meets True (Network.Told i e (Asked o))
      (IsoTp.engine {} Network.link rounds (controlQuery o))
      (Either (Network.Told i e (Asked o)) (Network.Told i e (Controlled o))) := by
  refine IsoTp.engine_starts (told_keeps _) rfl rfl rfl (fun n _ hn hfailed => hn.fail hfailed)
    (fun n hn hok => hn.send hok fun e' hbus' htarget' => ?_) rounds
  obtain hshort | hlong := Nat.lt_or_ge o.request.length (IsoTp.capacity o.target)
  · have htook := e'.took_short n.clock {} (hbus'.trans hbus) (htarget'.trans htarget) hshort
    have hcontrol : Asked o [o.request] := fun _ h => .inr ⟨List.mem_singleton.mp h, hshort⟩
    exact ⟨_, htook, fun added h =>
      ⟨h.append hcontrol, fun _ => List.mem_append_right _ List.mem_cons_self⟩⟩
  · have htook := e'.took_long n.clock {} (hbus'.trans hbus) (htarget'.trans htarget) hlong
    refine ⟨[], htook, fun added h => ?_⟩
    rw [List.append_nil]
    exact ⟨h, fun hshort => absurd hshort (Nat.not_lt.mpr hlong)⟩

/-- A disabling over frames that reports success has had the unit at the target take communication
control exactly if the request fits one frame, whatever else is on the network and however often
sends fail. -/
theorem control_taken_iff (rounds : Nat) {w after : Logged Network} {outcome : Outcome}
    (hunit : w.world.ecus[i]? = some e) (hbus : e.bus = o.bus) (htarget : e.target = o.target)
    (hrun : runOverFrames Network.link rounds o w = some (outcome, after))
    (hdisabled : outcome.disabled = true) :
    ∃ e' added, after.world.ecus[i]? = some e' ∧
      e'.requests.toList = e.requests.toList ++ added ∧
      (o.request ∈ added ↔ o.request.length < IsoTp.capacity o.target) := by
  have hattempt := attempt_meets (told_keeps _)
    (fun n hn => Network.Told.mono hn fun _ h => h.1) (session_told (i := i) hbus htarget rounds)
    (control_told hbus htarget rounds) rounds
  have hbefore : w.world.Told i e (Asked o) := ⟨e, [], hunit, .refl e, nofun⟩
  have hafter : after.world.Told i e (Controlled o) := by
    rw [runOverFrames, run] at hrun
    split at hrun
    · cases hrun
      cases hdisabled
    · refine attempts_meets hattempt _ _ _ ?_ hrun hdisabled
      exact hbefore
  obtain ⟨e', added, hunit', htook, hasked, htaken⟩ := hafter
  refine ⟨e', added, hunit', htook.requests, fun hmem => ?_, htaken⟩
  obtain hsession | ⟨-, hshort⟩ := hasked _ hmem
  · rw [hsession]
    obtain h | h := IsoTp.capacity_eq o.target <;> rw [h] <;> decide
  · exact hshort

/-- A network of one unit that knows the diagnostic sessions. -/
def lone : Network where
  ecus := [.diagnostic 0 0x7D0]

theorem control_taken_iff_default :
    ∃ after e added, runOverFrames Network.link 50 {} { world := lone } =
        some (⟨true, 1, .left defaultDelay⟩, after) ∧
      after.world.ecus[0]? = some e ∧ e.requests.toList = added ∧ [0x28, 0x83, 0x01] ∈ added := by
  have hrun : (runOverFrames Network.link 50 {} { world := lone }).map (·.1) =
      some ⟨true, 1, .left defaultDelay⟩ := by decide +kernel
  obtain ⟨⟨outcome, after⟩, hrun, rfl⟩ := Option.map_eq_some_iff.mp hrun
  obtain ⟨e, added, hunit, hrequests, htaken⟩ :=
    control_taken_iff (i := 0) (e := .diagnostic 0 0x7D0) 50 rfl rfl rfl hrun rfl
  exact ⟨after, e, added, hrun, hunit, hrequests, htaken.mpr (by decide)⟩

/-- Of a request of eight bytes the unit is given a first frame, and the disabling is over before it
asks for the rest. -/
theorem control_not_taken :
    (runOverFrames Network.link 50 { request := [0x28, 0x83, 0x01, 0, 0, 0, 0, 0] }
        { world := lone }).map (fun (outcome, after) =>
          (outcome, after.world.ecus.map (·.requests))) =
      some (⟨true, 1, .left defaultDelay⟩, [#[[0x10, 0x03]]]) := by
  decide +kernel

end Disabling

end EcuQuiet
