import EcuQuiet.Proofs.IsoTp.Frames
import EcuQuiet.Proofs.IsoTp.Queries

/-!
# Conversations whose only request is out

When the one request of a query has gone out in a single frame, its conversation does nothing but
listen. It reassembles what its target says, frame by frame, sends nothing but flow control, and
comes to a positive answer only with a message that the reassembly has completed.
-/

namespace EcuQuiet.IsoTp

namespace Receiver

/-- The receiver after some content has been taken in. -/
def fed (r : Receiver) (contents : List Bytes) : Receiver :=
  contents.foldl (fun r content => (r.feed content).1) r

/-- What the receiver makes of some content, one frame after the other. -/
def receptions (r : Receiver) : List Bytes → List Reception
  | [] => []
  | content :: rest => (r.feed content).2 :: receptions (r.feed content).1 rest

theorem fed_append (r : Receiver) (first rest : List Bytes) :
    r.fed (first ++ rest) = (r.fed first).fed rest := List.foldl_append

theorem receptions_append (r : Receiver) (first rest : List Bytes) :
    r.receptions (first ++ rest) = r.receptions first ++ (r.fed first).receptions rest := by
  induction first generalizing r with
  | nil => rfl
  | cons content first ih =>
      rw [List.cons_append, receptions, receptions, ih, List.cons_append]
      rfl

end Receiver

/-- What the frames of a bus that carry some address say to an endpoint. -/
def arrivals (bus : UInt8) (address : UInt32) (t : Target) (frames : List Frame) : List Bytes :=
  frames.filterMap fun f =>
    if f.bus = bus ∧ f.address = address then t.content? f.data else none

theorem arrivals_append (bus : UInt8) (address : UInt32) (t : Target) (first rest : List Frame) :
    arrivals bus address t (first ++ rest) =
      arrivals bus address t first ++ arrivals bus address t rest :=
  List.filterMap_append

theorem Performed.heard_eq_nil {outputs : List Output} {result : Except DiagnosticError Unit}
    {uses : List Use} (h : Performed outputs result uses) : Use.heard uses = [] := by
  induction h with
  | nil => rfl
  | note _ ih => exact ih
  | sent _ ih => exact ih
  | failed => rfl

theorem Performed.send_mem {outputs : List Output} {result : Except DiagnosticError Unit}
    {uses : List Use} (h : Performed outputs result uses) {frame : Frame}
    (hframe : frame ∈ Use.frames uses) : .send frame ∈ outputs := by
  induction h with
  | nil => exact absurd hframe List.not_mem_nil
  | note _ ih => exact List.mem_cons_of_mem _ (ih hframe)
  | sent _ ih =>
      obtain rfl | hrest := List.mem_cons.mp hframe
      · exact List.mem_cons_self
      · exact List.mem_cons_of_mem _ (ih hrest)
  | failed =>
      rw [List.mem_singleton.mp hframe]
      exact List.mem_cons_self

/-- What is known of the conversation of one exchange after some content from its target. -/
structure Following (c : Settings) (t : Target) (e : Exchange) (contents : List Bytes)
    (s : Conversation) : Prop where
  target : s.target = t
  address : s.address = responseAddress t.address c.responseOffset
  current : s.current = e
  later : s.later = []
  sender : s.sender = .finished
  waiting : s.status = .waiting → s.receiver = Receiver.fed { blockSize := c.blockSize } contents
  answered : ∀ response, s.status = .answered (.ok response) →
    e.expected <+: response ∧
      .completed response ∈ Receiver.receptions { blockSize := c.blockSize } contents

/-- Outputs of which nothing but our flow control is sent. -/
def OnlyFlowControl (c : Settings) (bus : UInt8) (t : Target) (outputs : List Output) : Prop :=
  ∀ frame, .send frame ∈ outputs → frame = c.frame bus t c.flowControl

@[simp]
theorem onlyFlowControl_nil {c : Settings} {bus : UInt8} {t : Target} :
    OnlyFlowControl c bus t [] := fun _ h => absurd h List.not_mem_nil

@[simp]
theorem onlyFlowControl_note {c : Settings} {bus : UInt8} {t : Target} {event : Note}
    {rest : List Output} :
    OnlyFlowControl c bus t (.note event :: rest) ↔ OnlyFlowControl c bus t rest := by
  constructor
  · intro h frame hframe
    exact h frame (List.mem_cons_of_mem _ hframe)
  · intro h frame hframe
    obtain heq | hrest := List.mem_cons.mp hframe
    · cases heq
    · exact h frame hrest

@[simp]
theorem onlyFlowControl_notes {c : Settings} {bus : UInt8} {t : Target} {events : List Note}
    {rest : List Output} :
    OnlyFlowControl c bus t (events.map .note ++ rest) ↔ OnlyFlowControl c bus t rest := by
  induction events with
  | nil => rfl
  | cons event events ih => simpa using ih

theorem OnlyFlowControl.append {c : Settings} {bus : UInt8} {t : Target}
    {first rest : List Output} (hfirst : OnlyFlowControl c bus t first)
    (hrest : OnlyFlowControl c bus t rest) : OnlyFlowControl c bus t (first ++ rest) := by
  intro frame hframe
  obtain h | h := List.mem_append.mp hframe
  · exact hfirst frame h
  · exact hrest frame h

namespace Following

variable {c : Settings} {q : Query} {t : Target} {e : Exchange} {contents : List Bytes}
  {s : Conversation}

/-- The conversation while it listens. -/
theorem listening (deadline limit : Instant) :
    Following c t e contents
      { target := t, address := responseAddress t.address c.responseOffset, current := e
        later := [], deadline, limit, sender := .finished
        receiver := Receiver.fed { blockSize := c.blockSize } contents } :=
  ⟨rfl, rfl, rfl, rfl, rfl, fun _ => rfl, nofun⟩

/-- The conversation after it has failed. -/
theorem failed (deadline limit : Instant) (receiver : Receiver) (reason : DiagnosticError) :
    Following c t e contents
      { target := t, address := responseAddress t.address c.responseOffset, current := e
        later := [], deadline, limit, sender := .finished, receiver
        status := .answered (.error reason) } :=
  ⟨rfl, rfl, rfl, rfl, rfl, nofun, nofun⟩

theorem begin {start limit : Instant} (hshort : e.request.length < capacity t) :
    Following c t e [] (Conversation.begin c q e [] start limit t).1 := by
  rw [Conversation.begin, Sender.start_of_short hshort]
  exact ⟨rfl, rfl, rfl, rfl, rfl, fun _ => rfl, nofun⟩

/-- More content does not touch a conversation that is over. -/
theorem append (hs : Following c t e contents s) (hover : s.isOver) (more : List Bytes) :
    Following c t e (contents ++ more) s := by
  refine ⟨hs.target, hs.address, hs.current, hs.later, hs.sender, ?_, ?_⟩
  · intro hwaiting
    rw [Conversation.isOver, hwaiting] at hover
    exact absurd hover Bool.false_ne_true
  · intro response hresponse
    obtain ⟨hexpected, hcompleted⟩ := hs.answered response hresponse
    rw [Receiver.receptions_append]
    exact ⟨hexpected, List.mem_append_left _ hcompleted⟩

/-- Taking in content keeps the conversation in step with its reassembly, whatever the content. -/
theorem hear (hs : Following c t e contents s) (hwaiting : s.status = .waiting) (now : Instant)
    (content : Bytes) :
    Following c t e (contents ++ [content]) (s.hear c q now content).1 ∧
      OnlyFlowControl c q.bus t (s.hear c q now content).2 := by
  obtain ⟨target, address, current, later, deadline, limit, sender, receiver, status⟩ := s
  obtain ⟨htarget, haddress, hcurrent, hlater, hsender, hreceiver, -⟩ := hs
  dsimp only at htarget haddress hcurrent hlater hsender hwaiting
  subst htarget haddress hcurrent hlater hsender hwaiting
  obtain rfl : receiver = Receiver.fed { blockSize := c.blockSize } contents := hreceiver rfl
  have hfed : ((Receiver.fed { blockSize := c.blockSize } contents).feed content).1 =
      Receiver.fed { blockSize := c.blockSize } (contents ++ [content]) := by
    rw [Receiver.fed_append]
    rfl
  have hmem : ((Receiver.fed { blockSize := c.blockSize } contents).feed content).2 ∈
      Receiver.receptions { blockSize := c.blockSize } (contents ++ [content]) := by
    rw [Receiver.receptions_append]
    exact List.mem_append_right _ List.mem_cons_self
  dsimp only [Conversation.hear]
  rw [hfed]
  cases hreception : ((Receiver.fed { blockSize := c.blockSize } contents).feed content).2 with
  | nothing | unknown | stray | progress => exact ⟨listening _ _, by simp⟩
  | flowControl =>
      -- the sender has finished, so no flow control is waited for
      exact ⟨listening _ _, by simp [Conversation.permit, Sender.permit]⟩
  | flowControlDue =>
      refine ⟨listening _ _, ?_⟩
      intro frame hframe
      cases List.mem_singleton.mp hframe
      rfl
  | faulty fault => exact ⟨failed _ _ _ _, by simp⟩
  | completed response =>
      rw [hreception] at hmem
      dsimp only [Conversation.respond]
      split
      next =>
        split
        next => exact ⟨listening _ _, by simp⟩
        next => exact ⟨failed _ _ _ _, by simp⟩
      next =>
        split
        next haccepts =>
          refine ⟨⟨rfl, rfl, rfl, rfl, rfl, nofun, ?_⟩, by simp⟩
          intro _ h
          cases h
          exact ⟨Exchange.accepts_iff.mp haccepts, hmem⟩
        next => exact ⟨failed _ _ _ _, by simp⟩

theorem receive (hs : Following c t e contents s) (now : Instant) (f : Frame)
    (hbus : f.bus = q.bus) :
    Following c t e
        (contents ++ arrivals q.bus (responseAddress t.address c.responseOffset) t [f])
        (s.receive c q now f).1 ∧
      OnlyFlowControl c q.bus t (s.receive c q now f).2 := by
  by_cases hover : s.isOver
  · rw [Conversation.receive, hover, Bool.not_true, Bool.false_and, if_neg Bool.false_ne_true]
    exact ⟨hs.append hover _, by simp⟩
  · have hwaiting : s.status = .waiting := by
      cases hstatus : s.status with
      | waiting => rfl
      | answered | unanswered => simp [Conversation.isOver, hstatus] at hover
    rw [Conversation.receive, Bool.eq_false_iff.mpr hover, Bool.not_false, Bool.true_and,
      hs.address, hs.target, arrivals, List.filterMap_cons, List.filterMap_nil]
    by_cases haddress : responseAddress t.address c.responseOffset = f.address
    · rw [if_pos (decide_eq_true haddress), if_pos ⟨hbus, haddress.symm⟩]
      cases t.content? f.data with
      | none =>
          dsimp only
          rw [List.append_nil]
          exact ⟨hs, by simp⟩
      | some content => exact hs.hear hwaiting now content
    · have hother : ¬ (f.bus = q.bus ∧ f.address = responseAddress t.address c.responseOffset) :=
        fun h => haddress h.2.symm
      rw [decide_eq_false haddress, if_neg Bool.false_ne_true, if_neg hother]
      dsimp only
      rw [List.append_nil]
      exact ⟨hs, by simp⟩

/-- The clock alone sends nothing any more. -/
theorem tick (hs : Following c t e contents s) (now : Instant) :
    Following c t e contents (s.tick c q now).1 ∧
      OnlyFlowControl c q.bus t (s.tick c q now).2 := by
  obtain ⟨target, address, current, later, deadline, limit, sender, receiver, status⟩ := s
  obtain ⟨htarget, haddress, hcurrent, hlater, hsender, hreceiver, hanswered⟩ := hs
  dsimp only at htarget haddress hcurrent hlater hsender
  subst htarget haddress hcurrent hlater hsender
  rw [Conversation.tick]
  split
  · exact ⟨⟨rfl, rfl, rfl, rfl, rfl, hreceiver, hanswered⟩, by simp⟩
  · -- a sender that has finished has no frames to hand out
    dsimp only [Conversation.transmit, Sender.burst, Sender.rest, List.length_nil,
      Sender.burstUpTo, List.getLast?_nil, Option.map_none, Option.getD_none, List.flatMap_nil]
    split
    · exact ⟨⟨rfl, rfl, rfl, rfl, rfl, nofun, nofun⟩, by simp⟩
    · exact ⟨⟨rfl, rfl, rfl, rfl, rfl, hreceiver, hanswered⟩, by simp⟩

theorem receiveAll (hs : Following c t e contents s) (now : Instant) (batch : List Frame) :
    Following c t e
        (contents ++ arrivals q.bus (responseAddress t.address c.responseOffset) t batch)
        (s.receiveAll c q now (batch.filter (·.bus = q.bus))).1 ∧
      OnlyFlowControl c q.bus t (s.receiveAll c q now (batch.filter (·.bus = q.bus))).2 := by
  induction batch generalizing contents s with
  | nil =>
      rw [arrivals, List.filterMap_nil, List.append_nil]
      exact ⟨hs, onlyFlowControl_nil⟩
  | cons f batch ih =>
      rw [← List.singleton_append, arrivals_append, List.filter_append, ← List.append_assoc,
        List.filter_singleton]
      by_cases hbus : f.bus = q.bus
      · obtain ⟨hreceived, hfirst⟩ := hs.receive now f hbus
        obtain ⟨hs', hrest⟩ := ih hreceived
        rw [decide_eq_true hbus]
        exact ⟨hs', hfirst.append hrest⟩
      · have hnothing : arrivals q.bus (responseAddress t.address c.responseOffset) t [f] = [] := by
          rw [arrivals, List.filterMap_cons, List.filterMap_nil, if_neg fun h => hbus h.1]
        rw [decide_eq_false hbus, hnothing, List.append_nil]
        exact ih hs

theorem play (hs : Following c t e contents s) (now : Instant) (batch : List Frame) :
    ∃ s' outputs, Round.play c q now batch [s] = ([s'], outputs) ∧
      Following c t e
        (contents ++ arrivals q.bus (responseAddress t.address c.responseOffset) t batch) s' ∧
      OnlyFlowControl c q.bus t outputs := by
  obtain ⟨hreceived, hheard⟩ := hs.receiveAll (q := q) now batch
  obtain ⟨hticked, hsent⟩ := hreceived.tick (q := q) now
  exact ⟨_, _, play_singleton c q now batch s, hticked, hheard.append hsent⟩

/-- Until a query that follows one target ends, it sends nothing but flow control; and it ends with
the answer that the reassembly of what it received has led to. -/
theorem listened (hs : Following c t e contents s) {result : Except DiagnosticError Answers}
    {uses : List Use} (h : Listened c q [s] result uses) :
    (∀ frame ∈ Use.frames uses, frame = c.frame q.bus t c.flowControl) ∧
      ∀ answers, result = .ok answers → ∃ s', answers = Round.answers [s'] ∧
        Following c t e (contents ++
          arrivals q.bus (responseAddress t.address c.responseOffset) t (Use.heard uses)) s' := by
  generalize hall : [s] = all at h
  induction h generalizing contents s with
  | ended hover =>
      subst hall
      refine ⟨fun _ h => absurd h List.not_mem_nil, ?_⟩
      rintro answers hanswers
      cases hanswers
      refine ⟨s, rfl, ?_⟩
      rw [Use.heard, List.flatMap_nil, arrivals, List.filterMap_nil, List.append_nil]
      exact hs
  | failed hopen => exact ⟨fun _ h => absurd h List.not_mem_nil, fun _ h => by cases h⟩
  | @unsent all batch now reason sends hopen hsends =>
      subst hall
      obtain ⟨s', outputs, hplay, -, honly⟩ := hs.play (q := q) now batch
      rw [hplay] at hsends
      exact ⟨fun frame hframe => honly frame (hsends.send_mem hframe), fun _ h => by cases h⟩
  | @round all batch now result sends rest hopen hsends hrest ih =>
      subst hall
      obtain ⟨s', outputs, hplay, hs', honly⟩ := hs.play (q := q) now batch
      rw [hplay] at hsends ih
      obtain ⟨hframes, hanswers⟩ := ih hs' rfl
      have hheard : Use.heard (.received (.ok batch) :: .read now :: sends ++ rest) =
          batch ++ Use.heard rest := by
        rw [Use.heard_append]
        show batch ++ Use.heard sends ++ Use.heard rest = batch ++ Use.heard rest
        rw [hsends.heard_eq_nil, List.append_nil]
      constructor
      · intro frame hframe
        rw [Use.frames_append] at hframe
        obtain h | h := List.mem_append.mp hframe
        · exact honly frame (hsends.send_mem h)
        · exact hframes frame h
      · rw [hheard, arrivals_append, ← List.append_assoc]
        exact hanswers

/-- The answer of a query that follows one target is the one its conversation came to. -/
theorem status_of_get? (hs : Following c t e contents s) {answer : Answer}
    (h : (Round.answers [s]).get? t = some answer) : s.status = .answered answer := by
  rw [Round.answers, List.filterMap_cons, List.filterMap_nil, Conversation.answer?] at h
  cases hstatus : s.status with
  | waiting | unanswered =>
      rw [hstatus] at h
      cases h
  | answered a =>
      rw [hstatus, hs.target] at h
      have hget : ((Answers.empty.insert t a).get? t) = some answer := h
      rw [Answers.get?_insert, if_pos rfl] at hget
      cases hget
      rfl

end Following

/-- What conversations begin with is noted and sent; a query of one target sends one frame. -/
theorem Performed.of_begin {c : Settings} {q : Query} {t : Target} {e : Exchange}
    {later : List Exchange} {start limit : Instant} {result : Except DiagnosticError Unit}
    {uses : List Use} (h : Performed (([t].map
      (Conversation.begin c q e later start limit)).flatMap (·.2)) result uses) :
    ∃ sent, uses = [.sent [c.startFrame q.bus t e.request] sent] := by
  cases h with
  | note hsend =>
      cases hsend with
      | sent hnil => cases hnil; exact ⟨_, rfl⟩
      | failed => exact ⟨_, rfl⟩

namespace Queried

variable {c : Settings} {q : Query} {t : Target} {e : Exchange}
  {result : Except DiagnosticError Answers} {uses : List Use}

/-- A query that does not wait gives its one frame to the link, or none. -/
theorem of_unheard (htargets : q.targets = [t]) (hexchanges : q.exchanges = [e])
    (htimeout : q.timeout = .zero) (h : Queried c q result uses) :
    uses = [] ∨ (∃ start, uses = [.read start]) ∨
      ∃ start sent, uses = [.read start, .sent [c.startFrame q.bus t e.request] sent] := by
  cases h with
  | refused => exact Or.inl rfl
  | outOfRange => exact Or.inr (Or.inl ⟨_, rfl⟩)
  | unsent hcons hrange hsends =>
      cases hexchanges.symm.trans hcons
      rw [htargets] at hsends
      obtain ⟨sent, rfl⟩ := hsends.of_begin
      exact Or.inr (Or.inr ⟨_, sent, rfl⟩)
  | unheard hcons hrange hsends =>
      cases hexchanges.symm.trans hcons
      rw [htargets] at hsends
      obtain ⟨sent, rfl⟩ := hsends.of_begin
      exact Or.inr (Or.inr ⟨_, sent, rfl⟩)
  | heard _ _ _ hwaits => exact absurd htimeout hwaits

/-- A query that puts one short request to one target gives its start frame to the link once, and
nothing but flow control after it. It gives the link no frame at all only if the clock cannot show
when it would end. A positive answer is a message that was reassembled from what was received. -/
theorem of_short (htargets : q.targets = [t]) (hexchanges : q.exchanges = [e])
    (hpos : 1 ≤ e.request.length) (hshort : e.request.length < capacity t)
    (h : Queried c q result uses) :
    (∃ start, uses = [.read start] ∧ result = .error .invalidParameter ∧
      Instant.after? start (c.longestWait q.timeout) = none) ∨
    ∃ start sent rest, uses = .read start :: .sent [c.startFrame q.bus t e.request] sent :: rest ∧
      (∀ frame ∈ Use.frames rest, frame = c.frame q.bus t c.flowControl) ∧
      ∀ answers response, result = .ok answers → answers.get? t = some (.ok response) →
        e.expected <+: response ∧
          .completed response ∈ Receiver.receptions { blockSize := c.blockSize }
            (arrivals q.bus (responseAddress t.address c.responseOffset) t (Use.heard rest)) := by
  have hcapacity := capacity_eq t
  have hnone : ∀ frame ∈ Use.frames [], frame = c.frame q.bus t c.flowControl :=
    fun _ hframe => absurd hframe List.not_mem_nil
  cases h with
  | refused hrefused =>
      obtain hnil | hlong := hrefused
      · rw [hexchanges] at hnil
        cases hnil
      · have hsendable : 1 ≤ e.request.length ∧ e.request.length ≤ longestMessage := by
          simp only [longestMessage]
          omega
        simp [isSendable, hexchanges, hsendable] at hlong
  | outOfRange _ hrange => exact Or.inl ⟨_, rfl, rfl, hrange⟩
  | unsent hcons hrange hsends =>
      cases hexchanges.symm.trans hcons
      rw [htargets] at hsends
      obtain ⟨sent, rfl⟩ := hsends.of_begin
      exact Or.inr ⟨_, sent, [], rfl, hnone, fun _ _ hresult => by cases hresult⟩
  | unheard hcons hrange hsends =>
      cases hexchanges.symm.trans hcons
      rw [htargets] at hsends
      obtain ⟨sent, rfl⟩ := hsends.of_begin
      refine Or.inr ⟨_, sent, [], rfl, hnone, ?_⟩
      intro answers response hresult hanswer
      cases hresult
      rw [Answers.get?_empty] at hanswer
      cases hanswer
  | heard hcons hrange hsends hwaits hrest =>
      cases hexchanges.symm.trans hcons
      rw [htargets] at hsends hrest
      obtain ⟨sent, rfl⟩ := hsends.of_begin
      obtain ⟨hframes, hanswers⟩ := (Following.begin hshort).listened hrest
      refine Or.inr ⟨_, sent, _, rfl, hframes, ?_⟩
      intro answers response hresult hanswer
      obtain ⟨s, rfl, hs⟩ := hanswers answers hresult
      exact hs.answered response (hs.status_of_get? hanswer)

end Queried

end EcuQuiet.IsoTp
