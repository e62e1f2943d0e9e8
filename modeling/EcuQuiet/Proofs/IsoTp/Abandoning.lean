import EcuQuiet.Proofs.IsoTp.Pending
import EcuQuiet.Proofs.IsoTp.Waiting

/-!
# Targets that are given up while their request is sent

A flow control moves the deadline of its target; the consecutive frames that it lets through do not.
With pauses between them, which may be almost as long as the timeout, the deadline can come while
some of these frames are still to be sent. The target is then given up in the middle of its request,
however steadily the bus is read. Only in three cases does this not happen before the limit of the
query: the limit comes no later than the deadline, the timeout is so short that no pause is shorter,
or what is left of the request fits one frame.
-/

namespace EcuQuiet.IsoTp

/-! ### Senders -/

/-- The shortest separation time that is not zero. -/
def shortestPause : Nat := 100000

theorem separationTime_of_lt {b : UInt8} (h : (separationTime b).nanos < shortestPause) :
    (separationTime b).nanos = 0 := by
  have hall : ∀ n : Fin 256, (separationTime (UInt8.ofFin n)).nanos < shortestPause →
      (separationTime (UInt8.ofFin n)).nanos = 0 := by decide +kernel
  exact hall b.toFin h

namespace Sender

variable {size : Nat} {now : Instant} {s after : Sender}

/-- Whether consecutive frames are still to be sent that a flow control has let through. -/
def isSending : Sender → Bool
  | sending .. => true
  | _ => false

/-- Whether a sender need not pause between frames. -/
def Unpaused (s : Sender) : Prop :=
  ∀ rest sequence budget gap since, s = sending rest sequence budget gap since → gap.nanos = 0

theorem unpaused_of_not_sending (h : s.isSending = false) : s.Unpaused := by
  rintro rest sequence budget gap since rfl
  cases h

theorem next?_of_lt {rest : Bytes} {sequence : Nat} {budget : Option Nat} {gap : Span}
    {since : Instant} (h : now - since < gap.nanos) :
    (sending rest sequence budget gap since).next? size now = none := by
  rw [next?, if_pos h]

theorem lt_of_next? {rest : Bytes} {sequence : Nat} {budget : Option Nat} {gap : Span}
    {since : Instant} (h : (sending rest sequence budget gap since).next? size now = none) :
    now - since < gap.nanos := by
  by_contra hgap
  rw [next?_sending (Nat.le_of_not_lt hgap)] at h
  cases h

theorem gap_behind {rest later : Bytes} {sequence next : Nat} {budget left : Option Nat}
    {gap pause : Span} {since : Instant}
    (h : behind size now rest sequence budget gap = sending later next left pause since) :
    pause = gap := by
  rw [behind] at h
  split at h
  next => cases h
  next =>
    split at h
    next => cases h
    next =>
      cases h
      rfl

/-- What is left is handed out with one frame if it fits. -/
theorem next?_eq_finished {content : Bytes} (hrest : s.rest.length ≤ size - 1)
    (h : s.next? size now = some (content, after)) : after = finished := by
  obtain ⟨rest, sequence, budget, gap, since, rfl, -, -, rfl⟩ := next?_eq_some h
  have hnothing : rest.drop (size - 1) = [] := List.drop_eq_nil_of_le hrest
  rw [behind, hnothing]
  rfl

/-- A sender has handed out all that may be sent now. What every frame keeps holds of the sender
that is left. -/
structure Exhausts (size : Nat) (now : Instant) (s after : Sender) : Prop where
  keeps : ∀ P : Sender → Prop, P s → (∀ earlier content later, P earlier →
    earlier.next? size now = some (content, later) → P later) → P after
  none_left : after.next? size now = none

theorem exhausts_burst (hsize : 2 ≤ size) (hlive : s.Live) :
    Exhausts size now s (((s.burst size now).getLast?.map (·.2)).getD s) := by
  refine ⟨fun P hs hnext => ?_, (burstUpTo_complete hsize hlive (Nat.le_refl _)).2⟩
  have hall : ∀ limit s, P s → P (((burstUpTo size now limit s).getLast?.map (·.2)).getD s) := by
    intro limit
    induction limit with
    | zero => exact fun _ hs => hs
    | succ limit ih =>
        intro s hs
        rw [burstUpTo]
        split
        next => exact hs
        next content later hlater =>
          rw [last_cons]
          exact ih later (hnext s content later hs hlater)
  exact hall s.rest.length s hs

theorem Exhausts.isSending (h : Exhausts size now s after) (hafter : after.isSending = true) :
    s.isSending = true := by
  refine h.keeps (fun x => x.isSending = true → s.isSending = true) id ?_ hafter
  intro earlier content later hearlier hnext _
  obtain ⟨rest, sequence, budget, gap, since, rfl, -⟩ := next?_eq_some hnext
  exact hearlier rfl

/-- A sender that need not pause does not stop before all is sent that may be. -/
theorem Exhausts.not_sending (h : Exhausts size now s after) (hs : s.Unpaused) :
    after.isSending = false := by
  have hafter : after.Unpaused := by
    refine h.keeps Unpaused hs ?_
    intro earlier content later hearlier hnext rest sequence budget gap since hsending
    obtain ⟨_, _, _, _, _, rfl, -, -, rfl⟩ := next?_eq_some hnext
    rw [gap_behind hsending]
    exact hearlier _ _ _ _ _ rfl
  cases after with
  | finished | blocked => rfl
  | sending rest sequence budget gap since =>
      have hpause := lt_of_next? h.none_left
      rw [hafter _ _ _ _ _ rfl] at hpause
      exact absurd hpause (Nat.not_lt_zero _)

theorem Exhausts.eq_or_finished (h : Exhausts size now s after) (hrest : s.rest.length ≤ size - 1) :
    after = s ∨ after = finished := by
  refine h.keeps (fun x => x = s ∨ x = finished) (.inl rfl) ?_
  rintro earlier content later (rfl | rfl) hnext
  · exact .inr (next?_eq_finished hrest hnext)
  · cases hnext

/-- A sender that has to pause hands out one frame at a time. -/
theorem burst_paused {rest : Bytes} (sequence : Nat) {gap : Span} {since : Instant}
    (hpause : 0 < gap.nanos) (hgap : gap.nanos ≤ now - since) (hmore : size - 1 < rest.length) :
    (sending rest sequence none gap since).burst size now =
      [(ofHalves 2 sequence :: rest.take (size - 1),
        sending (rest.drop (size - 1)) ((sequence + 1) % 16) none gap now)] := by
  have hlength : (sending rest sequence none gap since).rest.length = (rest.length - 1) + 1 :=
    (Nat.sub_add_cancel (Nat.lt_of_le_of_lt (Nat.zero_le _) hmore)).symm
  have hlater : (rest.drop (size - 1)).isEmpty = false := by
    rw [List.isEmpty_eq_false_iff, ← List.length_pos_iff, List.length_drop]
    exact Nat.sub_pos_of_lt hmore
  have hbehind : behind size now rest sequence none gap =
      sending (rest.drop (size - 1)) ((sequence + 1) % 16) none gap now := by
    rw [behind, hlater, if_neg Bool.false_ne_true]
    rfl
  have hpaused : now - now < gap.nanos := by rwa [Nat.sub_self]
  rw [burst, hlength, burstUpTo, next?_sending hgap, hbehind]
  exact congrArg _ (burstUpTo_of_next? (next?_of_lt hpaused) _)

end Sender

/-! ### Readings -/

/-- Events are at the times of the readings. -/
theorem Readings.time_mem {bus : UInt8} {readings : Readings} {event : Instant × Event}
    (h : event ∈ events bus readings) : event.1 ∈ readings.map (·.1) := by
  obtain ⟨reading, hreading, hevent⟩ := List.mem_flatMap.mp h
  obtain ⟨now, batch⟩ := reading
  refine List.mem_map.mpr ⟨(now, batch), hreading, ?_⟩
  obtain hframe | hclock := List.mem_append.mp hevent
  · obtain ⟨f, -, rfl⟩ := List.mem_map.mp hframe
    rfl
  · rw [List.mem_singleton.mp hclock]

/-- Times at which a bus is read, each less than a timeout after the one before. -/
def Prompt (timeout : Span) (start : Instant) (times : List Instant) : Prop :=
  (start :: times).IsChain fun now next => now ≤ next ∧ next < now + timeout.nanos

theorem Prompt.start_le {timeout : Span} {start time : Instant} {times : List Instant}
    (h : Prompt timeout start times) (htime : time ∈ times) : start ≤ time :=
  List.rel_of_pairwise_cons (List.IsChain.imp (fun _ _ => And.left) h).pairwise htime

/-! ### Steps -/

/-- A flow control that says to go on, with pauses that are shorter than a timeout. -/
inductive SaysGoOn (timeout : Span) : Bytes → Prop
  | intro {head blockSize separation : UInt8} {rest : Bytes} (hkind : highHalf head = 3)
      (hstatus : lowHalf head = 0) (hpause : separationTime separation < timeout) :
      SaysGoOn timeout (head :: blockSize :: separation :: rest)

/-- In a step, a target says nothing of consequence; or, before its deadline, to go on. -/
def Step.Cooperates (timeout : Span) (step : Step) : Prop :=
  ∀ f content, step.event = .frame f → step.before.told? f = some content →
    step.before.Ignores content ∨
      SaysGoOn timeout content ∧ step.time < step.before.deadline

/-- A step that gives a target up while frames are still to be sent that it has let through. -/
structure Step.Abandons (step : Step) : Prop where
  opened : step.before.isOver = false
  unanswered : step.after.status = .unanswered
  sending : step.after.sender.isSending = true

namespace Conversation

variable {c : Settings} {q : Query} {s : Conversation} {now limit : Instant}

/-- A flow control sets a sender going that waits for it. -/
theorem hear_of_saysGoOn (c : Settings) (q : Query) (now : Instant) {timeout : Span}
    {content rest : Bytes} {sequence : Nat} (hsender : s.sender = .blocked rest sequence)
    (h : SaysGoOn timeout content) :
    ∃ budget separation, separationTime separation < timeout ∧
      (s.hear c q now content).1 = { s.extend now q.timeout with
        sender := .sending rest sequence budget (separationTime separation) now } := by
  cases h with
  | @intro head blockSize separation more hkind hstatus hpause =>
      refine ⟨if blockSize = 0 then none else some blockSize.toNat, separation, hpause, ?_⟩
      simp only [hear, Receiver.feed_flowControl _ hkind, permit, hsender, Sender.permit, hstatus,
        extend]

/-- A frame from a target that cooperates does nothing, or it sets the sender going. -/
theorem step_frame_of_cooperates {timeout : Span} {f : Frame}
    (h : (s.step c q now (.frame f)).Cooperates timeout) :
    (s.step c q now (.frame f)).after = s ∨
      ∃ rest sequence budget separation, s.sender = .blocked rest sequence ∧
        separationTime separation < timeout ∧
        (s.step c q now (.frame f)).after = { s.extend now q.timeout with
          sender := .sending rest sequence budget (separationTime separation) now } := by
  have hafter : (s.step c q now (.frame f)).after = (s.receive c q now f).1 := rfl
  rw [hafter, receive_eq]
  cases htold : s.told? f with
  | none => exact .inl rfl
  | some content =>
      obtain hignores | ⟨hgoes, -⟩ := h f content rfl htold
      · exact .inl (hear_of_ignores hignores).1
      · cases hsender : s.sender with
        | blocked rest sequence =>
            obtain ⟨budget, separation, hpause, hheard⟩ :=
              hear_of_saysGoOn c q now hsender hgoes
            exact .inr ⟨rest, sequence, budget, separation, rfl, hpause, hheard⟩
        | finished | sending =>
            -- no flow control is waited for, so this one is of no consequence
            refine .inl (hear_of_ignores ?_).1
            obtain ⟨hkind, -, -⟩ := hgoes
            intro byte hbyte
            cases hbyte
            exact .inr (.inr ⟨hkind, by rw [hsender]; rfl⟩)

/-- The clock lets all frames go out that may, and gives a target up that is late. -/
theorem step_clock (c : Settings) (q : Query) (now : Instant) (hlive : s.sender.Live)
    (hopen : s.isOver = false) :
    ∃ sender, Sender.Exhausts (capacity s.target) now s.sender sender ∧
      (s.step c q now .clock).after = { s with
        sender, status := if s.deadline ≤ now then .unanswered else .waiting } :=
  ⟨_, Sender.exhausts_burst (two_le_capacity s.target) hlive, (tick_open hopen).1⟩

/-- Why a target is not given up before a limit while consecutive frames are still to be sent to
it. -/
inductive Kept (q : Query) (now limit : Instant) (s : Conversation) : Prop
  /-- Every flow control from now on puts the deadline off to the limit. -/
  | limited (hlimit : limit ≤ now + q.timeout.nanos)
      (hdeadline : s.sender.isSending = true → limit ≤ s.deadline)
  /-- There are no pauses. -/
  | unpaused (hshort : q.timeout.nanos ≤ shortestPause) (hgap : s.sender.Unpaused)
  /-- There is one frame to be sent, after a pause that ends before the deadline. -/
  | last (hrest : s.sender.rest.length ≤ capacity s.target - 1)
      (hgap : ∀ rest sequence budget gap since,
        s.sender = .sending rest sequence budget gap since → gap < q.timeout ∧
          min (since + q.timeout.nanos) limit ≤ s.deadline)

/-- A flow control keeps it so. -/
theorem Kept.granted (h : s.Kept q now limit) {later : Instant} (hnow : now ≤ later)
    (hs : s.limit = limit) (hlatest : limit ≤ Instant.latest) {rest : Bytes} {sequence : Nat}
    (hsender : s.sender = .blocked rest sequence) (budget : Option Nat) {separation : UInt8}
    (hpause : separationTime separation < q.timeout) :
    Kept q now limit { s.extend later q.timeout with
      sender := .sending rest sequence budget (separationTime separation) later } := by
  have hdeadline : (s.extend later q.timeout).deadline = min (later + q.timeout.nanos) limit := by
    rw [s.deadline_extend (hs ▸ hlatest), hs]
  cases h with
  | limited hlimit =>
      refine .limited hlimit fun _ => ?_
      dsimp only
      rw [hdeadline]
      exact Nat.le_min.mpr
        ⟨Nat.le_trans hlimit (Nat.add_le_add_right hnow _), Nat.le_refl limit⟩
  | unpaused hshort =>
      refine .unpaused hshort fun _ _ _ gap _ hsending => ?_
      cases hsending
      exact separationTime_of_lt (Nat.lt_of_lt_of_le hpause hshort)
  | last hrest =>
      refine .last ?_ fun _ _ _ _ _ hsending => ?_
      · rw [hsender] at hrest
        simpa [Sender.rest] using hrest
      · cases hsending
        dsimp only
        rw [hdeadline]
        exact ⟨hpause, Nat.le_refl _⟩

/-- The clock keeps it so, and gives no target up before the limit to which frames are still to be
sent. -/
theorem Kept.clock (h : s.Kept q now limit) (hlive : s.sender.Live) (hopen : s.isOver = false)
    (later : Instant) :
    Kept q now limit (s.step c q later .clock).after ∧
      ((s.step c q later .clock).Abandons → limit ≤ later) := by
  obtain ⟨sender, hsender, hafter⟩ := step_clock c q later hlive hopen
  have hlate : (s.step c q later .clock).Abandons →
      s.deadline ≤ later ∧ sender.isSending = true := by
    rintro ⟨-, hunanswered, hsending⟩
    rw [hafter] at hunanswered hsending
    dsimp only at hunanswered
    split at hunanswered
    next hlate => exact ⟨hlate, hsending⟩
    next => cases hunanswered
  rw [hafter]
  cases h with
  | limited hlimit hdeadline =>
      refine ⟨.limited hlimit fun h => hdeadline (hsender.isSending h), fun habandons => ?_⟩
      obtain ⟨hlate, hsending⟩ := hlate habandons
      exact Nat.le_trans (hdeadline (hsender.isSending hsending)) hlate
  | unpaused hshort hgap =>
      have hsent := hsender.not_sending hgap
      refine ⟨.unpaused hshort (Sender.unpaused_of_not_sending hsent), fun habandons => ?_⟩
      rw [(hlate habandons).2] at hsent
      cases hsent
  | last hrest hgap =>
      obtain rfl | rfl := hsender.eq_or_finished hrest
      · refine ⟨.last hrest hgap, fun habandons => ?_⟩
        obtain ⟨hdeadline, hsending⟩ := hlate habandons
        have hnone := hsender.none_left
        cases hsame : s.sender with
        | finished | blocked =>
            rw [hsame] at hsending
            cases hsending
        | sending rest sequence budget gap since =>
            -- the frame has not gone out, so its pause is not over, and neither is the timeout
            obtain ⟨hpause, hwait⟩ := hgap _ _ _ _ _ hsame
            rw [hsame] at hnone
            have hearly := Sender.lt_of_next? hnone
            rw [Span.lt_iff] at hpause
            simp only [Instant] at *
            omega
      · refine ⟨.last (Nat.zero_le _) nofun, fun habandons => ?_⟩
        cases (hlate habandons).2

/-- A step in which the target cooperates keeps it so, and gives no target up before the limit to
which frames are still to be sent. -/
theorem Kept.step (h : s.Kept q now limit) (hs : s.Bounded limit) (hlatest : limit ≤ Instant.latest)
    (hopen : s.isOver = false) {later : Instant} (hlater : now ≤ later) {event : Event}
    (hcooperates : (s.step c q later event).Cooperates q.timeout) :
    Kept q now limit (s.step c q later event).after ∧
      ((s.step c q later event).Abandons → limit ≤ later) := by
  have hwaiting := isOver_eq_false_iff.mp hopen
  cases event with
  | clock => exact h.clock hs.live hopen later
  | frame f =>
      obtain hafter | ⟨rest, sequence, budget, separation, hsender, hpause, hafter⟩ :=
        step_frame_of_cooperates hcooperates
      · refine ⟨hafter.symm ▸ h, ?_⟩
        rintro ⟨-, hunanswered, -⟩
        rw [hafter, hwaiting] at hunanswered
        cases hunanswered
      · refine ⟨?_, ?_⟩
        · rw [hafter]
          exact h.granted hlater hs.limit_eq hlatest hsender budget hpause
        · rintro ⟨-, hunanswered, -⟩
          rw [hafter] at hunanswered
          simp [hwaiting] at hunanswered

theorem Bounded.step (h : s.Bounded limit) (now : Instant) (event : Event) :
    Bounded limit (s.step c q now event).after := by
  cases event with
  | frame f => exact h.receive now f
  | clock => exact h.tick now

theorem Bounded.through (h : s.Bounded limit) (events : List (Instant × Event)) :
    Bounded limit (s.through c q events) := by
  induction events generalizing s with
  | nil => exact h
  | cons event rest ih => exact ih (h.step event.1 event.2)

/-- A target that cooperates is not given up before the limit while frames are still to be sent to
it. -/
theorem Kept.steps (h : s.Kept q now limit) (hs : s.Bounded limit)
    (hlatest : limit ≤ Instant.latest) {events : List (Instant × Event)}
    (hevents : ∀ event ∈ events, now ≤ event.1)
    (hcooperates : ∀ step ∈ s.steps c q events, step.Cooperates q.timeout) :
    ∀ step ∈ s.steps c q events, step.Abandons → limit ≤ step.time := by
  induction events generalizing s with
  | nil => exact fun _ hstep => absurd hstep List.not_mem_nil
  | cons event rest ih =>
      obtain ⟨hlater, hrest⟩ := List.forall_mem_cons.mp hevents
      obtain ⟨hfirst, hothers⟩ := List.forall_mem_cons.mp hcooperates
      cases hover : s.isOver with
      | true =>
          intro step hstep habandons
          have hopened := habandons.opened
          rw [(steps_over hover _ step hstep).1, hover] at hopened
          cases hopened
      | false =>
          obtain ⟨hafter, habandons⟩ := h.step hs hlatest hover hlater hfirst
          exact List.forall_mem_cons.mpr
            ⟨habandons, ih hafter (hs.step event.1 event.2) hrest hothers⟩

/-! ### A transfer that is given up -/

/-- The flow control that asks for the shortest pause there is. -/
def pausing : Bytes := [0x30, 0x00, 0xF1]

/-- A frame in which the target of a conversation says to go on, with the shortest pause. -/
def pausingFrame (q : Query) (s : Conversation) : Frame where
  address := s.address
  bus := q.bus
  data := s.target.wrap pausing

/-- A conversation whose sender was just told to go on, with the shortest pause. -/
def paused (q : Query) (s : Conversation) (now : Instant) (rest : Bytes) (sequence : Nat) :
    Conversation :=
  { s.extend now q.timeout with
    sender := .sending rest sequence none (separationTime 0xF1) now }

/-- What it takes to give a target up in the middle of its request: it waits for a flow control with
more than one frame left, a timeout from now ends before the limit, and there are pauses that are
shorter than a timeout. -/
structure MayStall (q : Query) (s : Conversation) (now : Instant) (rest : Bytes)
    (sequence : Nat) : Prop where
  waiting : s.status = .waiting
  blocked : s.sender = .blocked rest sequence
  early : now < s.deadline
  before_limit : now + q.timeout.nanos < s.limit
  limit_le : s.limit ≤ Instant.latest
  long : shortestPause < q.timeout.nanos
  more : capacity s.target - 1 < rest.length

/-- Three readings: the flow control with the shortest pause, nothing right after it, and nothing
when the timeout has passed. -/
def stalling (q : Query) (s : Conversation) (now : Instant) : Readings :=
  [(now, [s.pausingFrame q]), (now + 1, []), (now + q.timeout.nanos, [])]

/-- The clock changes nothing when it is too early for a frame and for the deadline. -/
theorem step_clock_idle (hwaiting : s.status = .waiting)
    (hnext : s.sender.next? (capacity s.target) now = none) (hearly : now < s.deadline) :
    (s.step c q now .clock).after = s := by
  have htick : (s.step c q now .clock).after = _ :=
    (tick_open (isOver_eq_false_iff.mpr hwaiting)).1
  rw [htick, Sender.burst, Sender.burstUpTo_of_next? hnext, if_neg (Nat.not_le.mpr hearly),
    ← hwaiting]
  rfl

namespace MayStall

variable {rest : Bytes} {sequence : Nat}

theorem told (h : s.MayStall q now rest sequence) :
    s.told? (s.pausingFrame q) = some pausing := by
  simp [told?, pausingFrame, isOver_eq_false_iff.mpr h.waiting, Target.content?_wrap]

theorem granted (h : s.MayStall q now rest sequence) (c : Settings) :
    (s.step c q now (.frame (s.pausingFrame q))).after = s.paused q now rest sequence := by
  have hafter : (s.step c q now (.frame (s.pausingFrame q))).after =
      (s.receive c q now (s.pausingFrame q)).1 := rfl
  rw [hafter, receive_eq, h.told, Option.elim_some, hear, pausing,
    Receiver.feed_flowControl _ (by decide)]
  dsimp only
  rw [Conversation.permit]
  dsimp only
  rw [h.blocked, Sender.permit_blocked]
  rfl

theorem paused_waiting (h : s.MayStall q now rest sequence) :
    (s.paused q now rest sequence).status = .waiting :=
  (s.status_extend now q.timeout).trans h.waiting

theorem paused_deadline (h : s.MayStall q now rest sequence) :
    (s.paused q now rest sequence).deadline = now + q.timeout.nanos := by
  rw [paused, s.deadline_extend h.limit_le]
  exact Nat.min_eq_left (Nat.le_of_lt h.before_limit)

/-- Until the pause is over, the clock changes nothing. -/
theorem paused_idle (h : s.MayStall q now rest sequence) (c : Settings) {later : Instant}
    (hlater : later < now + shortestPause) :
    ((s.paused q now rest sequence).step c q later .clock).after =
      s.paused q now rest sequence := by
  refine step_clock_idle h.paused_waiting (Sender.next?_of_lt ?_) ?_
  · show later - now < shortestPause
    simp only [Instant, shortestPause] at *
    omega
  · rw [h.paused_deadline]
    exact Nat.lt_trans hlater (Nat.add_lt_add_left h.long now)

/-- The second reading is too early for a frame, so that its pause is still under way in the third
one. -/
theorem steps (h : s.MayStall q now rest sequence) (c : Settings) :
    s.steps c q (Readings.events q.bus (s.stalling q now)) =
      [s.step c q now (.frame (s.pausingFrame q)),
        (s.paused q now rest sequence).step c q now .clock,
        (s.paused q now rest sequence).step c q (now + 1) .clock,
        (s.paused q now rest sequence).step c q (now + q.timeout.nanos) .clock] := by
  have hevents : Readings.events q.bus (s.stalling q now) =
      [(now, .frame (s.pausingFrame q)), (now, .clock), (now + 1, .clock),
        (now + q.timeout.nanos, .clock)] := by
    simp [stalling, Readings.events, pausingFrame]
  have hfirst : now < now + shortestPause := Nat.lt_add_of_pos_right (by decide)
  have hsecond : now + 1 < now + shortestPause := Nat.add_lt_add_left (by decide) now
  rw [hevents, Conversation.steps, Conversation.steps, Conversation.steps, Conversation.steps,
    Conversation.steps, h.granted c, h.paused_idle c hfirst, h.paused_idle c hsecond]

/-- When the timeout has passed, one frame is sent, and the target is given up with the next one
unsent. -/
theorem abandons (h : s.MayStall q now rest sequence) (c : Settings) :
    ((s.paused q now rest sequence).step c q (now + q.timeout.nanos) .clock).Abandons := by
  have hopen := isOver_eq_false_iff.mpr h.paused_waiting
  have hafter :
      ((s.paused q now rest sequence).step c q (now + q.timeout.nanos) .clock).after = _ :=
    (tick_open hopen).1
  have hpause : (separationTime 0xF1).nanos ≤ now + q.timeout.nanos - now := by
    rw [Nat.add_sub_cancel_left]
    exact Nat.le_of_lt h.long
  refine ⟨hopen, ?_, ?_⟩
  · rw [hafter]
    exact if_pos (Nat.le_of_eq h.paused_deadline)
  · have hburst := Sender.burst_paused sequence (by decide) hpause h.more
    rw [hafter, paused]
    dsimp only
    rw [target_extend, hburst]
    rfl

theorem prompt (h : s.MayStall q now rest sequence) :
    Prompt q.timeout now ((s.stalling q now).map (·.1)) := by
  have hnext : 1 < q.timeout.nanos := Nat.lt_trans (by decide) h.long
  refine .cons_cons ⟨Nat.le_refl now, ?_⟩ (.cons_cons ⟨Nat.le_add_right now 1, ?_⟩
    (.cons_cons ⟨?_, ?_⟩ (.singleton _)))
  all_goals
    simp only [Instant] at *
    omega

theorem cooperates (h : s.MayStall q now rest sequence) (c : Settings) :
    ∀ step ∈ s.steps c q (Readings.events q.bus (s.stalling q now)),
      step.Cooperates q.timeout := by
  have hpause : separationTime 0xF1 < q.timeout := Span.lt_iff.mpr h.long
  have hgoes : SaysGoOn q.timeout pausing :=
    @SaysGoOn.intro q.timeout 0x30 0x00 0xF1 [] (by decide) (by decide) hpause
  have hclock : ∀ later (s : Conversation), (s.step c q later .clock).Cooperates q.timeout := by
    intro later s f content hevent
    cases hevent
  have hframe : (s.step c q now (.frame (s.pausingFrame q))).Cooperates q.timeout := by
    intro f content hevent htold
    cases hevent
    rw [← Option.some.inj (h.told.symm.trans htold)]
    exact .inr ⟨hgoes, h.early⟩
  rw [h.steps c]
  simp [hframe, hclock]

end MayStall

end Conversation

/-! ### Transfers that are never given up -/

namespace Opening

variable {c : Settings} {q : Query} (o : Opening c q)

theorem bounded_after (events : List (Instant × Event)) (t : Target) :
    (o.after events t).Bounded o.limit :=
  Conversation.Bounded.through (.begin o.range o.first o.later t) events

/-- However promptly the bus is read from some time on, a target that cooperates is not given up
before the limit of the query while frames that it has let through are still to be sent to it. -/
def KeepsSending (events : List (Instant × Event)) (t : Target) (now : Instant) : Prop :=
  ∀ readings : Readings, Prompt q.timeout now (readings.map (·.1)) →
    (∀ step ∈ (o.after events t).steps c q (Readings.events q.bus readings),
      step.Cooperates q.timeout) →
    ∀ step ∈ (o.after events t).steps c q (Readings.events q.bus readings),
      step.Abandons → o.start + (c.longestWait q.timeout).nanos ≤ step.time

end Opening

/-- While a target waits with the rest of its request for a flow control, it is certain to be kept
until all that it lets through is sent in three cases only: the timeout reaches to the limit of the
query, no pause is shorter than the timeout, or the rest fits one frame. -/
theorem sending_kept_iff {c : Settings} {q : Query} (o : Opening c q) {t : Target}
    {events : List (Instant × Event)} {now : Instant} {rest : Bytes} {sequence : Nat}
    (hwaiting : (o.after events t).status = .waiting)
    (hsender : (o.after events t).sender = .blocked rest sequence)
    (hearly : now < (o.after events t).deadline) :
    o.KeepsSending events t now ↔
      o.start + (c.longestWait q.timeout).nanos ≤ now + q.timeout.nanos ∨
        q.timeout.nanos ≤ shortestPause ∨ rest.length ≤ capacity t - 1 := by
  have hbounded := o.bounded_after events t
  have htarget := o.target_after events t
  rw [Opening.KeepsSending, ← o.limit_eq]
  constructor
  · intro hkept
    by_contra hnone
    obtain ⟨hlimit, hlong, hmore⟩ : now + q.timeout.nanos < o.limit ∧
        shortestPause < q.timeout.nanos ∧ capacity t - 1 < rest.length := by
      simpa only [not_or, Nat.not_le] using hnone
    have hstall : (o.after events t).MayStall q now rest sequence :=
      { waiting := hwaiting
        blocked := hsender
        early := hearly
        before_limit := hbounded.limit_eq ▸ hlimit
        limit_le := hbounded.limit_eq ▸ o.limit_le
        long := hlong
        more := htarget.symm ▸ hmore }
    have hlate := hkept _ hstall.prompt (hstall.cooperates c)
    rw [hstall.steps c] at hlate
    simp only [List.forall_mem_cons] at hlate
    obtain ⟨-, -, -, hlate, -⟩ := hlate
    exact Nat.not_le.mpr hlimit (hlate (hstall.abandons c))
  · intro hreason readings hprompt hcooperates
    have hkept : (o.after events t).Kept q now o.limit := by
      obtain hlimit | hshort | hrest := hreason
      · refine .limited hlimit ?_
        rw [hsender]
        nofun
      · refine .unpaused hshort (Sender.unpaused_of_not_sending ?_)
        rw [hsender]
        rfl
      · refine .last ?_ ?_
        · rw [hsender, htarget]
          exact hrest
        · rw [hsender]
          nofun
    exact hkept.steps hbounded o.limit_le
      (fun event hevent => hprompt.start_le (Readings.time_mem hevent)) hcooperates

/-- A query that asks one unit to store something. -/
def storing (content : Bytes) : Query where
  bus := 0
  targets := [{ address := 0x7D0 }]
  exchanges := [{ request := [0x2E, 0xF1, 0x90] ++ content, expected := [0x6E, 0xF1, 0x90] }]
  timeout := .ofMillis 100

/-- With the default settings, a request that takes one consecutive frame is certain to be sent, and
one that takes two is not. -/
theorem sending_kept_iff_default :
    (∃ o : Opening {} (storing [1, 2, 3, 4, 5, 6, 7]),
      o.KeepsSending [] { address := 0x7D0 } 10000000) ∧
    ∃ o : Opening {} (storing [1, 2, 3, 4, 5, 6, 7, 8, 9, 10, 11, 12, 13, 14, 15, 16, 17]),
      ¬o.KeepsSending [] { address := 0x7D0 } 10000000 := by
  let short : Opening {} (storing [1, 2, 3, 4, 5, 6, 7]) :=
    ⟨_, [], 0, 10000000000, rfl, by decide⟩
  let long : Opening {} (storing [1, 2, 3, 4, 5, 6, 7, 8, 9, 10, 11, 12, 13, 14, 15, 16, 17]) :=
    ⟨_, [], 0, 10000000000, rfl, by decide⟩
  have hshort := @sending_kept_iff _ _ short { address := 0x7D0 } [] 10000000 [4, 5, 6, 7] 1 rfl
    (by decide) (by decide)
  have hlong := @sending_kept_iff _ _ long { address := 0x7D0 } [] 10000000
    [4, 5, 6, 7, 8, 9, 10, 11, 12, 13, 14, 15, 16, 17] 1 rfl (by decide) (by decide)
  exact ⟨⟨short, hshort.mpr (by decide)⟩, ⟨long, fun h => absurd (hlong.mp h) (by decide)⟩⟩

/-- A unit that asks for pauses of sixty milliseconds is given up after a tenth of a second, when
the last of three frames is still to be sent to it. It is there, and would have answered. -/
theorem given_up_while_sending :
    ((engine {} Scripted.Playback.link 20
        (storing [1, 2, 3, 4, 5, 6, 7, 8, 9, 10, 11, 12, 13, 14, 15, 16, 17])
        { world := { readings :=
            { takes := .ofMillis 10
              result := .ok [{ address := 0x7D8, bus := 0, data := [0x30, 0x00, 0x3C] }] } ::
            List.replicate 12 { takes := .ofMillis 10, result := .ok [] } ++
            [{ takes := .ofMillis 10
               result := .ok
                [{ address := 0x7D8, bus := 0, data := [0x03, 0x6E, 0xF1, 0x90] }] }] } }).map
      fun (result, after) => (result.toOption.map (·.entries.map (·.1)), after.world.clock,
        after.world.sent.toList.map fun (now, f) => (now, f.data))) =
      some (some [], 110000000,
        [(0, [0x10, 20, 0x2E, 0xF1, 0x90, 1, 2, 3]),
          (70000000, [0x21, 4, 5, 6, 7, 8, 9, 10])]) := by
  decide +kernel

end EcuQuiet.IsoTp
