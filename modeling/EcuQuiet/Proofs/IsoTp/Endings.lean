import EcuQuiet.Proofs.IsoTp.Reassembly
import EcuQuiet.Proofs.Scripted.Independence

/-!
# What the entry of a target is decided by

Of all that happens while a query waits for a target, the first event that ends its conversation
decides what the query says about it: a response that is refused, rejected or the last one, a frame
that makes no sense, a flow control that stops the transfer, or the clock. `Ending` lists what the
content of a frame can end a conversation with, in terms of the frames that the target has sent
before. Nothing that comes after the first such event counts.
-/

namespace EcuQuiet.IsoTp

/-! ### Frames that make no sense -/

/-- The length that a single frame declares, in the low half of its first byte or, if that is zero,
in its second byte, and what is behind it. -/
def declared : Bytes → Nat × Bytes
  | [] => (0, [])
  | head :: rest =>
    if lowHalf head ≠ 0 then (lowHalf head, rest) else ((rest.headD 0).toNat, rest.drop 1)

/-- A frame that starts a message with a length that it cannot have: a single frame that declares
nothing or more than is in it, and a first frame that is too short or declares nothing. -/
inductive Malformed (frame : Bytes) : Prop
  | single (hkind : kind? frame = some 0)
      (hlength : (declared frame).1 = 0 ∨ (declared frame).2.length < (declared frame).1)
  | short (hkind : kind? frame = some 1) (hshort : frame.length < 3)
  | empty (hdeclares : Declares 0 frame)

/-- After some frames, a message is under reassembly and the consecutive frame of this number is
due: the latest frame that started a message was a first frame, and the message has not been over
since then. -/
inductive Due (blockSize : UInt8) : List Bytes → Nat → Prop
  | next {before between : List Bytes} {first : Bytes} (hfirst : kind? first = some 1)
      (hlatest : ∀ frame ∈ between, ¬StartsMessage frame)
      (hongoing : ∀ reception ∈ (Receiver.fed { blockSize } before).receptions (first :: between),
        reception.isEnd = false) :
      Due blockSize (before ++ first :: between) (((parts between).length + 1) % 16)

namespace Receiver

theorem single_eq (r : Receiver) (frame : Bytes) :
    r.single frame =
      if 0 < (declared frame).1 ∧ (declared frame).1 ≤ (declared frame).2.length then
        (r.fresh, .completed ((declared frame).2.take (declared frame).1))
      else (r.fresh, .faulty .length) := by
  unfold single declared
  cases frame with
  | nil => rfl
  | cons head rest =>
      dsimp only
      by_cases hlow : lowHalf head ≠ 0
      · simp only [if_pos hlow]
      · simp only [if_neg hlow]
        cases rest <;> rfl

theorem feed_of_kind_zero (r : Receiver) {frame : Bytes} (h : kind? frame = some 0) :
    r.feed frame = r.single frame := by
  cases frame with
  | nil => cases h
  | cons head rest =>
      have hkind : highHalf head = 0 := Option.some.inj h
      simp only [feed, hkind]

theorem feed_of_kind_one (r : Receiver) {frame : Bytes} (h : kind? frame = some 1) :
    r.feed frame = r.first frame := by
  cases frame with
  | nil => cases h
  | cons head rest =>
      have hkind : highHalf head = 1 := Option.some.inj h
      simp only [feed, hkind]

/-- A length is at fault exactly in frames that are malformed. -/
theorem feed_eq_faulty_length_iff (r : Receiver) (frame : Bytes) :
    (r.feed frame).2 = .faulty .length ↔ Malformed frame := by
  constructor
  · intro hfault
    have hstarts : StartsMessage frame := by
      have hfeeds := r.feeds frame
      rw [hfault] at hfeeds
      generalize (r.feed frame).1 = after at hfeeds
      cases hfeeds with
      | malformed hstarts => exact hstarts
      | idle hidle => cases hidle
      | part _ _ _ _ _ hend => cases hend
    rcases hstarts with hkind | hkind
    · rw [r.feed_of_kind_zero hkind, single_eq] at hfault
      refine .single hkind ?_
      split at hfault
      next => cases hfault
      next hnone => omega
    · rw [r.feed_of_kind_one hkind] at hfault
      unfold first at hfault
      split at hfault
      next high low byte rest =>
        dsimp only at hfault
        split at hfault
        next hempty => exact .empty ⟨high, low, byte :: rest, rfl, Option.some.inj hkind, hempty⟩
        next => cases hfault
      next hshort =>
        refine .short hkind ?_
        rcases frame with _ | ⟨high, _ | ⟨low, _ | ⟨byte, rest⟩⟩⟩
        · exact Nat.succ_pos 2
        · exact Nat.succ_lt_succ (Nat.succ_pos 1)
        · exact Nat.lt_succ_self 2
        · exact absurd rfl (hshort high low byte rest)
  · intro h
    cases h with
    | single hkind hlength =>
        rw [r.feed_of_kind_zero hkind, single_eq, if_neg (by omega)]
    | short hkind hshort =>
        rw [r.feed_of_kind_one hkind]
        rcases frame with _ | ⟨high, _ | ⟨low, _ | ⟨byte, rest⟩⟩⟩
        · rfl
        · rfl
        · rfl
        · simp only [List.length_cons] at hshort
          omega
    | empty hdeclares =>
        have hkind := hdeclares.kind?_eq
        obtain ⟨high, low, content, rfl, -, hempty⟩ := hdeclares
        rw [r.feed_of_kind_one hkind]
        cases content with
        | nil => rfl
        | cons byte rest => simp only [first, hempty, if_true]

/-- A number is at fault exactly in a consecutive frame that is not the one that is due. -/
theorem feed_eq_faulty_sequence_iff (r : Receiver) (frame : Bytes) :
    (∃ expected got, (r.feed frame).2 = .faulty (.sequence expected got)) ↔
      ∃ a, r.assembly = some a ∧ kind? frame = some 2 ∧
        frame.head?.map lowHalf ≠ some a.sequence := by
  have hfeeds := r.feeds frame
  constructor
  · rintro ⟨expected, got, hfault⟩
    rw [hfault] at hfeeds
    generalize (r.feed frame).1 = after at hfeeds
    cases hfeeds with
    | broken ha hkind hnumber hother =>
        exact ⟨_, ha, hkind, fun hsame => hother (Option.some.inj (hnumber.symm.trans hsame))⟩
    | idle hidle => cases hidle
    | part _ _ _ _ _ hend => cases hend
  · rintro ⟨a, ha, hkind, hother⟩
    generalize r.feed frame = fed at hfeeds ⊢
    obtain ⟨after, reception⟩ := fed
    cases hfeeds with
    | broken => exact ⟨_, _, rfl⟩
    | idle hidle hidle' =>
        obtain h | ⟨-, hnone⟩ := hidle' 2 hkind
        · omega
        · rw [ha] at hnone
          cases hnone
    | whole hsingle =>
        rw [hsingle.kind?_eq] at hkind
        cases hkind
    | malformed hstarts =>
        rw [StartsMessage, hkind] at hstarts
        rcases hstarts with h | h <;> cases h
    | opened _ hdeclares =>
        rw [hdeclares.kind?_eq] at hkind
        cases hkind
    | last ha' _ hnumber | part ha' _ hnumber =>
        rw [ha] at ha'
        cases ha'
        exact absurd hnumber hother

theorem feed_eq_flowControl_iff (r : Receiver) (frame : Bytes) :
    (r.feed frame).2 = .flowControl ↔ kind? frame = some 3 := by
  constructor
  · intro hflow
    obtain ⟨-, hpasses | ⟨-, hkind⟩⟩ := @feed_of_isIdle r frame (by rw [hflow]; rfl)
    · exact absurd hflow (feed_of_passes hpasses).2.2
    · cases frame with
      | nil => cases hflow
      | cons head rest => exact congrArg some (hkind head rfl)
  · intro h
    cases frame with
    | nil => cases h
    | cons head rest => rw [feed_flowControl rest (Option.some.inj h)]

theorem due_iff {blockSize : UInt8} {frames : List Bytes} {number : Nat} :
    Due blockSize frames number ↔
      ∃ a, (Receiver.fed { blockSize } frames).assembly = some a ∧ a.sequence = number := by
  constructor
  · rintro ⟨hfirst, hlatest, hongoing⟩
    rename_i before between first
    have hholds := (Receiver.fed { blockSize } before).holds_fed hfirst hlatest
    obtain ⟨a, ha⟩ :=
      Option.ne_none_iff_exists'.mp (assembly_of_ongoing hfirst hongoing)
    refine ⟨a, ?_, (hholds a ha).sequence⟩
    rw [fed_append]
    exact ha
  · rintro ⟨a, ha, rfl⟩
    obtain ⟨before, first, between, rfl, hfirst, hlatest, hongoing⟩ :=
      begun (ha ▸ Option.some_ne_none a)
    have hholds := (Receiver.fed { blockSize } before).holds_fed hfirst hlatest
    rw [← fed_append] at hholds
    rw [(hholds a ha).sequence]
    exact .next hfirst hlatest hongoing

end Receiver

/-! ### Transfers that are stopped -/

/-- A flow control that stops the transfer of a request, and why: it is too short, it says that
there is no room, or it says nothing that is known. -/
inductive Stops (content : Bytes) : DiagnosticError → Prop
  | short (hshort : content.length < 3) : Stops content .invalidLength
  | full (hlong : 3 ≤ content.length) (hstatus : content.head?.map lowHalf = some 2) :
      Stops content (.bus .bufferFull)
  | unknown {status : Nat} (hlong : 3 ≤ content.length)
      (hstatus : content.head?.map lowHalf = some status) (hunknown : 3 ≤ status) :
      Stops content .wrongMessage

namespace Sender

theorem permit_short {content : Bytes} (hshort : content.length < 3) (rest : Bytes)
    (sequence : Nat) (now : Instant) :
    (blocked rest sequence).permit content now = .refused .invalidLength := by
  rcases content with _ | ⟨head, _ | ⟨blockSize, _ | ⟨separation, more⟩⟩⟩
  · rfl
  · rfl
  · rfl
  · simp only [List.length_cons] at hshort
    omega

/-- A sender is refused exactly by a flow control that it waits for and that stops a transfer. -/
theorem permit_eq_refused_iff {s : Sender} {content : Bytes} {now : Instant}
    {reason : DiagnosticError} :
    s.permit content now = .refused reason ↔ s.awaits = true ∧ Stops content reason := by
  cases s with
  | finished | sending => simp [permit, awaits]
  | blocked rest sequence =>
      rw [awaits, eq_self, true_and]
      obtain hshort | hlong := Nat.lt_or_ge content.length 3
      · rw [permit_short hshort, Permission.refused.injEq]
        constructor
        · rintro rfl
          exact .short hshort
        · rintro (_ | hlong | hlong)
          · rfl
          · omega
          · omega
      · rcases content with _ | ⟨head, _ | ⟨blockSize, _ | ⟨separation, more⟩⟩⟩
        · simp at hlong
        · simp at hlong
        · simp at hlong
        have hhead : ∀ {status}, lowHalf head = status →
            (head :: blockSize :: separation :: more).head?.map lowHalf = some status :=
          fun h => congrArg some h
        constructor
        · intro hrefused
          unfold permit at hrefused
          dsimp only at hrefused
          split at hrefused
          next => cases hrefused
          next => cases hrefused
          next hstatus =>
            obtain rfl := Permission.refused.inj hrefused
            exact .full hlong (hhead hstatus)
          next hgo hwait hfull =>
            obtain rfl := Permission.refused.inj hrefused
            refine .unknown hlong (hhead rfl) ?_
            have hgo : lowHalf head ≠ 0 := hgo
            have hwait : lowHalf head ≠ 1 := hwait
            have hfull : lowHalf head ≠ 2 := hfull
            omega
        · intro hstops
          unfold permit
          dsimp only
          cases hstops with
          | short hshort => omega
          | full _ hstatus =>
              have hfull : lowHalf head = 2 := Option.some.inj hstatus
              simp only [hfull]
          | unknown _ hstatus hunknown =>
              obtain rfl := Option.some.inj hstatus
              split
              next hgo => omega
              next hwait => omega
              next hfull => omega
              next => rfl

end Sender

/-! ### What a frame ends a conversation with -/

/-- A response that is complete, and not a negative one. -/
def Reception.isPositive : Reception → Bool
  | completed response => response.head? ≠ some Uds.negativeResponse
  | _ => false

/-- The exchanges of a query that are not over after some frames from a target: each one is over
with a positive response. -/
def unsettled (c : Settings) (q : Query) (frames : List Bytes) : List Exchange :=
  q.exchanges.drop
    ((Receiver.receptions { blockSize := c.blockSize } frames).countP (·.isPositive))

/-- What a frame from a target ends the conversation with, after the frames that came before it, and
if a flow control is waited for or not. -/
inductive Ending (c : Settings) (q : Query) (frames : List Bytes) (awaits : Bool)
    (last : Bytes) : Answer → Prop
  /-- A negative response that does not ask for more time. -/
  | refused {response : Bytes} (hcame : Came c.blockSize response frames last)
      (hnegative : response.head? = some 0x7F) (hcode : response.getD 2 0 ≠ 0x78) :
      Ending c q frames awaits last
        (.error (.refused (response.getD 2 0) (some (Uds.describe (response.getD 2 0)))))
  /-- A response that the exchange under way does not accept. -/
  | unacceptable {response : Bytes} {current : Exchange} {later : List Exchange}
      (hcame : Came c.blockSize response frames last) (hpositive : response.head? ≠ some 0x7F)
      (hcurrent : unsettled c q frames = current :: later)
      (hrejects : current.accepts response = false) :
      Ending c q frames awaits last (.error .wrongMessage)
  /-- The response to the last exchange. -/
  | answered {response : Bytes} {current : Exchange}
      (hcame : Came c.blockSize response frames last) (hpositive : response.head? ≠ some 0x7F)
      (hcurrent : unsettled c q frames = [current]) (haccepts : current.accepts response = true) :
      Ending c q frames awaits last (.ok response)
  /-- A consecutive frame out of turn. -/
  | broken {due : Nat} (hdue : Due c.blockSize frames due) (hkind : kind? last = some 2)
      (hnumber : last.head?.map lowHalf ≠ some due) :
      Ending c q frames awaits last (.error .wrongMessage)
  | malformed (hmalformed : Malformed last) : Ending c q frames awaits last (.error .invalidLength)
  /-- A flow control that is waited for and stops the transfer. -/
  | stopped {reason : DiagnosticError} (hawaits : awaits = true) (hkind : kind? last = some 3)
      (hstops : Stops last reason) : Ending c q frames awaits last (.error reason)

theorem isPending_iff (response : Bytes) :
    isPending response = true ↔ response.head? = some 0x7F ∧ response.getD 2 0 = 0x78 := by
  have hcode : ∀ n : Fin 256, (Uds.NegativeResponse.ofByte (UInt8.ofFin n)).isPending = true ↔
      UInt8.ofFin n = 0x78 := by decide +kernel
  rw [isPending, Bool.and_eq_true, decide_eq_true_iff]
  exact and_congr_right' (hcode (response.getD 2 0).toFin)

namespace Conversation

variable {c : Settings} {q : Query} {now : Instant} {content : Bytes} {s after : Conversation}
  {frames : List Frame}

/-- What content ends a conversation with, if it does. -/
def ending? (s : Conversation) (now : Instant) (content : Bytes) : Option Answer :=
  match (s.receiver.feed content).2 with
  | .flowControl =>
    match s.sender.permit content now with
    | .refused reason => some (.error reason)
    | _ => none
  | .completed response =>
    if isPending response then none
    else if response.head? = some Uds.negativeResponse then
      some (.error (.refused (response.getD 2 0) (some (Uds.describe (response.getD 2 0)))))
    else if s.current.accepts response then
      if s.later.isEmpty then some (.ok response) else none
    else some (.error .wrongMessage)
  | .faulty fault => some (.error fault.error)
  | _ => none

/-- What hearing content makes of a conversation that waits: it is over if the content ends it; else
it goes on, and a positive response moves it on to the next exchange. -/
structure Heard (s : Conversation) (now : Instant) (content : Bytes) (after : Conversation) :
    Prop where
  address : after.address = s.address
  receiver : after.receiver = (s.receiver.feed content).1
  status : after.status = (s.ending? now content).elim .waiting .answered
  exchanges : s.ending? now content = none → after.current :: after.later =
    (s.current :: s.later).drop (if (s.receiver.feed content).2.isPositive then 1 else 0)

theorem feed_of_ignores (h : s.Ignores content) :
    (s.receiver.feed content).1 = s.receiver ∧ (s.receiver.feed content).2.isIdle ∧
      ((s.receiver.feed content).2 = .flowControl → s.sender.awaits = false) := by
  obtain hpasses | ⟨head, rest, rfl, hkind, hunawaited⟩ := passes_or_unawaited h
  · obtain ⟨hreceiver, hidle, hother⟩ := Receiver.feed_of_passes hpasses
    exact ⟨hreceiver, hidle, fun hflow => absurd hflow hother⟩
  · rw [Receiver.feed_flowControl rest hkind]
    exact ⟨rfl, rfl, fun _ => hunawaited⟩

/-- Content that is ignored ends nothing, and is no response. -/
theorem ending?_of_ignores (h : s.Ignores content) (now : Instant) :
    s.ending? now content = none ∧ (s.receiver.feed content).2.isPositive = false := by
  obtain ⟨-, hidle, hunawaited⟩ := feed_of_ignores h
  rw [ending?]
  cases hreception : (s.receiver.feed content).2 with
  | nothing | unknown | stray => exact ⟨rfl, rfl⟩
  | flowControl =>
      rw [Sender.permit_eq_unexpected_iff.mpr (hunawaited hreception)]
      exact ⟨rfl, rfl⟩
  | progress | flowControlDue | completed | faulty =>
      rw [hreception] at hidle
      cases hidle

/-- Each way of hearing content is one that ends a conversation or lets it go on. -/
theorem Hears.heard (h : Hears c q now content s after frames) (hwaiting : s.status = .waiting) :
    s.Heard now content after := by
  cases h with
  | ignored hignores =>
      obtain ⟨hending, hpositive⟩ := ending?_of_ignores hignores now
      constructor <;> simp [hending, hpositive, hwaiting, (feed_of_ignores hignores).1]
  | part hfeed | due hfeed =>
      constructor <;> simp [ending?, hfeed, Reception.isPositive, hwaiting, extend]
  | granted hfeed hpermit | held hfeed hpermit | halted hfeed hpermit =>
      constructor <;>
        simp [ending?, hfeed, hpermit, Reception.isPositive, hwaiting, extend, conclude]
  | faulty hfeed => constructor <;> simp [ending?, hfeed, conclude]
  | pending hfeed hpending =>
      have hnegative := ((isPending_iff _).mp hpending).1
      constructor <;>
        simp [ending?, hfeed, hpending, hnegative, Uds.negativeResponse, hwaiting,
          Reception.isPositive, extend]
  | refused hfeed hnegative hpending =>
      constructor <;> simp [ending?, hfeed, hnegative, hpending, conclude]
  | unacceptable hfeed hpositive hrejects =>
      have hended := isPending_of_positive hpositive
      constructor <;> simp [ending?, hfeed, hpositive, hended, hrejects, conclude]
  | answered hfeed hpositive haccepts hlater =>
      have hended := isPending_of_positive hpositive
      constructor <;> simp [ending?, hfeed, hpositive, hended, haccepts, hlater, conclude]
  | next hfeed hpositive haccepts hlater =>
      have hended := isPending_of_positive hpositive
      constructor <;>
        simp [ending?, hfeed, hpositive, hended, haccepts, hlater, hwaiting, Reception.isPositive,
          extend]

section

variable {answer : Answer} {before : List Bytes}
  (hreceiver : s.receiver = Receiver.fed { blockSize := c.blockSize } before)
  (hexchanges : s.current :: s.later = unsettled c q before)

include hreceiver hexchanges

/-- What ends a conversation is an ending in terms of the frames before it. -/
theorem ending_of_eq_some (hending : s.ending? now content = some answer) :
    Ending c q before s.sender.awaits content answer := by
  rw [ending?] at hending
  cases hreception : (s.receiver.feed content).2 with
  | nothing | unknown | stray | progress | flowControlDue =>
      rw [hreception] at hending
      cases hending
  | flowControl =>
      rw [hreception] at hending
      dsimp only at hending
      split at hending
      next hrefused =>
        cases hending
        obtain ⟨hawaits, hstops⟩ := Sender.permit_eq_refused_iff.mp hrefused
        exact .stopped hawaits ((s.receiver.feed_eq_flowControl_iff content).mp hreception) hstops
      next => cases hending
  | faulty fault =>
      rw [hreception] at hending
      cases hending
      cases fault with
      | length =>
          exact .malformed ((s.receiver.feed_eq_faulty_length_iff content).mp hreception)
      | sequence expected got =>
          obtain ⟨a, ha, hkind, hother⟩ :=
            (s.receiver.feed_eq_faulty_sequence_iff content).mp ⟨_, _, hreception⟩
          rw [hreceiver] at ha
          exact .broken (Receiver.due_iff.mpr ⟨a, ha, rfl⟩) hkind hother
  | completed response =>
      have hcame := came_of_completed (hreceiver ▸ hreception)
      rw [hreception] at hending
      dsimp only at hending
      split at hending
      next => cases hending
      next hpending =>
        split at hending
        next hnegative =>
          cases hending
          refine .refused hcame hnegative fun hcode => hpending ?_
          exact (isPending_iff response).mpr ⟨hnegative, hcode⟩
        next hpositive =>
          split at hending
          next haccepts =>
            split at hending
            next hlater =>
              cases hending
              rw [List.isEmpty_iff.mp hlater] at hexchanges
              exact .answered hcame hpositive hexchanges.symm haccepts
            next => cases hending
          next hrejects =>
            cases hending
            exact .unacceptable hcame hpositive hexchanges.symm (Bool.eq_false_iff.mpr hrejects)

/-- Each of the endings is one for the conversation that has heard the frames before it. -/
theorem ending?_of_ending (hending : Ending c q before s.sender.awaits content answer) :
    s.ending? now content = some answer := by
  rw [ending?]
  cases hending with
  | @refused response hcame hnegative hcode =>
      have hnegative : response.head? = some Uds.negativeResponse := hnegative
      have hended : ¬isPending response = true := fun h => hcode ((isPending_iff _).mp h).2
      rw [hreceiver, hcame.completed]
      dsimp only
      rw [if_neg hended, if_pos hnegative]
  | @unacceptable response _ _ hcame hpositive hcurrent hrejects =>
      have hpositive : response.head? ≠ some Uds.negativeResponse := hpositive
      obtain ⟨rfl, -⟩ := List.cons.inj (hexchanges.trans hcurrent)
      rw [hreceiver, hcame.completed]
      dsimp only
      rw [isPending_of_positive hpositive, if_neg Bool.false_ne_true, if_neg hpositive, hrejects,
        if_neg Bool.false_ne_true]
  | @answered response _ hcame hpositive hcurrent haccepts =>
      have hpositive : response.head? ≠ some Uds.negativeResponse := hpositive
      obtain ⟨rfl, hlater⟩ := List.cons.inj (hexchanges.trans hcurrent)
      rw [hreceiver, hcame.completed]
      dsimp only
      rw [isPending_of_positive hpositive, if_neg Bool.false_ne_true, if_neg hpositive,
        if_pos haccepts, hlater]
      rfl
  | broken hdue hkind hnumber =>
      obtain ⟨a, ha, rfl⟩ := Receiver.due_iff.mp hdue
      rw [← hreceiver] at ha
      obtain ⟨_, _, hfault⟩ :=
        (s.receiver.feed_eq_faulty_sequence_iff content).mpr ⟨a, ha, hkind, hnumber⟩
      rw [hfault]
      rfl
  | malformed hmalformed =>
      rw [(s.receiver.feed_eq_faulty_length_iff content).mpr hmalformed]
      rfl
  | stopped hawaits hkind hstops =>
      rw [(s.receiver.feed_eq_flowControl_iff content).mpr hkind]
      dsimp only
      rw [Sender.permit_eq_refused_iff.mpr ⟨hawaits, hstops⟩]

theorem ending?_eq_some_iff : s.ending? now content = some answer ↔
    Ending c q before s.sender.awaits content answer :=
  ⟨ending_of_eq_some hreceiver hexchanges, ending?_of_ending hreceiver hexchanges⟩

end

end Conversation

/-! ### What an event decides -/

/-- One more frame settles one exchange more if it completes a positive response. -/
theorem unsettled_append (c : Settings) (q : Query) (frames : List Bytes) (content : Bytes) :
    unsettled c q (frames ++ [content]) = (unsettled c q frames).drop
      (if ((Receiver.fed { blockSize := c.blockSize } frames).feed content).2.isPositive
        then 1 else 0) := by
  rw [unsettled, unsettled, List.drop_drop, Receiver.receptions_append, List.countP_append]
  exact congrArg (q.exchanges.drop <| _ + ·) List.countP_singleton

/-- What a frame of the queried bus says to a target: it has the address the target answers on, and
its extra address byte. -/
def said? (c : Settings) (t : Target) (f : Frame) : Option Bytes :=
  if f.address = responseAddress t.address c.responseOffset then t.content? f.data else none

/-- What the frames among some events say to a target. -/
def contents (c : Settings) (t : Target) (events : List (Instant × Event)) : List Bytes :=
  events.filterMap fun
    | (_, .frame f) => said? c t f
    | (_, .clock) => none

namespace Opening

variable {c : Settings} {q : Query} (o : Opening c q) (t : Target)

/-- What an event decides about a target that is waited for: a frame, on the answer that its content
ends the conversation with; the clock, if it shows that the wait is over, on none. -/
inductive Decides (before : List (Instant × Event)) (now : Instant) :
    Event → Option Answer → Prop
  | frame {f : Frame} {content : Bytes} {answer : Answer} (hsaid : said? c t f = some content)
      (hending : Ending c q (contents c t before) (o.after before t).sender.awaits content answer) :
      Decides before now (.frame f) (some answer)
  | clock (hlate : (o.after before t).deadline ≤ now) : Decides before now .clock none

/-- None of some events decides about a target. -/
def Undecided (events : List (Instant × Event)) : Prop :=
  ∀ before now event after, events = before ++ (now, event) :: after →
    ∀ entry, ¬o.Decides t before now event entry

/-- The first event that decides about a target, with the entry that it decides on. -/
def Decided (events : List (Instant × Event)) (entry : Option Answer) : Prop :=
  ∃ before now event after, events = before ++ (now, event) :: after ∧ o.Undecided t before ∧
    o.Decides t before now event entry

/-- A target is waited for, and its conversation is where the frames before have brought it. -/
structure Stands (events : List (Instant × Event)) : Prop where
  waiting : (o.after events t).status = .waiting
  address : (o.after events t).address = responseAddress t.address c.responseOffset
  receiver : (o.after events t).receiver =
    Receiver.fed { blockSize := c.blockSize } (contents c t events)
  exchanges : (o.after events t).current :: (o.after events t).later =
    unsettled c q (contents c t events)

variable {o t} {before events : List (Instant × Event)} {now : Instant} {event : Event}
  {entry : Option Answer}

theorem stands_nil : o.Stands t [] := ⟨rfl, rfl, rfl, o.exchanges.symm⟩

theorem after_append_singleton (before : List (Instant × Event)) (now : Instant) (event : Event) :
    o.after (before ++ [(now, event)]) t = ((o.after before t).step c q now event).after := by
  rw [after, Conversation.through_append]
  rfl

theorem Stands.told?_eq (h : o.Stands t before) (f : Frame) :
    (o.after before t).told? f = said? c t f := by
  rw [Conversation.told?, Conversation.isOver_eq_false_iff.mpr h.waiting, h.address, o.target_after,
    said?]
  simp [eq_comm]

/-- A frame that says nothing to a target leaves its conversation as it is. -/
theorem Stands.unheard (h : o.Stands t before) {f : Frame} (hsaid : said? c t f = none)
    (now : Instant) : o.after (before ++ [(now, .frame f)]) t = o.after before t := by
  rw [after_append_singleton, Conversation.step, Conversation.receive_eq, h.told?_eq, hsaid]
  rfl

/-- What a frame says to a target is heard. -/
theorem Stands.heard (h : o.Stands t before) {f : Frame} {content : Bytes}
    (hsaid : said? c t f = some content) (now : Instant) :
    (o.after before t).Heard now content (o.after (before ++ [(now, .frame f)]) t) := by
  have hheard := Conversation.hears c q now content (o.after before t)
  rw [after_append_singleton, Conversation.step, Conversation.receive_eq, h.told?_eq, hsaid]
  exact hheard.heard h.waiting

/-- The clock gives a target up that is late, and no other. -/
theorem Stands.ticked (h : o.Stands t before) (now : Instant) :
    o.after (before ++ [(now, .clock)]) t = { o.after before t with
      sender := (o.after (before ++ [(now, .clock)]) t).sender
      status := if (o.after before t).deadline ≤ now then .unanswered else .waiting } := by
  have htick : ((o.after before t).step c q now .clock).after = _ :=
    (Conversation.tick_open (Conversation.isOver_eq_false_iff.mpr h.waiting)).1
  rw [after_append_singleton, htick]

/-- An event that decides about a target ends its conversation with the entry. -/
theorem Stands.decided (h : o.Stands t before) (hdecides : o.Decides t before now event entry) :
    (o.after (before ++ [(now, event)]) t).status = entry.elim .unanswered .answered := by
  cases hdecides with
  | frame hsaid hending =>
      rw [(h.heard hsaid now).status,
        (Conversation.ending?_eq_some_iff h.receiver h.exchanges).mpr hending]
      rfl
  | clock hlate =>
      rw [h.ticked now]
      exact if_pos hlate

/-- Any other event lets it stand. -/
theorem Stands.undecided (h : o.Stands t before)
    (hundecided : ∀ entry, ¬o.Decides t before now event entry) :
    o.Stands t (before ++ [(now, event)]) := by
  cases event with
  | clock =>
      have hearly : ¬(o.after before t).deadline ≤ now := fun hlate => hundecided _ (.clock hlate)
      have hcontents : contents c t (before ++ [(now, .clock)]) = contents c t before := by
        simp [contents]
      constructor
      all_goals rw [h.ticked now]
      · exact if_neg hearly
      · exact h.address
      · rw [hcontents]
        exact h.receiver
      · rw [hcontents]
        exact h.exchanges
  | frame f =>
      cases hsaid : said? c t f with
      | none =>
          have hcontents : contents c t (before ++ [(now, .frame f)]) = contents c t before := by
            simp [contents, hsaid]
          constructor
          all_goals rw [h.unheard hsaid now]
          · exact h.waiting
          · exact h.address
          · rw [hcontents]
            exact h.receiver
          · rw [hcontents]
            exact h.exchanges
      | some content =>
          have hcontents : contents c t (before ++ [(now, .frame f)]) =
              contents c t before ++ [content] := by
            simp [contents, hsaid]
          have hnone : (o.after before t).ending? now content = none :=
            Option.eq_none_iff_forall_ne_some.mpr fun answer hending => hundecided _
              (.frame hsaid ((Conversation.ending?_eq_some_iff h.receiver h.exchanges).mp hending))
          obtain ⟨haddress, hreceiver, hstatus, hexchanges⟩ := h.heard hsaid now
          constructor
          · rw [hstatus, hnone]
            rfl
          · exact haddress.trans h.address
          · rw [hreceiver, h.receiver, hcontents, Receiver.fed_append]
            rfl
          · rw [hexchanges hnone, h.exchanges, h.receiver, hcontents, unsettled_append]

/-- Of events of which none decides, neither does one of those before the last, nor the last. -/
theorem Undecided.of_append (h : o.Undecided t (before ++ [(now, event)])) :
    o.Undecided t before ∧ ∀ entry, ¬o.Decides t before now event entry := by
  refine ⟨?_, h before now event [] rfl⟩
  rintro earlier time first later rfl
  exact h earlier time first (later ++ [(now, event)]) (by simp)

theorem Undecided.stands (h : o.Undecided t events) : o.Stands t events := by
  induction events using List.reverseRecOn with
  | nil => exact stands_nil
  | append_singleton before last ih =>
      obtain ⟨hbefore, hlast⟩ := h.of_append
      exact (ih hbefore).undecided hlast

/-- The first event that decides about a target ends its conversation for good. -/
theorem Decided.status (h : o.Decided t events entry) :
    (o.after events t).status = entry.elim .unanswered .answered := by
  obtain ⟨before, now, event, later, rfl, hundecided, hdecides⟩ := h
  have hstatus := hundecided.stands.decided hdecides
  have hover : (o.after (before ++ [(now, event)]) t).isOver = true := by
    rw [Conversation.isOver, hstatus]
    cases entry <;> rfl
  have hsame : o.after (before ++ (now, event) :: later) t =
      o.after (before ++ [(now, event)]) t := by
    rw [List.append_cons, after, Conversation.through_append]
    exact Conversation.through_over hover later
  rw [hsame, hstatus]

theorem undecided_nil : o.Undecided t [] := by
  intro before now event later hnil
  simp at hnil

/-- Of some events none decides about a target, or one of them is the first that does. -/
theorem undecided_or_decided (o : Opening c q) (t : Target) (events : List (Instant × Event)) :
    o.Undecided t events ∨ ∃ entry, o.Decided t events entry := by
  induction events using List.reverseRecOn with
  | nil => exact .inl undecided_nil
  | append_singleton before last ih =>
      obtain ⟨now, event⟩ := last
      obtain hbefore | ⟨entry, earlier, time, first, later, rfl, hearlier, hdecides⟩ := ih
      · by_cases hlast : ∃ entry, o.Decides t before now event entry
        · obtain ⟨entry, hdecides⟩ := hlast
          exact .inr ⟨entry, before, now, event, [], rfl, hbefore, hdecides⟩
        · refine .inl fun earlier time first later heq entry hdecides => ?_
          obtain rfl | ⟨later, final, rfl⟩ := later.eq_nil_or_concat'
          · obtain ⟨rfl, hlast'⟩ := List.append_inj' heq rfl
            cases hlast'
            exact hlast ⟨entry, hdecides⟩
          · rw [← List.cons_append, ← List.append_assoc] at heq
            exact hbefore earlier time first later (List.append_inj' heq rfl).1 entry hdecides
      · exact .inr ⟨entry, earlier, time, first, later ++ [(now, event)], by simp, hearlier,
          hdecides⟩

/-- A conversation that is over was decided. -/
theorem exists_decided (hover : (o.after events t).isOver = true) :
    ∃ entry, o.Decided t events entry := by
  refine (o.undecided_or_decided t events).resolve_left fun hundecided => ?_
  rw [Conversation.isOver_eq_false_iff.mpr hundecided.stands.waiting] at hover
  cases hover

/-- What is decided about a target is its entry among the answers. -/
theorem Decided.get?_answers (h : o.Decided t events entry) (ht : t ∈ q.targets) :
    (Round.answers (q.targets.map (o.after events))).get? t = entry := by
  refine Option.ext fun answer => ?_
  rw [o.get?_answers_eq_some_iff, h.status]
  cases entry <;> simp [ht]

end Opening

/-- A query that waits has for each of its targets the entry that is decided on by the first event
to decide about it, whatever comes after; there is no entry if the clock is first, or if the target
was not asked. The query begins when it first reads the clock. -/
theorem entry_decided (c : Settings) (q : Query) {σ : Type} (link : Link σ) {rounds : Nat}
    {w : Logged σ} {answers : Answers} {record : Logged (Recorded σ)}
    (htimeout : q.timeout ≠ .zero)
    (hrun : engine c link.recorded rounds q (Recorded.blank w) = some (.ok answers, record)) :
    ∃ (o : Opening c q) (rest : List Use) (events : List (Instant × Event)),
      record.world.uses.toList = .read o.start :: rest ∧
        events = Readings.events q.bus (Readings.ofUses record.world.uses.toList) ∧
        (∀ t ∉ q.targets, answers.get? t = none) ∧
        ∀ t ∈ q.targets, ∀ entry, answers.get? t = entry ↔ o.Decided t events entry := by
  have hqueried := (engine_records link c q rounds).from_blank hrun
  obtain ⟨hrefused, -⟩ | ⟨o, rest, done, huses, haccount⟩ := hqueried.course htimeout
  · cases hrefused
  obtain ⟨-, hover, rfl⟩ := haccount.of_ok
  refine ⟨o, rest, _, huses, rfl, fun t ht => ?_, fun t ht entry => ⟨fun hget => ?_,
    fun hdecided => hdecided.get?_answers ht⟩⟩
  · refine Option.eq_none_iff_forall_ne_some.mpr fun answer hanswer => ?_
    exact ht (o.get?_answers_eq_some_iff.mp hanswer).1
  · obtain ⟨decided, hdecided⟩ := Opening.exists_decided
      (List.all_eq_true.mp hover _ (List.mem_map_of_mem ht))
    rw [← hget, hdecided.get?_answers ht]
    exact hdecided

/-- A query of five units for the same data. -/
def asking : Query where
  bus := 0
  targets :=
    [{ address := 0x7D0, subAddress := some 0x0F }, { address := 0x7E0 }, { address := 0x7C0 },
      { address := 0x7B0 }, { address := 0x7A0 }]
  exchanges := [{ request := [0x22, 0xF1, 0x90], expected := [0x62, 0xF1, 0x90] }]
  timeout := .ofMillis 1000

/-- A bus on which the first unit asks for more time and then answers, the second one refuses, the
third one sends a frame out of turn before it answers, the fourth one answers in the batch that
comes when its time is over, and the last one says nothing. -/
def varied : Scripted.Playback where
  readings :=
    [{ takes := .ofMillis 10
       result := .ok
        [{ address := 0x7D8, bus := 0, data := [0x0F, 0x03, 0x7F, 0x22, 0x78] },
          { address := 0x7E8, bus := 0, data := [0x03, 0x7F, 0x22, 0x31] },
          { address := 0x7C8, bus := 0, data := [0x10, 0x0A, 0x62, 0xF1, 0x90, 1, 2, 3] },
          { address := 0x7C8, bus := 0, data := [0x22, 4, 5, 6, 7] },
          { address := 0x7C8, bus := 0, data := [0x03, 0x62, 0xF1, 0x90] }] },
      { takes := .ofMillis 1000
        result := .ok
          [{ address := 0x7D8, bus := 0, data := [0x0F, 0x03, 0x62, 0xF1, 0x90] },
            { address := 0x7B8, bus := 0, data := [0x03, 0x62, 0xF1, 0x90] }] }]

theorem entry_decided_varied :
    ∃ (answers : Answers) (record : Logged (Recorded Scripted.Playback)) (o : Opening {} asking)
      (rest : List Use) (events : List (Instant × Event)),
      engine {} Scripted.Playback.link.recorded 5 asking (Recorded.blank { world := varied }) =
          some (.ok answers, record) ∧
        record.world.uses.toList = .read o.start :: rest ∧
        events = Readings.events 0 (Readings.ofUses record.world.uses.toList) ∧
        o.Decided { address := 0x7D0, subAddress := some 0x0F } events
          (some (.ok [0x62, 0xF1, 0x90])) ∧
        (∃ why, o.Decided { address := 0x7E0 } events (some (.error (.refused 0x31 why)))) ∧
        o.Decided { address := 0x7C0 } events (some (.error .wrongMessage)) ∧
        o.Decided { address := 0x7B0 } events (some (.ok [0x62, 0xF1, 0x90])) ∧
        o.Decided { address := 0x7A0 } events none := by
  obtain ⟨answers, record, hrun, hget⟩ := Answers.exists_of_observed
    (x := engine {} Scripted.Playback.link.recorded 5 asking)
    (w := Recorded.blank { world := varied })
    (fun answers => some (asking.targets.map answers.get?))
    [some (.ok [0x62, 0xF1, 0x90]), some (.error (.refused 0x31 (some (Uds.describe 0x31)))),
      some (.error .wrongMessage), some (.ok [0x62, 0xF1, 0x90]), none] (by decide +kernel)
  obtain ⟨hfirst, hsecond, hthird, hfourth, hlast, -⟩ : _ ∧ _ ∧ _ ∧ _ ∧ _ ∧ True := by
    simpa [asking] using hget
  obtain ⟨o, rest, events, huses, hevents, -, hdecided⟩ :=
    entry_decided {} asking Scripted.Playback.link (by decide) hrun
  exact ⟨answers, record, o, rest, events, hrun, huses, hevents,
    (hdecided _ (by decide) _).mp hfirst, ⟨_, (hdecided _ (by decide) _).mp hsecond⟩,
    (hdecided _ (by decide) _).mp hthird, (hdecided _ (by decide) _).mp hfourth,
    (hdecided _ (by decide) _).mp hlast⟩

end EcuQuiet.IsoTp
