import EcuQuiet.Proofs.IsoTp.Reassembly
import EcuQuiet.Proofs.IsoTp.Waiting

/-!
# How a sender is paced

A sender is called upon in any order: flow controls of any content are shown to it, whether or not
it waits for one, and it is asked for frames at any time. Whatever the calls, it obeys the flow
controls that it grants, and what it hands out is the message, part after part.
-/

namespace EcuQuiet.IsoTp

namespace Sender

/-! ### Calls -/

/-- What a sender is called upon for. -/
inductive Call
  /-- A flow control has come. -/
  | flowControl (frame : Bytes)
  /-- There is room for a frame. -/
  | update

/-- What comes of a call. -/
inductive Effect
  /-- Nothing waited for the flow control. -/
  | ignored
  /-- The flow control says to wait. -/
  | held
  /-- The flow control says that the transfer is over, or makes no sense. -/
  | refused (reason : DiagnosticError)
  /-- The flow control says to go on, with a block size and a separation time. -/
  | granted (blockSize separation : UInt8)
  /-- There is no frame to be sent now. -/
  | idle
  /-- A consecutive frame. -/
  | produced (frame : Bytes)
deriving DecidableEq

/-- Whether a call has moved the sender. -/
def Effect.moves : Effect → Bool
  | granted _ _ | produced _ => true
  | _ => false

/-- The sender after a call, and what has come of it. -/
def call (size : Nat) (now : Instant) (s : Sender) : Call → Sender × Effect
  | .flowControl frame =>
    match s.permit frame now with
    | .unexpected => (s, .ignored)
    | .wait => (s, .held)
    | .refused reason => (s, .refused reason)
    | .granted after => (after, .granted (frame.getD 1 0) (frame.getD 2 0))
  | .update =>
    match s.next? size now with
    | none => (s, .idle)
    | some (frame, after) => (after, .produced frame)

/-- The sender after calls at certain times. -/
def called (size : Nat) (s : Sender) (calls : List (Instant × Call)) : Sender :=
  calls.foldl (fun s (now, call) => (s.call size now call).1) s

/-- What comes of calls at certain times. -/
def trace (size : Nat) (s : Sender) : List (Instant × Call) → List (Instant × Effect)
  | [] => []
  | (now, call) :: calls =>
    (now, (s.call size now call).2) :: trace size (s.call size now call).1 calls

/-- The consecutive frames that calls have led to. -/
def produced (trace : List (Instant × Effect)) : List Bytes :=
  trace.filterMap fun
    | (_, .produced frame) => some frame
    | _ => none

/-- No flow control has said to go on. -/
def Ungranted (trace : List (Instant × Effect)) : Prop :=
  ∀ entry ∈ trace, ∀ blockSize separation, entry.2 ≠ .granted blockSize separation

/-- The part of a message in a frame: behind a length of two bytes in a first frame, and behind one
byte in others. -/
def payload (frame : Bytes) : Bytes := frame.drop (if kind? frame = some 1 then 2 else 1)

/-- What has been handed out of a message: by its start frame, and by consecutive frames since. -/
def carried (size : Nat) (message : Bytes) (trace : List (Instant × Effect)) : Bytes :=
  ((start size message).1 :: produced trace).flatMap payload

/-- A course of calls in which a sender has obeyed the receiver of its message. -/
structure Obeys (size : Nat) (message : Bytes) (trace : List (Instant × Effect)) : Prop where
  /-- No consecutive frame comes before a flow control that says to go on. -/
  start : ∀ before later, trace = before ++ later → Ungranted before → produced before = []
  /-- At most one block comes before the next such flow control. -/
  block : ∀ before granted blockSize separation block later,
    trace = before ++ (granted, .granted blockSize separation) :: (block ++ later) →
    Ungranted block → blockSize ≠ 0 → (produced block).length ≤ blockSize.toNat
  /-- The separation time lies between a flow control and the frames of its block, and between any
  two of these. -/
  spaced : ∀ before granted blockSize separation block now frame later,
    trace = before ++ (granted, .granted blockSize separation) ::
      (block ++ (now, .produced frame) :: later) →
    Ungranted block → granted + (separationTime separation).nanos ≤ now ∧
      ∀ earlier part, (earlier, .produced part) ∈ block →
        earlier + (separationTime separation).nanos ≤ now
  /-- Consecutive frames have the numbers 1, 2, 3, … modulo 16. -/
  numbered : ∀ k frame, (produced trace)[k]? = some frame →
    frame.head? = some (UInt8.ofNat (0x20 + (k + 1) % 16))
  /-- What has been handed out is the beginning of the message. -/
  content : carried size message trace <+: message
  /-- Once all of it has been handed out, nothing more comes, and flow controls are ignored. -/
  complete : ∀ before later, trace = before ++ later → carried size message before = message →
    ∀ entry ∈ later, entry.2 = .ignored ∨ entry.2 = .idle

variable {size : Nat} {now : Instant} {s after : Sender} {effect : Effect}

/-- The ways in which a call goes. -/
inductive Goes (size : Nat) (now : Instant) : Sender → Sender → Effect → Prop
  | stays {s : Sender} {effect : Effect} (hmoves : effect.moves = false)
      (hfinished : s = finished → effect = .ignored ∨ effect = .idle) : Goes size now s s effect
  | granted (rest : Bytes) (sequence : Nat) (blockSize separation : UInt8) :
      Goes size now (blocked rest sequence)
        (sending rest sequence (if blockSize = 0 then none else some blockSize.toNat)
          (separationTime separation) now)
        (.granted blockSize separation)
  | produced (rest : Bytes) (sequence : Nat) (budget : Option Nat) {gap : Span} {since : Instant}
      (hgap : gap.nanos ≤ now - since) :
      Goes size now (sending rest sequence budget gap since)
        (behind size now rest sequence budget gap)
        (.produced (ofHalves 2 sequence :: rest.take (size - 1)))

theorem goes_flowControl (size : Nat) (now : Instant) (s : Sender) (frame : Bytes) :
    Goes size now s (s.call size now (.flowControl frame)).1
      (s.call size now (.flowControl frame)).2 := by
  cases s with
  | finished => exact .stays rfl fun _ => .inl rfl
  | sending => exact .stays rfl nofun
  | blocked rest sequence =>
      unfold call permit
      dsimp only
      split
      next hpermit => exact .stays rfl nofun
      next hpermit => exact .stays rfl nofun
      next hpermit => exact .stays rfl nofun
      next after hpermit =>
        split at hpermit
        · split at hpermit
          · cases hpermit
            exact .granted ..
          · cases hpermit
          · cases hpermit
          · cases hpermit
        · cases hpermit

/-- A call goes in one of these ways. -/
theorem goes (size : Nat) (now : Instant) (s : Sender) (call : Call) :
    Goes size now s (s.call size now call).1 (s.call size now call).2 := by
  cases call with
  | flowControl frame => exact goes_flowControl size now s frame
  | update =>
      unfold Sender.call
      dsimp only
      split
      next hnext => exact .stays rfl fun _ => .inr rfl
      next frame after hnext =>
        obtain ⟨rest, sequence, budget, gap, since, rfl, hgap, rfl, rfl⟩ := next?_eq_some hnext
        exact .produced rest sequence budget hgap

/-! ### Courses of calls -/

variable {calls : List (Instant × Call)} {before later : List (Instant × Effect)}

theorem called_append (size : Nat) (s : Sender) (first rest : List (Instant × Call)) :
    called size s (first ++ rest) = called size (called size s first) rest := List.foldl_append

theorem trace_append (size : Nat) (s : Sender) (first rest : List (Instant × Call)) :
    trace size s (first ++ rest) = trace size s first ++ trace size (called size s first) rest := by
  induction first generalizing s with
  | nil => rfl
  | cons call first ih => exact congrArg (List.cons _) (ih _)

/-- A part of a course belongs to a part of the calls. -/
theorem exists_of_trace_eq_append (h : trace size s calls = before ++ later) :
    ∃ first rest, calls = first ++ rest ∧ before = trace size s first ∧
      later = trace size (called size s first) rest := by
  induction before generalizing s calls with
  | nil => exact ⟨[], calls, rfl, rfl, h.symm⟩
  | cons entry before ih =>
      cases calls with
      | nil => cases h
      | cons call calls =>
          obtain ⟨hentry, htrace⟩ := List.cons.inj h
          obtain ⟨first, rest, rfl, rfl, rfl⟩ := ih htrace
          exact ⟨call :: first, rest, rfl, congrArg (· :: _) hentry.symm, rfl⟩

theorem produced_append (first rest : List (Instant × Effect)) :
    produced (first ++ rest) = produced first ++ produced rest := List.filterMap_append

theorem produced_cons_of_stays {entry : Instant × Effect} (h : entry.2.moves = false)
    (trace : List (Instant × Effect)) : produced (entry :: trace) = produced trace := by
  obtain ⟨now, effect⟩ := entry
  cases effect with
  | granted | produced => cases h
  | ignored | held | refused | idle => rfl

/-- A flow control that says to go on sets the sender going. -/
theorem exists_of_trace_eq_granted {blockSize separation : UInt8}
    (h : trace size s calls = (now, .granted blockSize separation) :: later) :
    ∃ call more rest sequence, calls = (now, call) :: more ∧
      later = trace size (sending rest sequence
        (if blockSize = 0 then none else some blockSize.toNat) (separationTime separation) now)
        more := by
  cases calls with
  | nil => cases h
  | cons call calls =>
      obtain ⟨time, call⟩ := call
      have hgoes := goes size time s call
      unfold trace at h
      generalize s.call size time call = called at hgoes h
      obtain ⟨after, effect⟩ := called
      obtain ⟨hentry, rfl⟩ := List.cons.inj h
      cases hentry
      cases hgoes with
      | stays hmoves => cases hmoves
      | granted rest sequence => exact ⟨call, calls, rest, sequence, rfl, rfl⟩

/-! ### What a block is made of -/

/-- The sender may hand out no more than so many frames before another flow control. -/
def Within (limit : Nat) : Sender → Prop
  | sending _ _ budget _ _ => ∃ left, budget = some left ∧ 0 < left ∧ left ≤ limit
  | _ => True

theorem within_behind {rest : Bytes} {sequence : Nat} {budget : Option Nat} {gap : Span}
    {since : Instant} {limit : Nat}
    (h : (sending rest sequence budget gap since).Within (limit + 1)) :
    (behind size now rest sequence budget gap).Within limit := by
  obtain ⟨left, rfl, hpositive, hleft⟩ := h
  unfold behind
  split
  · trivial
  · split
    next => trivial
    next hmore =>
      have hnonzero : left - 1 ≠ 0 := fun hzero => hmore (congrArg some hzero)
      exact ⟨left - 1, rfl, Nat.pos_of_ne_zero hnonzero, by omega⟩

theorem produced_le {limit : Nat} (hs : s.Within limit) (h : Ungranted (trace size s calls)) :
    (produced (trace size s calls)).length ≤ limit := by
  induction calls generalizing s limit with
  | nil => exact Nat.zero_le _
  | cons call calls ih =>
      have hrest : Ungranted (trace size (s.call size call.1 call.2).1 calls) :=
        fun entry hmem => h entry (List.mem_cons_of_mem _ hmem)
      have hfirst := h (call.1, (s.call size call.1 call.2).2) List.mem_cons_self
      have hgoes := goes size call.1 s call.2
      unfold trace
      generalize s.call size call.1 call.2 = called at hrest hfirst hgoes ⊢
      obtain ⟨after, effect⟩ := called
      cases hgoes with
      | stays hmoves =>
          rw [produced_cons_of_stays hmoves]
          exact ih hs hrest
      | granted rest sequence blockSize separation => exact absurd rfl (hfirst _ _)
      | produced rest sequence budget hgap =>
          cases limit with
          | zero =>
              obtain ⟨left, -, hpositive, hleft⟩ := hs
              omega
          | succ limit => exact Nat.succ_le_succ (ih (within_behind hs) hrest)

/-- The sender keeps this separation time, from this moment on at the earliest. -/
def Spaced (gap : Span) (earliest : Instant) : Sender → Prop
  | sending _ _ _ own since => own = gap ∧ earliest ≤ since
  | _ => True

theorem spaced_behind {earliest : Instant} (hnow : earliest ≤ now) (rest : Bytes)
    (sequence : Nat) (budget : Option Nat) (gap : Span) :
    (behind size now rest sequence budget gap).Spaced gap earliest := by
  unfold behind
  split
  · trivial
  · split
    · trivial
    · exact ⟨rfl, hnow⟩

/-- Between frames of a block lies the separation time, and the first of them keeps it too. -/
theorem spaced_trace {gap : Span} {earliest : Instant} (hs : s.Spaced gap earliest)
    (hordered : calls.Pairwise (·.1 ≤ ·.1)) (hearliest : ∀ call ∈ calls, earliest ≤ call.1)
    {block : List (Instant × Effect)} {frame : Bytes}
    (htrace : trace size s calls = block ++ (now, .produced frame) :: later)
    (hblock : Ungranted block) :
    earliest + gap.nanos ≤ now ∧
      ∀ earlier part, (earlier, .produced part) ∈ block → earlier + gap.nanos ≤ now := by
  induction calls generalizing s earliest block with
  | nil => cases block <;> cases htrace
  | cons call calls ih =>
      obtain ⟨hfirst, hordered⟩ := List.pairwise_cons.mp hordered
      have hcall : earliest ≤ call.1 := hearliest call List.mem_cons_self
      have hgoes := goes size call.1 s call.2
      unfold trace at htrace
      generalize s.call size call.1 call.2 = called at hgoes htrace
      obtain ⟨after, effect⟩ := called
      cases block with
      | nil =>
          obtain ⟨hentry, -⟩ := List.cons.inj htrace
          cases hentry
          cases hgoes with
          | stays hmoves => cases hmoves
          | produced rest sequence budget hgap =>
              obtain ⟨rfl, hsince⟩ := hs
              refine ⟨?_, nofun⟩
              simp only [Instant] at *
              omega
      | cons entry block =>
          rw [List.cons_append] at htrace
          obtain ⟨rfl, hlater⟩ := List.cons.inj htrace
          have hrest : Ungranted block :=
            fun entry hmem => hblock entry (List.mem_cons_of_mem _ hmem)
          cases hgoes with
          | granted rest sequence blockSize separation =>
              exact absurd rfl (hblock _ List.mem_cons_self _ _)
          | stays hmoves =>
              obtain ⟨hnow, hparts⟩ := ih hs hordered
                (fun call hmem => hearliest call (List.mem_cons_of_mem _ hmem)) hlater hrest
              refine ⟨hnow, fun earlier part hmem => ?_⟩
              obtain heq | hmem := List.mem_cons.mp hmem
              · cases heq
                cases hmoves
              · exact hparts earlier part hmem
          | produced rest sequence budget hgap =>
              obtain ⟨rfl, -⟩ := hs
              obtain ⟨hnow, hparts⟩ := ih (spaced_behind (Nat.le_refl _) ..) hordered hfirst
                hlater hrest
              refine ⟨Nat.le_trans (Nat.add_le_add_right hcall _) hnow, fun earlier part hmem => ?_⟩
              obtain heq | hmem := List.mem_cons.mp hmem
              · cases heq
                exact hnow
              · exact hparts earlier part hmem

/-! ### What has been handed out -/

/-- The next consecutive frame of the sender has this number. -/
def Numbered (number : Nat) : Sender → Prop
  | finished => True
  | blocked _ sequence | sending _ sequence _ _ _ => sequence = number % 16

/-- What a sender has handed out of a message, and what is left of it. -/
structure Carrying (size : Nat) (message : Bytes) (trace : List (Instant × Effect)) (s : Sender) :
    Prop where
  content : carried size message trace ++ s.rest = message
  inTurn : InTurn (produced trace)
  numbered : s.Numbered ((produced trace).length + 1)
  live : s.Live

theorem carried_append (size : Nat) (message : Bytes) (first rest : List (Instant × Effect)) :
    carried size message (first ++ rest) =
      carried size message first ++ (produced rest).flatMap payload := by
  rw [carried, produced_append, ← List.cons_append, List.flatMap_append]
  rfl

theorem payload_start (size : Nat) (message : Bytes) :
    payload (start size message).1 ++ (start size message).2.rest = message := by
  obtain hshort | hlong := Nat.lt_or_ge message.length size
  · rw [start_of_short hshort, payload, if_neg (by simp [kind?])]
    exact List.append_nil _
  · rw [start_of_long hlong, payload, if_pos (by simp [kind?])]
    exact List.take_append_drop ..

theorem payload_consecutive (number : Nat) (content : Bytes) :
    payload (ofHalves 2 number :: content) = content := by
  rw [payload, if_neg (by simp [kind?])]
  rfl

theorem carrying_start (hsize : 2 ≤ size) (message : Bytes) :
    Carrying size message [] (start size message).2 := by
  refine ⟨?_, nofun, ?_, ?_⟩
  · exact (congrArg (· ++ _) (List.append_nil _)).trans (payload_start size message)
  · obtain hshort | hlong := Nat.lt_or_ge message.length size
    · rw [start_of_short hshort]
      trivial
    · rw [start_of_long hlong]
      rfl
  · obtain hshort | hlong := Nat.lt_or_ge message.length size
    · rw [start_of_short hshort]
      exact .inl rfl
    · rw [start_of_long hlong]
      refine .inr (List.ne_nil_of_length_pos ?_)
      rw [rest, List.length_drop]
      omega

theorem rest_behind (now : Instant) (rest : Bytes) (sequence : Nat) (budget : Option Nat)
    (gap : Span) : (behind size now rest sequence budget gap).rest = rest.drop (size - 1) := by
  unfold behind
  split
  next hempty => exact (List.isEmpty_iff.mp hempty).symm
  next => split <;> rfl

theorem numbered_behind {number sequence : Nat} (hsequence : sequence = number % 16) (now : Instant)
    (rest : Bytes) (budget : Option Nat) (gap : Span) :
    (behind size now rest sequence budget gap).Numbered (number + 1) := by
  have hnext : (sequence + 1) % 16 = (number + 1) % 16 := by omega
  unfold behind
  split
  · trivial
  · split
    · exact hnext
    · exact hnext

/-- A call hands out the next part of the message or nothing. -/
theorem carrying_of_goes {message : Bytes} (h : Goes size now s after effect)
    (hs : Carrying size message before s) :
    Carrying size message (before ++ [(now, effect)]) after := by
  obtain ⟨hcontent, hturn, hnumbered, hlive⟩ := hs
  cases h with
  | stays hmoves =>
      have hnone : produced [(now, effect)] = [] := produced_cons_of_stays hmoves []
      rw [← List.append_nil (produced before), ← hnone, ← produced_append] at hturn hnumbered
      refine ⟨?_, hturn, hnumbered, hlive⟩
      rw [carried_append, hnone, List.flatMap_nil, List.append_nil]
      exact hcontent
  | granted rest sequence blockSize separation =>
      rw [← List.append_nil (produced before)] at hturn hnumbered
      refine ⟨?_, ?_, ?_, .inr (hlive.resolve_left nofun)⟩
      · rw [carried_append]
        exact (congrArg (· ++ _) (List.append_nil _)).trans hcontent
      · rw [produced_append]
        exact hturn
      · rw [produced_append]
        exact hnumbered
  | produced rest sequence budget hgap =>
      have hone : produced [(now, .produced (ofHalves 2 sequence :: rest.take (size - 1)))] =
          [ofHalves 2 sequence :: rest.take (size - 1)] := rfl
      have hsequence : sequence = ((produced before).length + 1) % 16 := hnumbered
      refine ⟨?_, ?_, ?_, live_behind ..⟩
      · rw [carried_append, hone, List.flatMap_singleton, payload_consecutive, rest_behind,
          List.append_assoc, List.take_append_drop]
        exact hcontent
      · rw [produced_append, hone, inTurn_append_singleton]
        refine ⟨hturn, ?_⟩
        rw [List.head?_cons, hsequence]
        simp [ofHalves]
      · rw [produced_append, hone, List.length_append]
        exact numbered_behind hsequence ..

/-- Whatever the calls, what has been handed out and what is left make up the message. -/
theorem carrying (hsize : 2 ≤ size) (message : Bytes) (calls : List (Instant × Call)) :
    Carrying size message (trace size (start size message).2 calls)
      (called size (start size message).2 calls) := by
  induction calls using List.reverseRecOn with
  | nil => exact carrying_start hsize message
  | append_singleton calls call ih =>
      rw [trace_append, called_append]
      exact carrying_of_goes (goes size call.1 _ call.2) ih

theorem finished_trace (hs : s = finished) : ∀ entry ∈ trace size s calls,
    entry.2 = .ignored ∨ entry.2 = .idle := by
  induction calls generalizing s with
  | nil => nofun
  | cons call calls ih =>
      have hgoes := goes size call.1 s call.2
      unfold trace
      generalize s.call size call.1 call.2 = called at hgoes ⊢
      obtain ⟨after, effect⟩ := called
      subst hs
      cases hgoes with
      | stays hmoves hfinished =>
          intro entry hmem
          obtain rfl | hmem := List.mem_cons.mp hmem
          · exact hfinished rfl
          · exact ih rfl entry hmem

/-- A sender obeys the receiver of its message, whatever calls come at times in order. -/
theorem obeys {size : Nat} (hsize : 2 ≤ size) (message : Bytes) {calls : List (Instant × Call)}
    (hordered : calls.Pairwise (·.1 ≤ ·.1)) :
    Obeys size message (trace size (start size message).2 calls) := by
  have hcarrying := carrying hsize message calls
  refine ⟨?start, ?block, ?spaced, ?numbered, ?content, ?complete⟩
  case start =>
    intro before later htrace hbefore
    obtain ⟨first, rest, rfl, rfl, -⟩ := exists_of_trace_eq_append htrace
    have hwithin : (start size message).2.Within 0 := by
      unfold start
      split <;> trivial
    exact List.eq_nil_of_length_eq_zero (Nat.le_zero.mp (produced_le hwithin hbefore))
  case block =>
    intro before granted blockSize separation block later htrace hblock hlimited
    obtain ⟨_, _, _, _, hgranted⟩ := exists_of_trace_eq_append htrace
    obtain ⟨_, calls, rest, sequence, _, hcalls⟩ := exists_of_trace_eq_granted hgranted.symm
    obtain ⟨first, _, _, rfl, _⟩ := exists_of_trace_eq_append hcalls.symm
    refine produced_le ⟨blockSize.toNat, if_neg hlimited, ?_, Nat.le_refl _⟩ hblock
    exact Nat.pos_of_ne_zero fun hzero => hlimited (UInt8.toNat_inj.mp hzero)
  case spaced =>
    intro before granted blockSize separation block now frame later htrace hblock
    obtain ⟨first, later, rfl, -, hgranted⟩ := exists_of_trace_eq_append htrace
    obtain ⟨call, calls, rest, sequence, rfl, hcalls⟩ :=
      exists_of_trace_eq_granted hgranted.symm
    obtain ⟨hgranted, hordered⟩ :=
      List.pairwise_cons.mp (List.pairwise_append.mp hordered).2.1
    have hspaced : (sending rest sequence
        (if blockSize = 0 then none else some blockSize.toNat) (separationTime separation)
        granted).Spaced (separationTime separation) granted := ⟨rfl, Nat.le_refl _⟩
    exact spaced_trace hspaced hordered hgranted hcalls.symm hblock
  case numbered =>
    intro k frame hframe
    exact hcarrying.inTurn k frame hframe
  case content => exact ⟨_, hcarrying.content⟩
  case complete =>
    intro before later htrace hall
    obtain ⟨first, rest, rfl, rfl, rfl⟩ := exists_of_trace_eq_append htrace
    obtain ⟨hcontent, -, -, hlive⟩ := carrying hsize message first
    refine finished_trace (hlive.resolve_right fun hrest => hrest ?_)
    rw [hall] at hcontent
    exact List.append_right_eq_self.mp hcontent

/-- A message in three frames: the receiver first asks to wait, then for one frame at a time, two
milliseconds apart. -/
theorem obeys_slowReceiver :
    let message : Bytes := [1, 2, 3, 4, 5, 6, 7, 8, 9, 10, 11, 12, 13, 14]
    let calls := [(0, .update), (1000000, .flowControl [0x31, 0, 0]),
      (2000000, .flowControl [0x30, 1, 2]), (3000000, .update), (4000000, .update),
      (4000000, .update), (5000000, .flowControl [0x30, 1, 2]), (7000000, .update),
      (8000000, .flowControl [0x30, 1, 2]), (9000000, .update)]
    trace 8 (start 8 message).2 calls =
        [(0, .idle), (1000000, .held), (2000000, .granted 1 2), (3000000, .idle),
          (4000000, .produced [0x21, 7, 8, 9, 10, 11, 12, 13]), (4000000, .idle),
          (5000000, .granted 1 2), (7000000, .produced [0x22, 14]), (8000000, .ignored),
          (9000000, .idle)] ∧
      Obeys 8 message (trace 8 (start 8 message).2 calls) :=
  ⟨by decide, obeys (by decide) _ (by decide)⟩

end Sender

end EcuQuiet.IsoTp
