import EcuQuiet.Proofs.IsoTp.Frames
import EcuQuiet.Proofs.IsoTp.Queries
import EcuQuiet.Simulation.Network

/-!
# How long a query waits

Almost every frame from a target puts off the moment at which the target is given up, but never past
the limit that the query was given when it began. So the first round whose reading of the clock has
reached the limit ends every conversation, and over a link whose readings take time the number of
readings is bounded, whatever they hold.
-/

namespace EcuQuiet

/-- The results of the readings of the bus among some uses. -/
def Use.receipts (uses : List Use) : List (Except BusError (List Frame)) :=
  uses.filterMap fun
    | .received result => some result
    | _ => none

theorem Use.receipts_append (first rest : List Use) :
    receipts (first ++ rest) = receipts first ++ receipts rest :=
  List.filterMap_append

/-- Uses among which nothing is received once the clock has shown the limit. -/
def Use.QuitAt (limit : Instant) (uses : List Use) : Prop :=
  uses.Pairwise fun earlier later =>
    ∀ now, earlier = .read now → limit ≤ now → ∀ result, later ≠ .received result

/-- How time passes over a link: the worlds of which this is known, the time in them, and the least
that a reading of the bus takes. -/
structure Pace (σ : Type) where
  steady : σ → Prop
  time : σ → Instant
  span : Span

/-- A link that keeps a pace: its worlds stay steady, time does not go back, and readings of the bus
take time. -/
structure Link.Paced {σ : Type} (link : Link σ) (p : Pace σ) : Prop where
  now : ∀ w, p.steady w → p.steady (link.now w).2 ∧ p.time w ≤ (link.now w).1 ∧
    (link.now w).1 ≤ p.time (link.now w).2
  receive : ∀ w, p.steady w → p.steady (link.receive w).world ∧
    p.time w + p.span.nanos ≤ p.time (link.receive w).world
  send : ∀ frames w, p.steady w → p.steady (link.send frames w).world ∧
    p.time w ≤ p.time (link.send frames w).world

namespace IsoTp

open Run

namespace Sender

variable {size : Nat} {now : Instant} {s after : Sender}

/-- A sender that has something left, unless it has handed out the whole message. -/
def Live (s : Sender) : Prop := s = finished ∨ s.rest ≠ []

theorem live_start (t : Target) (message : Bytes) : (start (capacity t) message).2.Live := by
  obtain hshort | hlong := Nat.lt_or_ge message.length (capacity t)
  · rw [start_of_short hshort]
    exact .inl rfl
  · rw [start_of_long hlong]
    exact .inr (drop_ne_nil hlong)

theorem live_granted {frame : Bytes} (h : s.permit frame now = .granted after) (hs : s.Live) :
    after.Live := by
  cases s with
  | finished => cases h
  | sending => cases h
  | blocked rest sequence =>
      have hrest : rest ≠ [] := hs.resolve_left nofun
      unfold permit at h
      dsimp only at h
      split at h
      · split at h
        · cases h
          exact .inr hrest
        · cases h
        · cases h
        · cases h
      · cases h

theorem live_behind (now : Instant) (rest : Bytes) (sequence : Nat) (budget : Option Nat)
    (gap : Span) : (behind size now rest sequence budget gap).Live := by
  rw [behind]
  split
  next => exact .inl rfl
  next hmore =>
    have hlater : rest.drop (size - 1) ≠ [] := fun h => hmore (List.isEmpty_iff.mpr h)
    split
    · exact .inr hlater
    · exact .inr hlater

theorem length_behind (now : Instant) (rest : Bytes) (sequence : Nat) (budget : Option Nat)
    (gap : Span) :
    (behind size now rest sequence budget gap).rest.length = rest.length - (size - 1) := by
  rw [← List.length_drop, behind]
  split
  next hmore =>
    rw [List.isEmpty_iff.mp hmore]
    rfl
  next => split <;> rfl

theorem live_next? {content : Bytes} (h : s.next? size now = some (content, after)) :
    after.Live := by
  obtain ⟨rest, sequence, budget, gap, since, rfl, -, -, rfl⟩ := next?_eq_some h
  exact live_behind ..

/-- Every frame takes something from the rest of the message. -/
theorem length_next? {content : Bytes} (hsize : 2 ≤ size) (hs : s.Live)
    (h : s.next? size now = some (content, after)) : after.rest.length < s.rest.length := by
  obtain ⟨rest, sequence, budget, gap, since, rfl, -, -, rfl⟩ := next?_eq_some h
  have hrest : rest ≠ [] := hs.resolve_left nofun
  have hpos := List.length_pos_of_ne_nil hrest
  rw [length_behind]
  exact Nat.sub_lt hpos (by omega)

theorem length_burstUpTo_le (limit : Nat) (s : Sender) :
    (burstUpTo size now limit s).length ≤ limit := by
  induction limit generalizing s with
  | zero => exact Nat.le_refl _
  | succ limit ih =>
      rw [burstUpTo]
      split
      next => exact Nat.zero_le _
      next frame after _ => exact Nat.succ_le_succ (ih after)

/-- The sender after a frame and a further burst is the one after the burst. -/
theorem last_cons {α β : Type} (frame : α × β) (burst : List (α × β)) (s : β) :
    ((frame :: burst).getLast?.map (·.2)).getD s = (burst.getLast?.map (·.2)).getD frame.2 := by
  rw [List.getLast?_cons]
  cases burst.getLast? <;> rfl

/-- The sender that a burst leaves has nothing more to hand out now. -/
theorem burstUpTo_complete (hsize : 2 ≤ size) (hs : s.Live) {limit : Nat}
    (hlimit : s.rest.length ≤ limit) :
    (((burstUpTo size now limit s).getLast?.map (·.2)).getD s).Live ∧
      (((burstUpTo size now limit s).getLast?.map (·.2)).getD s).next? size now = none := by
  induction limit generalizing s with
  | zero =>
      obtain rfl | hrest := hs
      · exact ⟨.inl rfl, rfl⟩
      · exact absurd (List.length_eq_zero_iff.mp (Nat.le_zero.mp hlimit)) hrest
  | succ limit ih =>
      rw [burstUpTo]
      split
      next hnone => exact ⟨hs, hnone⟩
      next frame after hnext =>
        have hless := length_next? hsize hs hnext
        rw [last_cons]
        exact ih (live_next? hnext) (by omega)

end Sender

/-! ### Conversations -/

namespace Conversation

/-- The conversations that a query may come to: those it begins with, and those that come of them
with a frame taken in, a consecutive frame sent, or the clock looked at. -/
inductive Occurs (c : Settings) (q : Query) (first : Exchange) (later : List Exchange)
    (start limit : Instant) : Conversation → Prop
  | begun {t : Target} (ht : t ∈ q.targets) :
      Occurs c q first later start limit (begin c q first later start limit t).1
  | heard {s : Conversation} (hs : Occurs c q first later start limit s) (now : Instant)
      (f : Frame) : Occurs c q first later start limit (s.receive c q now f).1
  | sent {s : Conversation} {now : Instant} {content : Bytes} {after : Sender}
      (hs : Occurs c q first later start limit s)
      (hnext : s.sender.next? (capacity s.target) now = some (content, after)) :
      Occurs c q first later start limit { s with sender := after }
  | ticked {s : Conversation} (hs : Occurs c q first later start limit s) (now : Instant) :
      Occurs c q first later start limit (s.tick c q now).1

/-- A conversation that is not waited for beyond the limit. -/
structure Bounded (limit : Instant) (s : Conversation) : Prop where
  limit_eq : s.limit = limit
  deadline_le : s.deadline ≤ limit
  live : s.sender.Live

variable {c : Settings} {q : Query} {limit : Instant} {s : Conversation}

theorem two_le_capacity (t : Target) : 2 ≤ capacity t := by
  have hcapacity := capacity_eq t
  omega

namespace Bounded

theorem begin {start : Instant}
    (hlimit : Instant.after? start (c.longestWait q.timeout) = some limit) (first : Exchange)
    (later : List Exchange) (t : Target) :
    Bounded limit (Conversation.begin c q first later start limit t).1 := by
  obtain ⟨rfl, -⟩ := Instant.after?_eq_some_iff.mp hlimit
  refine ⟨rfl, Nat.add_le_add_left ?_ start, Sender.live_start t first.request⟩
  rw [Settings.longestWait, Span.nanos_max]
  exact Nat.le_max_left ..

theorem extend (h : Bounded limit s) (now : Instant) (wait : Span) :
    Bounded limit (s.extend now wait) := by
  refine ⟨h.limit_eq, ?_, h.live⟩
  rw [Conversation.extend, h.limit_eq]
  cases Instant.after? now wait with
  | none => exact Nat.le_refl _
  | some t => exact Nat.min_le_right ..

theorem conclude (h : Bounded limit s) (a : Answer) : Bounded limit (s.conclude a) :=
  ⟨h.limit_eq, h.deadline_le, h.live⟩

theorem respond (h : Bounded limit s) (now : Instant) (response : Bytes) :
    Bounded limit (s.respond c q now response).1 := by
  rw [Conversation.respond]
  split
  · dsimp only
    split
    · exact h.extend now c.pendingWait
    · exact h.conclude _
  · split
    · split
      · exact h.conclude _
      next next later _ =>
        have hextended := h.extend now q.timeout
        exact ⟨hextended.limit_eq, hextended.deadline_le, Sender.live_start ..⟩
    · exact h.conclude _

theorem permit (h : Bounded limit s) (now : Instant) (content : Bytes) :
    Bounded limit (s.permit q now content).1 := by
  have hextended := h.extend now q.timeout
  rw [Conversation.permit]
  split
  · exact h
  next sender hgranted =>
    exact ⟨hextended.limit_eq, hextended.deadline_le, Sender.live_granted hgranted h.live⟩
  · exact hextended
  · exact h.conclude _

theorem hear (h : Bounded limit s) (now : Instant) (content : Bytes) :
    Bounded limit (s.hear c q now content).1 := by
  have hfed : Bounded limit { s with receiver := (s.receiver.feed content).1 } :=
    ⟨h.limit_eq, h.deadline_le, h.live⟩
  rw [Conversation.hear]
  dsimp only
  split
  · exact hfed
  · exact hfed
  · exact hfed
  · exact hfed.permit now content
  · exact hfed.extend now q.timeout
  · exact hfed.extend now q.timeout
  · exact hfed.respond now _
  · exact hfed.conclude _

theorem receive (h : Bounded limit s) (now : Instant) (f : Frame) :
    Bounded limit (s.receive c q now f).1 := by
  rw [Conversation.receive]
  split
  · split
    · exact h
    · exact h.hear now _
  · exact h

theorem transmit (h : Bounded limit s) (now : Instant) :
    Bounded limit (s.transmit c q now).1 ∧
      (s.transmit c q now).1.sender.next? (capacity s.target) now = none := by
  obtain ⟨hlive, hnext⟩ :=
    Sender.burstUpTo_complete (two_le_capacity s.target) h.live (Nat.le_refl _)
  exact ⟨⟨h.limit_eq, h.deadline_le, hlive⟩, hnext⟩

theorem tick (h : Bounded limit s) (now : Instant) : Bounded limit (s.tick c q now).1 := by
  have hsent := (h.transmit (c := c) (q := q) now).1
  rw [Conversation.tick]
  split
  · exact h
  · dsimp only
    split
    · exact ⟨hsent.limit_eq, hsent.deadline_le, hsent.live⟩
    · exact hsent

/-- When the limit is reached, the clock ends the conversation. -/
theorem isOver_tick (h : Bounded limit s) {now : Instant} (hnow : limit ≤ now) :
    (s.tick c q now).1.isOver = true := by
  have hdeadline : (s.transmit c q now).1.deadline ≤ now := Nat.le_trans h.deadline_le hnow
  rw [Conversation.tick]
  split
  next hover => exact hover
  next =>
    dsimp only
    rw [if_pos hdeadline]
    rfl

end Bounded

theorem Occurs.bounded {first : Exchange} {later : List Exchange} {start : Instant}
    (hlimit : Instant.after? start (c.longestWait q.timeout) = some limit)
    (h : Occurs c q first later start limit s) : Bounded limit s := by
  induction h with
  | begun => exact .begin hlimit first later _
  | heard _ now f ih => exact ih.receive now f
  | sent _ hnext ih => exact ⟨ih.limit_eq, ih.deadline_le, Sender.live_next? hnext⟩
  | ticked _ now ih => exact ih.tick now

end Conversation

/-! ### Rounds -/

namespace Round

variable {c : Settings} {q : Query} {I : Conversation → Prop}

theorem deliver_keeps (hreceive : ∀ s now f, I s → I (s.receive c q now f).1) (now : Instant)
    (frames : List Frame) {all : List Conversation} (hall : ∀ s ∈ all, I s) :
    ∀ s ∈ (deliver c q now frames all).1, I s := by
  induction frames generalizing all with
  | nil => exact hall
  | cons f rest ih =>
      refine ih fun s hs => ?_
      simp only [List.map_map, List.mem_map, Function.comp_apply] at hs
      obtain ⟨earlier, hearlier, rfl⟩ := hs
      exact hreceive earlier now f (hall earlier hearlier)

/-- Every conversation of a round is one that the clock was looked at with. -/
theorem play_keeps (hreceive : ∀ s now f, I s → I (s.receive c q now f).1) (now : Instant)
    (batch : List Frame) {all : List Conversation} (hall : ∀ s ∈ all, I s) {s : Conversation}
    (hs : s ∈ (play c q now batch all).1) : ∃ heard, I heard ∧ s = (heard.tick c q now).1 := by
  simp only [play, each, List.map_map, List.mem_map, Function.comp_apply] at hs
  obtain ⟨heard, hheard, rfl⟩ := hs
  exact ⟨heard, deliver_keeps hreceive now _ hall heard hheard, rfl⟩

theorem bounded_play {limit : Instant} {all : List Conversation}
    (hall : ∀ s ∈ all, s.Bounded limit) (now : Instant) (batch : List Frame) :
    ∀ s ∈ (play c q now batch all).1, s.Bounded limit := by
  intro s hs
  obtain ⟨heard, hheard, rfl⟩ := play_keeps (fun s now f h => h.receive now f) now batch hall hs
  exact hheard.tick now

/-- A round that has reached the limit is the last one. -/
theorem isOver_play {limit now : Instant} {all : List Conversation}
    (hall : ∀ s ∈ all, s.Bounded limit) (hnow : limit ≤ now) (batch : List Frame) :
    (play c q now batch all).1.all (·.isOver) = true := by
  refine List.all_eq_true.mpr fun s hs => ?_
  obtain ⟨heard, hheard, rfl⟩ := play_keeps (fun s now f h => h.receive now f) now batch hall hs
  exact hheard.isOver_tick hnow

end Round

/-! ### Queries -/

theorem Performed.forall_sent {outputs : List Output} {result : Except DiagnosticError Unit}
    {uses : List Use} (h : Performed outputs result uses) :
    ∀ use ∈ uses, ∃ frames result, use = .sent frames result := by
  induction h with
  | nil => simp
  | note _ ih => exact ih
  | sent _ ih => exact List.forall_mem_cons.mpr ⟨⟨_, _, rfl⟩, ih⟩
  | failed => exact List.forall_mem_cons.mpr ⟨⟨_, _, rfl⟩, nofun⟩

section Queries

variable {c : Settings} {q : Query} {limit : Instant}

theorem Performed.quitAt {outputs : List Output} {result : Except DiagnosticError Unit}
    {sends : List Use} (h : Performed outputs result sends) : Use.QuitAt limit sends := by
  refine List.pairwise_of_forall_mem_list fun earlier hearlier later _ reading hread => ?_
  obtain ⟨frames, result, rfl⟩ := h.forall_sent earlier hearlier
  cases hread

theorem Performed.quitAt_round {outputs : List Output} {result : Except DiagnosticError Unit}
    {sends : List Use} (h : Performed outputs result sends) (batch : List Frame) (now : Instant) :
    Use.QuitAt limit (.received (.ok batch) :: .read now :: sends) := by
  refine List.pairwise_cons.mpr ⟨nofun, List.pairwise_cons.mpr ⟨fun use huse => ?_, h.quitAt⟩⟩
  obtain ⟨frames, result, rfl⟩ := h.forall_sent use huse
  exact fun _ _ _ _ => nofun

theorem Listened.eq_nil_of_over {all : List Conversation} {result : Except DiagnosticError Answers}
    {uses : List Use} (h : Listened c q all result uses) (hover : all.all (·.isOver) = true) :
    uses = [] := by
  cases h with
  | ended => rfl
  | failed hopen => exact absurd hover hopen
  | unsent hopen => exact absurd hover hopen
  | round hopen => exact absurd hover hopen

/-- Once a reading of the clock has reached the limit, nothing is received. -/
theorem Listened.quitAt {all : List Conversation} {result : Except DiagnosticError Answers}
    {uses : List Use} (h : Listened c q all result uses) (hall : ∀ s ∈ all, s.Bounded limit) :
    Use.QuitAt limit uses := by
  induction h with
  | ended => exact .nil
  | failed => exact List.pairwise_singleton ..
  | unsent _ hsends => exact hsends.quitAt_round _ _
  | @round all batch now result sends rest hopen hsends hrest ih =>
      refine List.pairwise_append.mpr ⟨hsends.quitAt_round batch now,
        ih (Round.bounded_play hall now batch), ?_⟩
      rintro earlier hearlier later hlater reading rfl hreached
      obtain hreceived | hread := List.mem_cons.mp hearlier
      · cases hreceived
      obtain hread | hsent := List.mem_cons.mp hread
      · cases hread
        -- the round that has reached the limit leaves nothing for a further one
        rw [hrest.eq_nil_of_over (Round.isOver_play hall hreached batch)] at hlater
        exact absurd hlater List.not_mem_nil
      · obtain ⟨_, _, hsent⟩ := hsends.forall_sent _ hsent
        cases hsent

theorem bounded_begun {first : Exchange} {later : List Exchange} {start : Instant}
    (hlimit : Instant.after? start (c.longestWait q.timeout) = some limit) :
    ∀ s ∈ (q.targets.map (Conversation.begin c q first later start limit)).map (·.1),
      s.Bounded limit := by
  intro s hs
  obtain ⟨_, hbegun, rfl⟩ := List.mem_map.mp hs
  obtain ⟨t, -, rfl⟩ := List.mem_map.mp hbegun
  exact .begin hlimit first later t

theorem Queried.quitAt {result : Except DiagnosticError Answers} {start : Instant}
    {uses : List Use} (h : Queried c q result (.read start :: uses)) :
    Use.QuitAt (start + (c.longestWait q.timeout).nanos) uses := by
  generalize hall : Use.read start :: uses = all at h
  cases h with
  | refused => cases hall
  | outOfRange => cases hall; exact .nil
  | unsent _ _ hsends => cases hall; exact hsends.quitAt
  | unheard _ _ hsends => cases hall; exact hsends.quitAt
  | heard hexchanges hlimit hsends htimeout hrest =>
      cases hall
      obtain ⟨rfl, -⟩ := Instant.after?_eq_some_iff.mp hlimit
      refine List.pairwise_append.mpr ⟨hsends.quitAt, hrest.quitAt (bounded_begun hlimit), ?_⟩
      rintro earlier hearlier later - reading rfl
      obtain ⟨_, _, hsent⟩ := hsends.forall_sent _ hearlier
      cases hsent

variable {σ : Type} {link : Link σ} {p : Pace σ} {allowed left : Nat} {r : Recorded σ}

/-- Between two rounds of a query: some of the readings it is allowed are left, and together they
last until the limit. -/
structure Lasting (p : Pace σ) (limit : Instant) (allowed left : Nat) (r : Recorded σ) : Prop where
  steady : p.steady r.world
  spent : (Use.receipts r.uses.toList).length + left ≤ allowed
  reaches : limit ≤ p.time r.world + left * p.span.nanos

namespace Lasting

theorem receipts_le (h : Lasting p limit allowed left r) :
    (Use.receipts r.uses.toList).length ≤ allowed :=
  Nat.le_trans (Nat.le_add_right ..) h.spent

/-- Neither sending nor reading the clock spends a reading of the bus. -/
theorem add (h : Lasting p limit allowed left r) {world : σ} {use : Use}
    (hsteady : p.steady world) (htime : p.time r.world ≤ p.time world)
    (huse : Use.receipts [use] = []) : Lasting p limit allowed left (r.add world use) := by
  refine ⟨hsteady, ?_, Nat.le_trans h.reaches (Nat.add_le_add_right htime _)⟩
  simp only [Recorded.add, Array.toList_push, Use.receipts_append, huse, List.append_nil]
  exact h.spent

theorem receive (h : Lasting p limit allowed (left + 1) r) (hlink : link.Paced p) :
    Lasting p limit allowed left (link.recorded.receive r).world := by
  obtain ⟨hsteady, hlater⟩ := hlink.receive r.world h.steady
  refine ⟨hsteady, ?_, ?_⟩
  · have hreceipts : Use.receipts (link.recorded.receive r).world.uses.toList =
        Use.receipts r.uses.toList ++ [(link.receive r.world).result] := by
      simp only [Link.recorded, Recorded.add, Array.toList_push, Use.receipts_append]
      rfl
    rw [hreceipts, List.length_append, List.length_singleton, Nat.add_assoc, Nat.add_comm 1]
    exact h.spent
  · have hreaches := h.reaches
    rw [Nat.succ_mul, Nat.add_comm (left * _), ← Nat.add_assoc] at hreaches
    exact Nat.le_trans hreaches (Nat.add_le_add_right hlater _)

theorem perform (hlink : link.Paced p) (outputs : List Output) :
    Keeps False (Lasting p limit allowed left) (Output.perform link.recorded outputs) := by
  refine perform_keeps link.recorded fun frame _ r hr => ?_
  obtain ⟨hsteady, htime⟩ := hlink.send [frame] r.world hr.steady
  exact hr.add hsteady htime rfl

end Lasting

/-- The rounds of a query: none of its conversations is waited for beyond the limit, and all of them
are over when no reading is left. -/
structure Waits (p : Pace σ) (limit : Instant) (allowed left : Nat) (all : List Conversation)
    (r : Recorded σ) : Prop where
  bounded : ∀ s ∈ all, s.Bounded limit
  exhausted : left = 0 → all.all (·.isOver) = true
  lasting : Lasting p limit allowed left r

theorem step_waits (hlink : link.Paced p) (left : Nat) (all : List Conversation) :
    Meets False (Waits p limit allowed left all) (step c q link.recorded all)
      (Continues (fun next r => ∃ less < left, Waits p limit allowed less next r)
        fun _ r => (Use.receipts r.uses.toList).length ≤ allowed) := by
  refine step_meets link.recorded c q
    (R := fun _ r => 0 < left ∧ (∀ s ∈ all, s.Bounded limit) ∧ Lasting p limit allowed (left - 1) r)
    (S := fun _ now r => 0 < left ∧ (∀ s ∈ all, s.Bounded limit) ∧
      limit ≤ now + (left - 1) * p.span.nanos ∧ Lasting p limit allowed (left - 1) r)
    (fun _ r hr => hr.lasting.receipts_le) ?failed ?received ?now ?played
  case failed =>
    intro hopen r cause hr _
    cases left with
    | zero => exact absurd (hr.exhausted rfl) hopen
    | succ left => exact (hr.lasting.receive hlink).receipts_le
  case received =>
    intro hopen r batch hr _
    cases left with
    | zero => exact absurd (hr.exhausted rfl) hopen
    | succ left => exact ⟨Nat.succ_pos left, hr.bounded, hr.lasting.receive hlink⟩
  case now =>
    rintro batch r ⟨hleft, hbounded, hlasting⟩
    obtain ⟨hsteady, hread, htime⟩ := hlink.now r.world hlasting.steady
    exact ⟨hleft, hbounded, Nat.le_trans hlasting.reaches (Nat.add_le_add_right hread _),
      hlasting.add hsteady (Nat.le_trans hread htime) rfl⟩
  case played =>
    rintro batch now w ⟨hleft, hbounded, hnow, hlasting⟩
    refine Meets.mono (Lasting.perform hlink _) (fun result r hr => ?_) w hlasting
    cases result with
    | error e => exact hr.receipts_le
    | ok =>
        refine ⟨left - 1, Nat.sub_one_lt (Nat.ne_of_gt hleft),
          Round.bounded_play hbounded now batch, fun hnone => ?_, hr⟩
        rw [hnone, Nat.zero_mul, Nat.add_zero] at hnow
        exact Round.isOver_play hbounded hnow batch

/-- A query makes no more readings than it takes to get to its limit, and ends. -/
theorem engine_waits (hlink : link.Paced p) {rounds : Nat}
    (hallowed : (c.longestWait q.timeout).nanos ≤ allowed * p.span.nanos)
    (hrounds : allowed < rounds) :
    Meets False (fun r => p.steady r.world ∧ r.uses = #[]) (engine c link.recorded rounds q)
      fun _ r => (Use.receipts r.uses.toList).length ≤ allowed := by
  refine engine_meets link.recorded c q
    (N := fun start => Lasting p (start + (c.longestWait q.timeout).nanos) allowed allowed)
    (M := fun start => Lasting p (start + (c.longestWait q.timeout).nanos) allowed allowed)
    ?refused ?now (fun _ _ _ hr => hr.receipts_le) ?asked (fun _ _ _ hr => hr.receipts_le) ?heard
  case refused =>
    rintro - r ⟨-, hempty⟩
    rw [hempty]
    exact Nat.zero_le _
  case now =>
    rintro ⟨world, uses⟩ ⟨hsteady, rfl⟩
    obtain ⟨hsteady, -, htime⟩ := hlink.now world hsteady
    exact ⟨hsteady, Nat.le_of_eq (Nat.zero_add _), Nat.add_le_add htime hallowed⟩
  case asked =>
    intro first later start limit hexchanges hlimit
    refine Meets.mono (Lasting.perform hlink _) fun result r hr => ?_
    cases result with
    | error e => exact hr.receipts_le
    | ok => exact hr
  case heard =>
    intro htimeout first later start limit hexchanges hlimit w hlasting
    obtain ⟨rfl, -⟩ := Instant.after?_eq_some_iff.mp hlimit
    refine Meets.loop_of_measure (step_waits hlink) hrounds _ w ⟨bounded_begun hlimit,
      fun hnone => ?_, hlasting⟩
    rw [hnone, Nat.zero_mul, Settings.longestWait, Span.nanos_max] at hallowed
    have hzero := Nat.le_zero.mp (Nat.le_trans (Nat.le_max_left ..) hallowed)
    exact absurd (Span.ext hzero) htimeout

theorem le_rounded_mul (wait : Nat) {span : Nat} (hpositive : 0 < span) :
    wait ≤ (wait + span - 1) / span * span := by
  have hdivided := Nat.div_add_mod (wait + span - 1) span
  have hrest := Nat.mod_lt (wait + span - 1) hpositive
  rw [Nat.mul_comm]
  omega

end Queries

/-- A query waits for none of its targets beyond its limit. Whatever its conversations hear, their
deadlines stay at or below it; a sending loop ends with nothing more to send, after no more frames
than there are bytes; a round that has reached the limit ends them all, so that no batch is received
after it; and over a link that keeps a pace the query ends after as many readings of the bus as the
longest wait has spans of that pace, or fewer. -/
theorem waiting_bounded (c : Settings) (q : Query) :
    (∀ first later start limit, q.exchanges = first :: later →
      Instant.after? start (c.longestWait q.timeout) = some limit →
        (∀ s, Conversation.Occurs c q first later start limit s → s.deadline ≤ limit ∧ ∀ now,
          (s.sender.burst (capacity s.target) now).length ≤ s.sender.rest.length ∧
            (s.transmit c q now).1.sender.next? (capacity s.target) now = none) ∧
        ∀ now batch all, (∀ s ∈ all, Conversation.Occurs c q first later start limit s) →
          ∀ s ∈ (Round.play c q now batch all).1,
            Conversation.Occurs c q first later start limit s ∧ (limit ≤ now → s.isOver = true)) ∧
    ∀ (σ : Type) (link : Link σ) (w : Logged σ),
      (∀ rounds result record start rest,
        engine c link.recorded rounds q (Recorded.blank w) = some (result, record) →
          record.world.uses.toList = .read start :: rest →
            Use.QuitAt (start + (c.longestWait q.timeout).nanos) rest) ∧
      ∀ p : Pace σ, link.Paced p → 0 < p.span.nanos → p.steady w.world → ∀ rounds,
        ((c.longestWait q.timeout).nanos + p.span.nanos - 1) / p.span.nanos < rounds →
          ∃ result record,
            engine c link.recorded rounds q (Recorded.blank w) = some (result, record) ∧
            engine c link rounds q w = some (result, Recorded.erase record) ∧
            (Use.receipts record.world.uses.toList).length ≤
              ((c.longestWait q.timeout).nanos + p.span.nanos - 1) / p.span.nanos := by
  refine ⟨fun first later start limit _ hlimit =>
    ⟨fun s hs => ?_, fun now batch all hall s hs => ?_⟩, fun σ link w => ⟨?_, ?_⟩⟩
  · have hbounded := hs.bounded hlimit
    exact ⟨hbounded.deadline_le, fun now =>
      ⟨Sender.length_burstUpTo_le _ _, (hbounded.transmit now).2⟩⟩
  · obtain ⟨heard, hheard, rfl⟩ :=
      Round.play_keeps (fun s now f h => h.heard now f) now batch hall hs
    exact ⟨hheard.ticked now, (hheard.bounded hlimit).isOver_tick⟩
  · intro rounds result record start rest hrun huses
    have hqueried := (engine_records link c q rounds).from_blank hrun
    exact (huses ▸ hqueried).quitAt
  · intro p hlink hpositive hsteady rounds hrounds
    have hallowed := le_rounded_mul (c.longestWait q.timeout).nanos hpositive
    obtain ⟨result, record, hrun, hreceipts⟩ := (engine_waits hlink hallowed hrounds).exists_end
      (w := Recorded.blank w) ⟨hsteady, rfl⟩
    have hplain := engine_mirrors link c q rounds (Recorded.blank w)
    rw [hrun] at hplain
    exact ⟨result, record, hrun, hplain.symm, hreceipts⟩

/-- A unit that keeps asking for more time. -/
def babbling : Simulation.Network where
  latency := { nanos := 10000000 }
  scheduled := (List.range 20).map fun k =>
    (k * 15000000, { address := 0x7D8, bus := 0, data := [0x03, 0x7F, 0x22, 0x78] })

/-- The pace of a network whose readings take ten milliseconds. -/
def tenMillis : Pace Simulation.Network where
  steady n := n.latency = { nanos := 10000000 }
  time := Simulation.Network.clock
  span := { nanos := 10000000 }

theorem paced_tenMillis : Simulation.Network.link.Paced tenMillis where
  now _ hn := ⟨hn, Nat.le_refl _, Nat.le_refl _⟩
  receive n hn := ⟨hn, Nat.le_of_eq (congrArg (n.clock + ·.nanos) hn.symm)⟩
  send frames n hn := by
    obtain ⟨clock, latency, ecus, scheduled, sent, faults, sends⟩ := n
    cases faults with
    | zero => exact ⟨hn, Nat.le_refl _⟩
    | succ faults => exact ⟨hn, Nat.le_refl _⟩

/-- A query for the identification of a vehicle. -/
def identification : Query where
  bus := 0
  targets := [{ address := 0x7D0 }]
  exchanges := [{ request := [0x22, 0xF1, 0x90], expected := [0x62] }]
  timeout := { nanos := 50000000 }

theorem waiting_bounded_babbling :
    ((Conversation.begin { totalMillis := 100 } identification
        { request := [0x22, 0xF1, 0x90], expected := [0x62] } [] 0 100000000
        { address := 0x7D0 }).1.receive { totalMillis := 100 } identification 60000000
        { address := 0x7D8, bus := 0, data := [0x03, 0x7F, 0x22, 0x78] }).1.deadline ≤ 100000000 ∧
    ∃ result record,
      engine { totalMillis := 100 } Simulation.Network.link 11 identification
        { world := babbling } = some (result, Recorded.erase record) ∧
      (Use.receipts record.world.uses.toList).length ≤ 10 := by
  obtain ⟨hlimit, hlinks⟩ := waiting_bounded { totalMillis := 100 } identification
  have hdeadline := (hlimit { request := [0x22, 0xF1, 0x90], expected := [0x62] } [] 0 100000000 rfl
    (by decide)).1 _ ((Conversation.Occurs.begun List.mem_cons_self).heard 60000000
      { address := 0x7D8, bus := 0, data := [0x03, 0x7F, 0x22, 0x78] })
  obtain ⟨result, record, -, hrun, hreceipts⟩ := (hlinks Simulation.Network Simulation.Network.link
    { world := babbling }).2 tenMillis paced_tenMillis (by decide) rfl 11 (by decide)
  exact ⟨hdeadline.1, result, record, hrun, hreceipts⟩

end IsoTp

end EcuQuiet
