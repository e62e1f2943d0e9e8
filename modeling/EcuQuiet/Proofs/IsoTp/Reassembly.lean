import EcuQuiet.Proofs.IsoTp.Following
import EcuQuiet.Proofs.IsoTp.Steps
import Mathlib.Data.List.Induction

/-!
# What a reassembly completes

Whatever frames a receiver is fed, each message that it completes was sent that way: it is the
declared part of a single frame, or it is made up of a first frame and of the consecutive frames
since then, which carry the numbers 1, 2, 3, … modulo 16 without a gap. `Feeds` lists what one frame
can do to a receiver; `Holding` says what a message under assembly has in it, and every frame keeps
it.
-/

namespace EcuQuiet.IsoTp

/-! ### Frames of messages -/

/-- The kind of a frame, in the high half of its first byte. -/
def kind? (frame : Bytes) : Option Nat := frame.head?.map highHalf

/-- Single frames and first frames start a message. -/
def StartsMessage (frame : Bytes) : Prop := kind? frame = some 0 ∨ kind? frame = some 1

/-- The consecutive frames among frames. -/
def parts (frames : List Bytes) : List Bytes := frames.filter (kind? · = some 2)

/-- Consecutive frames with the numbers 1, 2, 3, … modulo 16. -/
def InTurn (frames : List Bytes) : Prop :=
  ∀ (k : Nat) (frame : Bytes), frames[k]? = some frame → frame.head? = some (ofHalves 2 (k + 1))

/-- What a first frame and some consecutive frames hold: the bytes after the two of the length, and
those after the number. -/
def held (first : Bytes) (consecutive : List Bytes) : Bytes :=
  first.drop 2 ++ consecutive.flatMap (·.drop 1)

/-- A single frame with a message in it: the length is in the low half of the first byte or, if that
is zero, in the second byte, and the message follows. -/
inductive Single (message : Bytes) : Bytes → Prop
  | short {head : UInt8} {content : Bytes} (hkind : highHalf head = 0)
      (hlength : lowHalf head = message.length) (hnonempty : message ≠ [])
      (hinside : message <+: content) : Single message (head :: content)
  | long {head length : UInt8} {content : Bytes} (hkind : highHalf head = 0)
      (hescape : lowHalf head = 0) (hlength : length.toNat = message.length)
      (hnonempty : message ≠ []) (hinside : message <+: content) :
      Single message (head :: length :: content)

/-- A first frame that declares a length, which is in twelve bits. -/
def Declares (size : Nat) (first : Bytes) : Prop :=
  ∃ (high low : UInt8) (content : Bytes), first = high :: low :: content ∧ highHalf high = 1 ∧
    lowHalf high * 256 + low.toNat = size

/-- A message in parts: a first frame declares its length, the numbers of the consecutive frames
have no gap, and the message is what the frames hold, up to the declared length. -/
structure Segmented (message first : Bytes) (consecutive : List Bytes) : Prop where
  nonempty : message ≠ []
  length_le : message.length ≤ longestMessage
  declares : Declares message.length first
  inTurn : InTurn consecutive
  content : message = (held first consecutive).take message.length

/-- Whether a message is over: it is complete or given up. -/
def Reception.isEnd : Reception → Bool
  | completed _ | faulty _ => true
  | _ => false

/-- How a message came with the last of some frames: whole in a single frame, or in parts. Of the
latter the first was in the latest frame that started a message, and no message has been over since
then. -/
inductive Came (blockSize : UInt8) (message : Bytes) : List Bytes → Bytes → Prop
  | whole {frames : List Bytes} {last : Bytes} (hsingle : Single message last) :
      Came blockSize message frames last
  | inParts {before between : List Bytes} {first last : Bytes}
      (hlatest : ∀ frame ∈ between, ¬StartsMessage frame)
      (hongoing : ∀ reception ∈ (Receiver.fed { blockSize } before).receptions (first :: between),
        reception.isEnd = false)
      (hlast : kind? last = some 2)
      (hsegmented : Segmented message first (parts (between ++ [last]))) :
      Came blockSize message (before ++ first :: between) last

theorem Single.kind?_eq {message frame : Bytes} (h : Single message frame) :
    kind? frame = some 0 := by
  cases h with
  | short hkind | long hkind => exact congrArg some hkind

theorem Declares.kind?_eq {size : Nat} {first : Bytes} (h : Declares size first) :
    kind? first = some 1 := by
  obtain ⟨high, low, content, rfl, hkind, -⟩ := h
  exact congrArg some hkind

theorem Declares.eq {size size' : Nat} {first : Bytes} (h : Declares size first)
    (h' : Declares size' first) : size = size' := by
  obtain ⟨high, low, content, rfl, -, rfl⟩ := h
  obtain ⟨_, _, _, heq, -, rfl⟩ := h'
  cases heq
  rfl

theorem Declares.le_longestMessage {size : Nat} {first : Bytes} (h : Declares size first) :
    size ≤ longestMessage := by
  obtain ⟨high, low, content, rfl, -, rfl⟩ := h
  have hhigh := lowHalf_lt high
  have hlow := low.toNat_lt
  simp only [longestMessage]
  omega

theorem parts_append (first rest : List Bytes) :
    parts (first ++ rest) = parts first ++ parts rest :=
  List.filter_append ..

theorem parts_of_kind {frame : Bytes} (h : kind? frame = some 2) : parts [frame] = [frame] := by
  simp [parts, h]

theorem parts_of_ne {frame : Bytes} (h : kind? frame ≠ some 2) : parts [frame] = [] := by
  simp [parts, h]

theorem inTurn_append_singleton {frames : List Bytes} {frame : Bytes} :
    InTurn (frames ++ [frame]) ↔
      InTurn frames ∧ frame.head? = some (ofHalves 2 (frames.length + 1)) := by
  constructor
  · intro h
    refine ⟨fun k earlier hearlier => h k earlier ?_, h frames.length frame (by simp)⟩
    obtain ⟨hk, -⟩ := List.getElem?_eq_some_iff.mp hearlier
    rw [List.getElem?_append_left hk, hearlier]
  · rintro ⟨hframes, hframe⟩ k later hlater
    obtain hk | hk := Nat.lt_or_ge k frames.length
    · rw [List.getElem?_append_left hk] at hlater
      exact hframes k later hlater
    · rw [List.getElem?_append_right hk, List.getElem?_singleton] at hlater
      split at hlater
      next hzero =>
        cases hlater
        rw [hframe, Nat.le_antisymm (Nat.le_of_sub_eq_zero hzero) hk]
      next => cases hlater

theorem ofHalves_eq_iff {b : UInt8} {high low : Nat} (hhigh : high < 16) :
    b = ofHalves high low ↔ highHalf b = high ∧ lowHalf b = low % 16 := by
  constructor
  · rintro rfl
    rw [highHalf_ofHalves, lowHalf_ofHalves, Nat.mod_eq_of_lt hhigh]
    exact ⟨rfl, rfl⟩
  · rintro ⟨hb, hb'⟩
    apply UInt8.toNat_inj.mp
    rw [toNat_ofHalves]
    simp only [highHalf, lowHalf] at hb hb'
    omega

/-! ### What a frame does to a receiver -/

namespace Receiver

/-- The ways in which a receiver takes in a frame, with the receiver afterwards and what it made of
the frame. -/
inductive Feeds (r : Receiver) (frame : Bytes) : Receiver → Reception → Prop
  /-- The frame is no part of a message. -/
  | idle {reception : Reception} (hidle : reception.isIdle)
      (hkind : ∀ kind ∈ kind? frame, 3 ≤ kind ∨ kind = 2 ∧ r.assembly = none) :
      Feeds r frame r reception
  | whole {message : Bytes} (hsingle : Single message frame) :
      Feeds r frame r.fresh (.completed message)
  | malformed (hstarts : StartsMessage frame) : Feeds r frame r.fresh (.faulty .length)
  | opened {size : Nat} (hpositive : 0 < size) (hdeclares : Declares size frame) :
      Feeds r frame { r with assembly := some { size, data := (frame.drop 2).take size } }
        .flowControlDue
  | broken {a : Assembly} {got : Nat} (ha : r.assembly = some a) (hkind : kind? frame = some 2)
      (hnumber : frame.head?.map lowHalf = some got) (hother : got ≠ a.sequence) :
      Feeds r frame r.fresh (.faulty (.sequence a.sequence got))
  /-- The last frame of a message. -/
  | last {a : Assembly} {data : Bytes} (ha : r.assembly = some a) (hkind : kind? frame = some 2)
      (hnumber : frame.head?.map lowHalf = some a.sequence)
      (hdata : data = a.data ++ (frame.drop 1).take (a.size - a.data.length))
      (hdone : data.length = a.size) : Feeds r frame r.fresh (.completed data)
  /-- A frame that others follow. -/
  | part {a : Assembly} {data : Bytes} {sinceFlow : Nat} {reception : Reception}
      (ha : r.assembly = some a) (hkind : kind? frame = some 2)
      (hnumber : frame.head?.map lowHalf = some a.sequence)
      (hdata : data = a.data ++ (frame.drop 1).take (a.size - a.data.length))
      (hmore : data.length ≠ a.size) (hend : reception.isEnd = false) :
      Feeds r frame { r with assembly := some { a with
        data, sequence := (a.sequence + 1) % 16, sinceFlow } } reception

theorem feeds_single (r : Receiver) {head : UInt8} (rest : Bytes) (hkind : highHalf head = 0) :
    Feeds r (head :: rest) (r.single (head :: rest)).1 (r.single (head :: rest)).2 := by
  have hstarts : StartsMessage (head :: rest) :=
    .inl (by rw [kind?, List.head?_cons, Option.map_some, hkind])
  have htake : ∀ {size : Nat} {content : Bytes}, 0 < size → size ≤ content.length →
      (content.take size).length = size ∧ content.take size ≠ [] := by
    intro size content hpositive hinside
    have hlength : (content.take size).length = size := by
      rw [List.length_take, Nat.min_eq_left hinside]
    exact ⟨hlength, List.ne_nil_of_length_pos (by rw [hlength]; exact hpositive)⟩
  unfold single
  dsimp only
  by_cases hlow : lowHalf head = 0
  · simp only [hlow, ne_eq, not_true_eq_false, if_false]
    cases rest with
    | nil => exact .malformed hstarts
    | cons size content =>
        dsimp only
        split
        next hinside =>
          obtain ⟨hlength, hnonempty⟩ := htake hinside.1 hinside.2
          exact .whole (.long hkind hlow hlength.symm hnonempty (List.take_prefix ..))
        next => exact .malformed hstarts
  · simp only [hlow, ne_eq, not_false_eq_true, if_true]
    split
    next hinside =>
      obtain ⟨hlength, hnonempty⟩ := htake hinside.1 hinside.2
      exact .whole (.short hkind hlength.symm hnonempty (List.take_prefix ..))
    next => exact .malformed hstarts

theorem feeds_first (r : Receiver) {head : UInt8} (rest : Bytes) (hkind : highHalf head = 1) :
    Feeds r (head :: rest) (r.first (head :: rest)).1 (r.first (head :: rest)).2 := by
  have hstarts : StartsMessage (head :: rest) :=
    .inr (by rw [kind?, List.head?_cons, Option.map_some, hkind])
  unfold first
  split
  next high low byte rest hframe =>
    cases hframe
    dsimp only
    split
    next => exact .malformed hstarts
    next hsize => exact .opened (Nat.pos_of_ne_zero hsize) ⟨_, _, _, rfl, hkind, rfl⟩
  next => exact .malformed hstarts

theorem feeds_consecutive {r : Receiver} {a : Assembly} (ha : r.assembly = some a) {head : UInt8}
    (rest : Bytes) (hkind : highHalf head = 2) :
    Feeds r (head :: rest) (r.consecutive (head :: rest)).1 (r.consecutive (head :: rest)).2 := by
  have hkind : kind? (head :: rest) = some 2 := by
    rw [kind?, List.head?_cons, Option.map_some, hkind]
  unfold consecutive
  rw [ha]
  dsimp only
  split
  next hother => exact .broken ha hkind rfl hother
  next hsame =>
    have hnumber : (head :: rest).head?.map lowHalf = some a.sequence :=
      congrArg some (Decidable.not_not.mp hsame)
    split
    next hdone => exact .last ha hkind hnumber rfl hdone
    next hmore =>
      dsimp only
      split
      · exact .part ha hkind hnumber rfl hmore rfl
      · exact .part ha hkind hnumber rfl hmore rfl

/-- A receiver takes in a frame in one of these ways. -/
theorem feeds (r : Receiver) (frame : Bytes) :
    Feeds r frame (r.feed frame).1 (r.feed frame).2 := by
  cases frame with
  | nil => exact .idle rfl nofun
  | cons head rest =>
      unfold feed
      dsimp only
      split
      next hkind => exact r.feeds_single rest hkind
      next hkind => exact r.feeds_first rest hkind
      next hkind =>
        cases ha : r.assembly with
        | none =>
            rw [consecutive_of_none ha]
            refine .idle rfl fun kind hmem => .inr ⟨?_, ha⟩
            cases hmem
            exact hkind
        | some a => exact feeds_consecutive ha rest hkind
      next hkind =>
        refine .idle rfl fun kind hmem => .inl ?_
        cases hmem
        exact Nat.le_of_eq hkind.symm
      next hsingle hfirst hconsecutive hflow =>
        refine .idle rfl fun kind hmem => .inl ?_
        cases hmem
        have h0 : highHalf head ≠ 0 := hsingle
        have h1 : highHalf head ≠ 1 := hfirst
        have h2 : highHalf head ≠ 2 := hconsecutive
        omega

/-! ### A message under assembly -/

/-- What a message under assembly has in it: all that its first frame and the consecutive frames
since then hold, up to the declared length. -/
structure Holding (a : Assembly) (first : Bytes) (consecutive : List Bytes) : Prop where
  positive : 0 < a.size
  declares : Declares a.size first
  data : a.data = (held first consecutive).take a.size
  sequence : a.sequence = (consecutive.length + 1) % 16
  inTurn : InTurn consecutive

/-- A consecutive frame whose turn it is adds what is still missing. -/
theorem Holding.append {a : Assembly} {first frame : Bytes} {consecutive : List Bytes}
    (h : Holding a first consecutive) (hkind : kind? frame = some 2)
    (hnumber : frame.head?.map lowHalf = some a.sequence) :
    InTurn (consecutive ++ [frame]) ∧
      a.data ++ (frame.drop 1).take (a.size - a.data.length) =
        (held first (consecutive ++ [frame])).take a.size := by
  obtain ⟨head, hhead, hkind⟩ := Option.map_eq_some_iff.mp hkind
  rw [hhead, Option.map_some, Option.some.injEq, h.sequence] at hnumber
  refine ⟨inTurn_append_singleton.mpr ⟨h.inTurn, ?_⟩, ?_⟩
  · rw [hhead, (ofHalves_eq_iff (by decide)).mpr ⟨hkind, hnumber⟩]
  · rw [held, List.flatMap_append, ← List.append_assoc, List.flatMap_singleton, List.take_append,
      ← held, ← h.data]
    -- either side takes nothing once the message is complete
    have hmissing : a.size - a.data.length = a.size - (held first consecutive).length := by
      rw [h.data, List.length_take]
      omega
    rw [hmissing]

variable {r after : Receiver} {first frame : Bytes} {between frames : List Bytes}
  {reception : Reception}

/-- If a receiver has a message under assembly, it is the one of a first frame and of the
consecutive frames among those since then. -/
def Holds (r : Receiver) (first : Bytes) (between : List Bytes) : Prop :=
  ∀ a, r.assembly = some a → Holding a first (parts between)

theorem holds_of_none (h : r.assembly = none) : r.Holds first between := by
  intro a ha
  rw [h] at ha
  cases ha

theorem Feeds.holds_first (h : r.Feeds first after reception) (hfirst : kind? first = some 1) :
    after.Holds first [] := by
  cases h with
  | idle hidle hkind =>
      obtain h | ⟨h, -⟩ := hkind 1 hfirst
      · omega
      · omega
  | whole | malformed | broken | last => exact holds_of_none rfl
  | opened hpositive hdeclares =>
      intro a ha
      cases ha
      refine ⟨hpositive, hdeclares, ?_, rfl, nofun⟩
      rw [held]
      exact congrArg _ (List.append_nil _).symm
  | part ha hkind =>
      rw [hfirst] at hkind
      cases hkind

/-- A frame that starts no message adds to the one under assembly or ends it. -/
theorem Feeds.holds (h : r.Feeds frame after reception) (hbefore : r.Holds first between)
    (hframe : ¬StartsMessage frame) : after.Holds first (between ++ [frame]) := by
  cases h with
  | idle hidle hkind =>
      intro a ha
      have hother : kind? frame ≠ some 2 := by
        intro hframe
        obtain h | ⟨-, hnone⟩ := hkind 2 hframe
        · omega
        · rw [hnone] at ha
          cases ha
      rw [parts_append, parts_of_ne hother, List.append_nil]
      exact hbefore a ha
  | whole | malformed | broken | last => exact holds_of_none rfl
  | opened _ hdeclares => exact absurd (.inr hdeclares.kind?_eq) hframe
  | part ha hkind hnumber hdata =>
      obtain ⟨hturn, hheld⟩ := (hbefore _ ha).append hkind hnumber
      intro a' ha'
      cases ha'
      rw [parts_append, parts_of_kind hkind]
      refine ⟨(hbefore _ ha).positive, (hbefore _ ha).declares, hdata.trans hheld, ?_, hturn⟩
      rw [List.length_append, (hbefore _ ha).sequence, Nat.mod_add_mod]
      rfl

/-- Whatever follows a first frame, until another message starts there is none under assembly but
its own. -/
theorem holds_fed (r : Receiver) (hfirst : kind? first = some 1)
    (hbetween : ∀ frame ∈ between, ¬StartsMessage frame) :
    (r.fed (first :: between)).Holds first between := by
  induction between using List.reverseRecOn with
  | nil => exact (r.feeds first).holds_first hfirst
  | append_singleton between frame ih =>
      rw [← List.cons_append, fed_append]
      refine (feeds _ frame).holds (ih fun earlier hmem => ?_) ?_
      · exact hbetween earlier (List.mem_append_left _ hmem)
      · exact hbetween frame (List.mem_append_right _ List.mem_cons_self)

/-! ### The time of a message -/

/-- Without a message under assembly, only a frame that starts one is of any consequence. -/
theorem Feeds.of_none (h : r.Feeds frame after reception) (hnone : r.assembly = none)
    (hframe : ¬StartsMessage frame) : after = r ∧ reception.isIdle := by
  cases h with
  | idle hidle => exact ⟨rfl, hidle⟩
  | whole hsingle => exact absurd (.inl hsingle.kind?_eq) hframe
  | malformed hstarts => exact absurd hstarts hframe
  | opened _ hdeclares => exact absurd (.inr hdeclares.kind?_eq) hframe
  | broken ha | last ha | part ha =>
      rw [hnone] at ha
      cases ha

/-- The end of a message leaves none under assembly. -/
theorem Feeds.assembly_of_isEnd (h : r.Feeds frame after reception) (hend : reception.isEnd) :
    after.assembly = none := by
  cases h with
  | idle hidle => cases reception <;> simp [Reception.isIdle, Reception.isEnd] at hidle hend
  | whole | malformed | broken | last => rfl
  | opened => cases hend
  | part ha hkind hnumber hdata hmore hgoes =>
      rw [hgoes] at hend
      cases hend

/-- A message that has started is under assembly until its end. -/
theorem Feeds.assembly_of_ongoing (h : r.Feeds frame after reception)
    (hbefore : r.assembly ≠ none ∨ kind? frame = some 1) (hongoing : reception.isEnd = false) :
    after.assembly ≠ none := by
  cases h with
  | idle hidle hkind =>
      obtain hbefore | hframe := hbefore
      · exact hbefore
      · obtain h | ⟨h, -⟩ := hkind 1 hframe
        · omega
        · omega
  | whole | malformed | broken | last => cases hongoing
  | opened | part => exact Option.some_ne_none _

theorem assembly_of_ongoing (hfirst : kind? first = some 1)
    (hongoing : ∀ reception ∈ r.receptions (first :: between), reception.isEnd = false) :
    (r.fed (first :: between)).assembly ≠ none := by
  induction between using List.reverseRecOn with
  | nil =>
      exact (r.feeds first).assembly_of_ongoing (.inr hfirst)
        (hongoing _ List.mem_cons_self)
  | append_singleton between frame ih =>
      rw [← List.cons_append, receptions_append] at hongoing
      rw [← List.cons_append, fed_append]
      have hbefore := ih fun reception hmem => hongoing reception (List.mem_append_left _ hmem)
      exact (feeds _ frame).assembly_of_ongoing (.inl hbefore)
        (hongoing _ (List.mem_append_right _ List.mem_cons_self))

/-- A single frame leaves no message under assembly. -/
theorem Feeds.assembly_of_single (h : r.Feeds frame after reception)
    (hframe : kind? frame = some 0) : after.assembly = none := by
  cases h with
  | idle hidle hkind =>
      obtain h | ⟨h, -⟩ := hkind 0 hframe
      · omega
      · omega
  | whole | malformed | broken | last => rfl
  | opened _ hdeclares =>
      rw [hdeclares.kind?_eq] at hframe
      cases hframe
  | part ha hkind =>
      rw [hframe] at hkind
      cases hkind

/-- A message under assembly began with a first frame; since then no message has started, and none
has been over. -/
theorem begun {blockSize : UInt8}
    (h : (Receiver.fed { blockSize } frames).assembly ≠ none) :
    ∃ before first between, frames = before ++ first :: between ∧ kind? first = some 1 ∧
      (∀ frame ∈ between, ¬StartsMessage frame) ∧
      ∀ reception ∈ (Receiver.fed { blockSize } before).receptions (first :: between),
        reception.isEnd = false := by
  induction frames using List.reverseRecOn with
  | nil => exact absurd rfl h
  | append_singleton frames frame ih =>
      rw [fed_append] at h
      have hfeeds := (Receiver.fed { blockSize } frames).feeds frame
      have hongoing : ((Receiver.fed { blockSize } frames).feed frame).2.isEnd = false := by
        by_contra hend
        exact h (hfeeds.assembly_of_isEnd (Bool.not_eq_false _ ▸ hend))
      by_cases hfirst : kind? frame = some 1
      · refine ⟨frames, frame, [], rfl, hfirst, nofun, ?_⟩
        intro reception hmem
        rw [List.mem_singleton.mp hmem]
        exact hongoing
      · have hframe : ¬StartsMessage frame := by
          rintro (hsingle | hfirst')
          · exact h (hfeeds.assembly_of_single hsingle)
          · exact hfirst hfirst'
        have hbefore : (Receiver.fed { blockSize } frames).assembly ≠ none := by
          intro hnone
          exact h ((congrArg assembly (hfeeds.of_none hnone hframe).1).trans hnone)
        obtain ⟨before, first, between, rfl, hkind, hlatest, hearlier⟩ := ih hbefore
        refine ⟨before, first, between ++ [frame], ?_, hkind, ?_, ?_⟩
        · rw [List.append_assoc, List.cons_append]
        · intro later hmem
          obtain hmem | hmem := List.mem_append.mp hmem
          · exact hlatest later hmem
          · rw [List.mem_singleton.mp hmem]
            exact hframe
        · intro reception hmem
          rw [← List.cons_append, receptions_append] at hmem
          obtain hmem | hmem := List.mem_append.mp hmem
          · exact hearlier reception hmem
          · rw [List.mem_singleton.mp hmem, ← fed_append]
            exact hongoing

/-! ### Completed messages -/

theorem feed_of_single (r : Receiver) {message : Bytes} (h : Single message frame) :
    (r.feed frame).2 = .completed message := by
  cases h with
  | short hkind hlength hnonempty hinside =>
      have hpositive := List.length_pos_iff.mpr hnonempty
      simp only [feed, hkind, single, hlength, Nat.ne_of_gt hpositive, ne_eq, not_false_eq_true,
        if_true, hpositive, hinside.length_le, and_self, ← List.prefix_iff_eq_take.mp hinside]
  | long hkind hescape hlength hnonempty hinside =>
      have hpositive := List.length_pos_iff.mpr hnonempty
      simp only [feed, hkind, single, hescape, hlength, ne_eq, not_true_eq_false, if_false,
        hpositive, hinside.length_le, and_self, if_true, ← List.prefix_iff_eq_take.mp hinside]

/-- What no message under assembly can lead to. -/
theorem completed_not_mem_of_none (hnone : r.assembly = none)
    (hframes : ∀ frame ∈ frames, ¬StartsMessage frame) (message : Bytes) :
    .completed message ∉ r.receptions frames := by
  induction frames with
  | nil => exact List.not_mem_nil
  | cons frame frames ih =>
      obtain ⟨hafter, hidle⟩ := (r.feeds frame).of_none hnone (hframes frame List.mem_cons_self)
      rw [receptions, hafter, List.mem_cons, not_or]
      refine ⟨?_, ih fun later hmem => hframes later (List.mem_cons_of_mem _ hmem)⟩
      intro heq
      rw [← heq] at hidle
      cases hidle

/-- A consecutive frame whose number is not the one that is due ends the message for good. -/
theorem Holds.completed_not_mem (h : r.Holds first between) {next : Bytes}
    {rest : List Bytes} (hkind : kind? next = some 2)
    (hnumber : next.head?.map lowHalf ≠ some (((parts between).length + 1) % 16))
    (hrest : ∀ frame ∈ rest, ¬StartsMessage frame) (message : Bytes) :
    .completed message ∉ r.receptions (next :: rest) := by
  have hnext : ¬StartsMessage next := by
    rintro (h | h) <;> rw [hkind] at h <;> cases h
  cases ha : r.assembly with
  | none =>
      refine completed_not_mem_of_none ha (fun frame hmem => ?_) message
      obtain rfl | hmem := List.mem_cons.mp hmem
      · exact hnext
      · exact hrest frame hmem
  | some a =>
      have hbroken : (r.feed next).1.assembly = none ∧
          (r.feed next).2 ≠ .completed message := by
        have hfeeds := r.feeds next
        generalize r.feed next = fed at hfeeds
        obtain ⟨after, reception⟩ := fed
        cases hfeeds with
        | idle hidle hother =>
            obtain h | ⟨-, hnone⟩ := hother 2 hkind
            · omega
            · rw [ha] at hnone
              cases hnone
        | whole hsingle => exact absurd (.inl hsingle.kind?_eq) hnext
        | malformed | broken => exact ⟨rfl, nofun⟩
        | opened _ hdeclares => exact absurd (.inr hdeclares.kind?_eq) hnext
        | last ha hkind hsame | part ha hkind hsame =>
            rw [hsame, (h _ ha).sequence] at hnumber
            exact absurd rfl hnumber
      rw [receptions, List.mem_cons, not_or]
      exact ⟨fun heq => hbroken.2 heq.symm, completed_not_mem_of_none hbroken.1 hrest message⟩

/-- The last part of a message completes it. -/
theorem Holds.completed (h : r.Holds first between) (hassembly : r.assembly ≠ none)
    {message last : Bytes} (hlast : kind? last = some 2)
    (hsegmented : Segmented message first (parts (between ++ [last]))) :
    (r.feed last).2 = .completed message := by
  obtain ⟨a, ha⟩ := Option.ne_none_iff_exists'.mp hassembly
  have hholding := h a ha
  obtain ⟨-, -, hdeclares, hturn, hcontent⟩ := hsegmented
  rw [parts_append, parts_of_kind hlast] at hturn hcontent
  have hnumber : last.head?.map lowHalf = some a.sequence := by
    rw [(inTurn_append_singleton.mp hturn).2, Option.map_some, lowHalf_ofHalves, hholding.sequence]
  have hdata : a.data ++ (last.drop 1).take (a.size - a.data.length) = message := by
    rw [(hholding.append hlast hnumber).2, hholding.declares.eq hdeclares]
    exact hcontent.symm
  have hfeeds := r.feeds last
  generalize r.feed last = fed at hfeeds
  obtain ⟨after, reception⟩ := fed
  cases hfeeds with
  | idle hidle hother =>
      obtain h | ⟨-, hnone⟩ := hother 2 hlast
      · omega
      · exact absurd hnone hassembly
  | whole hsingle =>
      rw [hsingle.kind?_eq] at hlast
      cases hlast
  | malformed hstarts =>
      rw [StartsMessage, hlast] at hstarts
      obtain h | h := hstarts <;> cases h
  | opened _ hdeclares =>
      rw [hdeclares.kind?_eq] at hlast
      cases hlast
  | broken ha' _ hgot hother =>
      rw [ha] at ha'
      cases ha'
      rw [hnumber] at hgot
      exact absurd (Option.some.inj hgot).symm hother
  | last ha' _ _ hdata' =>
      rw [ha] at ha'
      cases ha'
      rw [hdata', hdata]
  | part ha' _ _ hdata' hmore =>
      rw [ha] at ha'
      cases ha'
      rw [hdata', hdata, hholding.declares.eq hdeclares] at hmore
      exact absurd rfl hmore

/-- A consecutive frame that completes a message is the last part of it. -/
theorem Holds.segmented (h : r.Holds first between) {message last : Bytes} {a : Assembly}
    (ha : r.assembly = some a) (hlast : kind? last = some 2)
    (hnumber : last.head?.map lowHalf = some a.sequence)
    (hmessage : message = a.data ++ (last.drop 1).take (a.size - a.data.length))
    (hdone : message.length = a.size) : Segmented message first (parts (between ++ [last])) := by
  have hholding := h a ha
  obtain ⟨hturn, hheld⟩ := hholding.append hlast hnumber
  rw [parts_append, parts_of_kind hlast]
  refine ⟨?_, ?_, ?_, hturn, ?_⟩
  · exact List.ne_nil_of_length_pos (hdone ▸ hholding.positive)
  · exact hdone ▸ hholding.declares.le_longestMessage
  · exact hdone ▸ hholding.declares
  · rw [hdone, ← hheld, ← hmessage]

end Receiver

/-- A loss on the way of a message: of the consecutive frames after its first frame, which are
numbered in turn, some are missing before the next one arrives, though fewer than it takes for the
numbers to come round. -/
structure Loss (first : Bytes) (between missing : List Bytes) (next : Bytes) : Prop where
  first : kind? first = some 1
  latest : ∀ frame ∈ between, ¬StartsMessage frame
  inTurn : InTurn (parts between ++ missing ++ [next])
  positive : 1 ≤ missing.length
  few : missing.length ≤ 15

/-- A message that a receiver completes has come with the frames it was fed. -/
theorem came_of_completed {blockSize : UInt8} {frames : List Bytes} {message last : Bytes}
    (hcompleted : ((Receiver.fed { blockSize } frames).feed last).2 = .completed message) :
    Came blockSize message frames last := by
  have hfeeds := (Receiver.fed { blockSize } frames).feeds last
  rw [hcompleted] at hfeeds
  generalize ((Receiver.fed { blockSize } frames).feed last).1 = after at hfeeds
  cases hfeeds with
  | idle hidle => cases hidle
  | whole hsingle => exact .whole hsingle
  | part _ _ _ _ _ hend => cases hend
  | last ha hkind hnumber hdata hdone =>
      have hassembly := ha ▸ Option.some_ne_none _
      obtain ⟨before, first, between, rfl, hfirst, hlatest, hongoing⟩ := Receiver.begun hassembly
      have hholds := (Receiver.fed { blockSize } before).holds_fed hfirst hlatest
      rw [← Receiver.fed_append] at hholds
      exact .inParts hlatest hongoing hkind (hholds.segmented ha hkind hnumber hdata hdone)

/-- A receiver completes the message that has come. -/
theorem Came.completed {blockSize : UInt8} {frames : List Bytes} {message last : Bytes}
    (h : Came blockSize message frames last) :
    ((Receiver.fed { blockSize } frames).feed last).2 = .completed message := by
  cases h with
  | whole hsingle => exact Receiver.feed_of_single _ hsingle
  | @inParts before between first _ hlatest hongoing hlast hsegmented =>
      have hfirst := hsegmented.declares.kind?_eq
      have hholds := (Receiver.fed { blockSize } before).holds_fed hfirst hlatest
      have hassembly := Receiver.assembly_of_ongoing hfirst hongoing
      rw [Receiver.fed_append]
      exact hholds.completed hassembly hlast hsegmented

/-- The frame after a loss is a consecutive frame whose number is not the one that is due. -/
theorem Loss.next {first : Bytes} {between missing : List Bytes} {next : Bytes}
    (h : Loss first between missing next) :
    kind? next = some 2 ∧
      next.head?.map lowHalf ≠ some (((parts between).length + 1) % 16) := by
  have hnext := (inTurn_append_singleton.mp h.inTurn).2
  rw [kind?, hnext, Option.map_some, Option.map_some, highHalf_ofHalves, lowHalf_ofHalves,
    List.length_append]
  refine ⟨rfl, fun hsame => ?_⟩
  have hpositive := h.positive
  have hfew := h.few
  have hsame := Option.some.inj hsame
  omega

/-- Reassembly never invents data. Whatever frames it has been fed, a receiver completes a message
with a frame exactly if the message came with that frame, and after a loss it completes no message
until another one starts. -/
theorem completed_iff_came (blockSize : UInt8) :
    (∀ (frames : List Bytes) (last message : Bytes),
      ((Receiver.fed { blockSize } frames).feed last).2 = .completed message ↔
        Came blockSize message frames last) ∧
    ∀ (before : List Bytes) (first : Bytes) (between missing : List Bytes) (next : Bytes)
      (rest : List Bytes), Loss first between missing next →
      (∀ frame ∈ rest, ¬StartsMessage frame) → ∀ message : Bytes,
        .completed message ∉
          (Receiver.fed { blockSize } (before ++ first :: between)).receptions (next :: rest) := by
  refine ⟨fun frames last message => ⟨came_of_completed, Came.completed⟩, ?_⟩
  intro before first between missing next rest hloss hrest message
  have hholds := (Receiver.fed { blockSize } before).holds_fed hloss.first hloss.latest
  obtain ⟨hkind, hnumber⟩ := hloss.next
  rw [Receiver.fed_append]
  exact hholds.completed_not_mem hkind hnumber hrest message

/-- A message of fourteen bytes in three frames, and the same frames without the second. -/
theorem completed_iff_came_fourteen :
    Came 0 [1, 2, 3, 4, 5, 6, 7, 8, 9, 10, 11, 12, 13, 14]
        [[0x10, 14, 1, 2, 3, 4, 5, 6], [0x21, 7, 8, 9, 10, 11, 12, 13]] [0x22, 14] ∧
      ∀ message : Bytes, .completed message ∉
        (Receiver.fed { blockSize := 0 } [[0x10, 14, 1, 2, 3, 4, 5, 6]]).receptions
          [[0x22, 14]] := by
  refine ⟨((completed_iff_came 0).1 _ _ _).mp (by decide), ?_⟩
  have hturn : InTurn [[0x21, 7, 8, 9, 10, 11, 12, 13], [0x22, 14]] :=
    (@inTurn_append_singleton [_] _).mpr
      ⟨(@inTurn_append_singleton [] _).mpr ⟨nofun, by decide⟩, by decide⟩
  exact (completed_iff_came 0).2 [] _ [] [[0x21, 7, 8, 9, 10, 11, 12, 13]] _ []
    ⟨by decide, nofun, hturn, by decide, by decide⟩ nofun

end EcuQuiet.IsoTp
