import EcuQuiet.Proofs.IsoTp.Queries
import EcuQuiet.Scripted.Playback
import Mathlib.Data.List.Basic

/-!
# What a query refuses

A query refuses arguments that it cannot work with, and it does so before it uses the interface:
nothing is sent, nothing is received, and at most the clock has been read. Whatever else goes wrong
on the way is either found out about one target, whose answer it is then, or it is a failure of the
interface, and the use that failed is the last one the query makes.
-/

namespace EcuQuiet

theorem Instant.after?_eq_none_iff {now : Instant} {wait : Span} :
    after? now wait = none ↔ latest < now + wait.nanos := by
  simp [after?]

/-- The failure that a use of the interface met with. -/
def Use.failure? : Use → Option BusError
  | received (.error cause) | sent _ (.error cause) => some cause
  | _ => none

namespace IsoTp

open Run

/-! ### Arguments -/

/-- Arguments with which a query that begins at `start` cannot work: there is nothing to ask, a
request that the transport cannot carry, or a limit that no clock can show. -/
def Refused (c : Settings) (q : Query) (start : Instant) : Prop :=
  q.exchanges = [] ∨
    (∃ e ∈ q.exchanges, e.request.length = 0 ∨ longestMessage < e.request.length) ∨
    Instant.latest < start + max q.timeout.nanos (c.totalMillis.toNat * 1000000)

theorem isSendable_eq_false_iff {q : Query} : isSendable q = false ↔
    ∃ e ∈ q.exchanges, e.request.length = 0 ∨ longestMessage < e.request.length := by
  simp only [isSendable, List.all_eq_false, Bool.and_eq_true, decide_eq_true_eq, not_and_or,
    Nat.not_le, Nat.lt_one_iff]

theorem after?_longestWait_eq_none_iff {c : Settings} {q : Query} {start : Instant} :
    Instant.after? start (c.longestWait q.timeout) = none ↔
      Instant.latest < start + max q.timeout.nanos (c.totalMillis.toNat * 1000000) := by
  rw [Instant.after?_eq_none_iff, Settings.longestWait, Span.nanos_max]
  rfl

/-! ### Refusing -/

section

variable {σ : Type} (c : Settings) (link : Link σ) (q : Query) (rounds : Nat) (w : Logged σ)

/-- The world when a refusal comes: untouched, or as reading the clock has left it. -/
theorem engine_of_refused (h : Refused c q (link.now w.world).1) :
    ∃ after, engine c link rounds q w = some (.error .invalidParameter, after) ∧
      (after.world = w.world ∨ after.world = (link.now w.world).2) := by
  unfold engine
  cases hexchanges : q.exchanges with
  | nil => exact ⟨w, rfl, .inl rfl⟩
  | cons first later =>
      dsimp only
      by_cases hsendable : isSendable q = true
      · have hrange : Instant.after? (link.now w.world).1 (c.longestWait q.timeout) = none := by
          rcases h with hnone | hunsendable | hrange
          · rw [hexchanges] at hnone
            cases hnone
          · rw [isSendable_eq_false_iff.mpr hunsendable] at hsendable
            cases hsendable
          · exact after?_longestWait_eq_none_iff.mpr hrange
        rw [hsendable, Bool.not_true, if_neg Bool.false_ne_true]
        simp only [bind_apply, Link.clock, hrange]
        exact ⟨_, rfl, .inr rfl⟩
      · rw [Bool.eq_false_iff.mpr hsendable]
        exact ⟨w, rfl, .inl rfl⟩

variable {c link q rounds w}

/-- However such a query ends, it ends with this refusal. -/
theorem ends_of_refused {result : Except DiagnosticError Answers} {after : Logged σ}
    (h : Refused c q (link.now w.world).1)
    (hrun : engine c link rounds q w = some (result, after)) :
    result = .error .invalidParameter ∧
      (after.world = w.world ∨ after.world = (link.now w.world).2) := by
  obtain ⟨refusal, hrefusal, hworld⟩ := engine_of_refused c link q rounds w h
  rw [hrun] at hrefusal
  cases hrefusal
  exact ⟨rfl, hworld⟩

end

/-! ### Going on -/

/-- What a failing run leaves on the record: the cause, and last the use that met with it. -/
def Broken {σ : Type} (reason : DiagnosticError) (r : Recorded σ) : Prop :=
  ∃ cause before use, reason = .bus cause ∧ r.uses.toList = before ++ [use] ∧
    use.failure? = some cause

section

variable {σ : Type} {link : Link σ} {P : Recorded σ → Prop}

theorem Broken.receive {r : Recorded σ} {cause : BusError}
    (h : (link.recorded.receive r).result = .error cause) :
    Broken (.bus cause) (link.recorded.receive r).world := by
  refine ⟨cause, r.uses.toList, .received (.error cause), rfl, ?_, rfl⟩
  rw [← h]
  exact Array.toList_push

theorem Broken.send {r : Recorded σ} {frames : List Frame} {cause : BusError}
    (h : (link.recorded.send frames r).result = .error cause) :
    Broken (.bus cause) (link.recorded.send frames r).world := by
  refine ⟨cause, r.uses.toList, .sent frames (.error cause), rfl, ?_, rfl⟩
  rw [← h]
  exact Array.toList_push

/-- A run that fails only with the interface. -/
def BreaksOnly {α : Type} (result : Except DiagnosticError α) (r : Recorded σ) : Prop :=
  ∀ reason, result = .error reason → Broken reason r

theorem breaksOnly_ok {α : Type} (a : α) (r : Recorded σ) : BreaksOnly (.ok a) r := nofun

theorem BreaksOnly.of_broken {α : Type} {reason : DiagnosticError} {r : Recorded σ}
    (h : Broken reason r) : BreaksOnly (.error reason : Except DiagnosticError α) r := by
  rintro _ ⟨⟩
  exact h

theorem perform_breaks (outputs : List Output) :
    Meets True P (Output.perform link.recorded outputs) BreaksOnly := by
  induction outputs generalizing P with
  | nil => exact Meets.pure _ fun r _ => breaksOnly_ok () r
  | cons output rest ih =>
      cases output with
      | note event => exact Meets.note_bind event ih
      | send frame =>
          apply link.recorded.meets_transmit_bind (R := fun _ => True)
          · intro r cause _ hfailed
            exact .of_broken (.send hfailed)
          · intros
            trivial
          · exact ih

theorem step_breaks (c : Settings) (q : Query) (all : List Conversation) :
    Meets True (fun _ => True) (step c q link.recorded all)
      (Continues (fun _ _ => True) BreaksOnly) := by
  apply step_meets (R := fun _ _ => True) (S := fun _ _ _ => True)
  · intro _ r _
    exact breaksOnly_ok _ r
  · intro _ r cause _ hfailed
    exact .of_broken (.receive hfailed)
  · intros
    trivial
  · intros
    trivial
  · intro batch now
    refine (perform_breaks _).mono fun result r hbreaks => ?_
    cases result with
    | error reason => exact .of_broken (hbreaks reason rfl)
    | ok => trivial

/-- A query that does not refuse its arguments fails only with the interface. -/
theorem engine_breaks (c : Settings) (q : Query) (rounds : Nat) {world : σ}
    (h : ¬ Refused c q (link.now world).1) :
    Meets True (· = { world }) (engine c link.recorded rounds q) BreaksOnly := by
  simp only [Refused, not_or] at h
  obtain ⟨hexchanges, hsendable, hrange⟩ := h
  apply engine_meets (N := fun start _ => start = (link.now world).1) (M := fun _ _ => True)
  · rintro (hnone | hunsendable)
    · exact absurd hnone hexchanges
    · exact absurd (isSendable_eq_false_iff.mp hunsendable) hsendable
  · rintro _ rfl
    rfl
  · rintro start hnone r rfl
    exact absurd (after?_longestWait_eq_none_iff.mp hnone) hrange
  · intro first later start limit _ _
    refine (perform_breaks _).mono fun result r hbreaks => ?_
    cases result with
    | error reason => exact .of_broken (hbreaks reason rfl)
    | ok => trivial
  · intro _ start r _
    exact breaksOnly_ok _ r
  · intro _ first later start limit _ _
    exact Meets.loop (fun all => step_breaks c q all) rounds _

/-- An error with which such a query ends is one of the interface. -/
theorem broken_of_run {c : Settings} {q : Query} {rounds : Nat} {w : Logged σ}
    {reason : DiagnosticError} {record : Logged (Recorded σ)}
    (h : ¬ Refused c q (link.now w.world).1)
    (hrun : engine c link.recorded rounds q (Recorded.blank w) = some (.error reason, record)) :
    Broken reason record.world :=
  (engine_breaks c q rounds h).post (w := Recorded.blank w) rfl hrun reason rfl

theorem refused_of_run {c : Settings} {q : Query} {rounds : Nat} {w : Logged σ}
    {record : Logged (Recorded σ)}
    (hrun : engine c link.recorded rounds q (Recorded.blank w) =
      some (.error .invalidParameter, record)) : Refused c q (link.now w.world).1 := by
  by_contra hworks
  -- the run would have failed with the interface, which is no refusal
  obtain ⟨cause, -, -, hcause, -⟩ := broken_of_run hworks hrun
  cases hcause

end

/-- A query refuses exactly the arguments that it cannot work with. When it does, it has sent and
received nothing, and the record shows at most that it read the clock; and every other error with
which a query ends is a failure of the interface that its last use has met with. -/
theorem refuses_exactly {σ : Type} (c : Settings) (link : Link σ) (q : Query) (rounds : Nat)
    (w : Logged σ) :
    ((∃ after, engine c link rounds q w = some (.error .invalidParameter, after)) ↔
      Refused c q (link.now w.world).1) ∧
    ∀ reason after, engine c link rounds q w = some (.error reason, after) →
      ∃ record, engine c link.recorded rounds q (Recorded.blank w) = some (.error reason, record) ∧
        Recorded.erase record = after ∧
        (reason = .invalidParameter → record.world = { world := w.world } ∨
          record.world =
            { world := (link.now w.world).2, uses := #[.read (link.now w.world).1] }) ∧
        (reason ≠ .invalidParameter → Broken reason record.world) := by
  have hrecord : ∀ reason after, engine c link rounds q w = some (.error reason, after) →
      ∃ record, engine c link.recorded rounds q (Recorded.blank w) = some (.error reason, record) ∧
        Recorded.erase record = after := by
    intro reason after hrun
    have hmirror := engine_mirrors link c q rounds (Recorded.blank w)
    rw [Recorded.erase_blank, hrun] at hmirror
    obtain ⟨⟨result, record⟩, hrecorded, hend⟩ := Option.map_eq_some_iff.mp hmirror
    cases hend
    exact ⟨record, hrecorded, rfl⟩
  have hiff : (∃ after, engine c link rounds q w = some (.error .invalidParameter, after)) ↔
      Refused c q (link.now w.world).1 := by
    constructor
    · rintro ⟨after, hrun⟩
      obtain ⟨record, hrecorded, -⟩ := hrecord _ _ hrun
      exact refused_of_run hrecorded
    · intro hrefused
      obtain ⟨after, hrun, -⟩ := engine_of_refused c link q rounds w hrefused
      exact ⟨after, hrun⟩
  refine ⟨hiff, fun reason after hrun => ?_⟩
  obtain ⟨record, hrecorded, herased⟩ := hrecord _ _ hrun
  refine ⟨record, hrecorded, herased, ?_, fun hother => ?_⟩
  · rintro rfl
    have hrefused : Refused c q (link.recorded.now (Recorded.blank w).world).1 :=
      hiff.mp ⟨after, hrun⟩
    exact (ends_of_refused hrefused hrecorded).2
  · exact broken_of_run (fun hrefused => hother <|
      Except.error.inj (ends_of_refused hrefused hrun).1) hrecorded

/-- A chain of three requests, the last of which is empty. -/
def emptyAtLast : Query where
  bus := 0
  targets := [{ address := 0x7D0 }]
  exchanges :=
    [{ request := [0x10, 0x03], expected := [0x50, 0x03] },
      { request := [0x3E, 0x00], expected := [0x7E, 0x00] },
      { request := [], expected := [] }]
  timeout := .ofMillis 100

/-- A bus that is closed when its first batch is read. -/
def closing : Scripted.Playback where
  readings := [{ takes := .ofMillis 10, result := .error .notOpen }]

theorem refuses_exactly_emptyAtLast :
    Refused {} emptyAtLast 0 ∧
    (∃ after, engine {} Scripted.Playback.link 5 emptyAtLast { world := closing } =
      some (.error .invalidParameter, after)) ∧
    ∃ record, engine {} Scripted.Playback.link.recorded 5
        { emptyAtLast with exchanges := emptyAtLast.exchanges.take 2 }
        (Recorded.blank { world := closing }) = some (.error (.bus .notOpen), record) ∧
      Broken (.bus .notOpen) record.world := by
  have hrefused : Refused {} emptyAtLast 0 := by
    refine .inr (.inl ⟨{ request := [], expected := [] }, ?_, .inl rfl⟩)
    simp [emptyAtLast]
  have hclosed : ((engine {} Scripted.Playback.link 5
      { emptyAtLast with exchanges := emptyAtLast.exchanges.take 2 } { world := closing }).map
        fun (result, _) => result.map fun _ => ()) = some (.error (.bus .notOpen)) := by
    decide +kernel
  obtain ⟨⟨result, after⟩, hrun, hresult⟩ := Option.map_eq_some_iff.mp hclosed
  cases result with
  | ok => cases hresult
  | error reason =>
      cases hresult
      obtain ⟨record, hrecorded, -, -, hbroken⟩ := (refuses_exactly {} Scripted.Playback.link
        { emptyAtLast with exchanges := emptyAtLast.exchanges.take 2 } 5
        { world := closing }).2 _ _ hrun
      exact ⟨hrefused, (refuses_exactly {} Scripted.Playback.link emptyAtLast 5
        { world := closing }).1.mpr hrefused, record, hrecorded, hbroken nofun⟩

end IsoTp

end EcuQuiet
