import EcuQuiet.Bus.Recorded

/-!
# What a record says about a run

A record is taken beside a run without changing it: a recorded run mirrors the one it is made of.
What a run has added to the record by its end is described by a predicate on its result and its
uses, put together along the run from those of its parts.
-/

namespace EcuQuiet

variable {σ α β : Type}

namespace Recorded

/-- The state without its record. -/
def erase (w : Logged (Recorded σ)) : Logged σ :=
  { world := w.world.world, notes := w.notes }

/-- The same state with an empty record. -/
def blank (w : Logged σ) : Logged (Recorded σ) :=
  { world := { world := w.world }, notes := w.notes }

theorem erase_blank (w : Logged σ) : erase (blank w) = w := rfl

end Recorded

namespace Use

/-- The queries among some uses. -/
def queries (uses : List Use) : List Query :=
  uses.filterMap fun
    | .asked q => some q
    | _ => none

theorem queries_append (first rest : List Use) :
    queries (first ++ rest) = queries first ++ queries rest :=
  List.filterMap_append

/-- The frames that were given to the link, whether it could send them or not. -/
def frames (uses : List Use) : List Frame :=
  uses.flatMap fun
    | .sent frames _ => frames
    | _ => []

theorem frames_append (first rest : List Use) :
    frames (first ++ rest) = frames first ++ frames rest :=
  List.flatMap_append

/-- The frames that were received. -/
def heard (uses : List Use) : List Frame :=
  uses.flatMap fun
    | .received (.ok batch) => batch
    | _ => []

theorem heard_append (first rest : List Use) :
    heard (first ++ rest) = heard first ++ heard rest :=
  List.flatMap_append

/-- A use that neither sends anything nor asks anything of an engine. -/
def Passive : Use → Prop
  | read _ | slept _ | received _ => True
  | _ => False

theorem queries_eq_nil {uses : List Use} (h : ∀ use ∈ uses, use.Passive) : queries uses = [] := by
  rw [queries, List.filterMap_eq_nil_iff]
  intro use huse
  have hpassive := h use huse
  cases use with
  | asked | answered | sent => cases hpassive
  | read | slept | received => rfl

theorem frames_eq_nil {uses : List Use} (h : ∀ use ∈ uses, use.Passive) : frames uses = [] := by
  rw [frames, List.flatMap_eq_nil_iff]
  intro use huse
  have hpassive := h use huse
  cases use with
  | asked | answered | sent => cases hpassive
  | read | slept | received => rfl

end Use

open Recorded

namespace Run

/-! ### Recorded runs mirror plain ones -/

/-- A run over a recorded world does what another one does over the plain world. -/
def Mirrors (x : Run (Recorded σ) α) (y : Run σ α) : Prop :=
  ∀ w, (x w).map (fun (result, after) => (result, erase after)) = y (erase w)

theorem Mirrors.pure (a : α) : Mirrors (pure a : Run (Recorded σ) α) (pure a) := fun _ => rfl

theorem Mirrors.fail (e : DiagnosticError) : Mirrors (fail e : Run (Recorded σ) α) (fail e) :=
  fun _ => rfl

theorem Mirrors.ofExcept (r : Except DiagnosticError α) :
    Mirrors (ofExcept r : Run (Recorded σ) α) (ofExcept r) := fun _ => rfl

theorem Mirrors.note (n : Note) : Mirrors (note n : Run (Recorded σ) Unit) (note n) := fun _ => rfl

theorem Mirrors.noteAll (notes : List Note) :
    Mirrors (noteAll notes : Run (Recorded σ) Unit) (noteAll notes) := fun _ => rfl

theorem Mirrors.bind {x : Run (Recorded σ) α} {y : Run σ α} {f : α → Run (Recorded σ) β}
    {g : α → Run σ β} (hx : Mirrors x y) (hf : ∀ a, Mirrors (f a) (g a)) :
    Mirrors (x >>= f) (y >>= g) := by
  intro w
  rw [bind_apply, bind_apply, ← hx w]
  rcases x w with _ | ⟨e | a, after⟩
  · rfl
  · rfl
  · exact hf a after

theorem Mirrors.loop {x : α → Run (Recorded σ) (α ⊕ β)} {y : α → Run σ (α ⊕ β)}
    (h : ∀ a, Mirrors (x a) (y a)) (rounds : Nat) (a : α) :
    Mirrors (loop x rounds a) (loop y rounds a) := by
  induction rounds generalizing a with
  | zero => exact fun _ => rfl
  | succ rounds ih =>
      intro w
      rw [loop_succ, loop_succ, ← h a w]
      rcases x a w with _ | ⟨e | a | b, after⟩
      · rfl
      · rfl
      · exact ih a after
      · rfl

/-! ### What runs add to the record -/

/-- Whatever a run ends with, it has added uses to the record that fit its result. -/
def Records (x : Run (Recorded σ) α) (fits : Except DiagnosticError α → List Use → Prop) : Prop :=
  ∀ w result after, x w = some (result, after) →
    ∃ uses, after.world.uses.toList = w.world.uses.toList ++ uses ∧ fits result uses

variable {x : Run (Recorded σ) α} {f : α → Run (Recorded σ) β}
  {fits : Except DiagnosticError α → List Use → Prop}
  {fits' : Except DiagnosticError β → List Use → Prop}

/-- What a run adds to an empty record is all that is on it. -/
theorem Records.from_blank (h : Records x fits) {w : Logged σ} {result : Except DiagnosticError α}
    {after : Logged (Recorded σ)} (hrun : x (Recorded.blank w) = some (result, after)) :
    fits result after.world.uses.toList := by
  obtain ⟨uses, huses, hfits⟩ := h _ _ _ hrun
  obtain rfl : after.world.uses.toList = uses := huses
  exact hfits

/-- A run that leaves the record alone. -/
theorem Records.of_silent (result : Except DiagnosticError α)
    (hx : ∀ w, ∃ after, x w = some (result, after) ∧ after.world = w.world)
    (h : fits result []) : Records x fits := by
  intro w result' after hrun
  obtain ⟨silent, hsilent, hworld⟩ := hx w
  rw [hsilent] at hrun
  cases hrun
  exact ⟨[], by rw [hworld, List.append_nil], h⟩

theorem Records.pure (a : α) (h : fits (.ok a) []) :
    Records (pure a : Run (Recorded σ) α) fits :=
  of_silent (.ok a) (fun w => ⟨w, rfl, rfl⟩) h

theorem Records.fail (e : DiagnosticError) (h : fits (.error e) []) :
    Records (fail e : Run (Recorded σ) α) fits :=
  of_silent (.error e) (fun w => ⟨w, rfl, rfl⟩) h

theorem Records.ofExcept (r : Except DiagnosticError α) (h : fits r []) :
    Records (ofExcept r : Run (Recorded σ) α) fits :=
  of_silent r (fun w => ⟨w, rfl, rfl⟩) h

/-- A result that is known goes on at once, or ends the run with its error. -/
theorem Records.ofExcept_bind_error (e : DiagnosticError) (h : fits' (.error e) []) :
    Records (Run.ofExcept (.error e) >>= f) fits' :=
  of_silent (.error e) (fun w => ⟨w, rfl, rfl⟩) h

theorem Records.ofExcept_bind_ok (a : α) (h : Records (f a) fits') :
    Records (Run.ofExcept (.ok a) >>= f) fits' := h

/-- One use more, and then those of the run that goes on from it. -/
theorem Records.after_use {use : Use} {w middle after : Logged (Recorded σ)}
    {result : Except DiagnosticError α}
    (huse : middle.world.uses = w.world.uses.push use)
    (hx : Records x fun result rest => fits result (use :: rest))
    (hrun : x middle = some (result, after)) :
    ∃ uses, after.world.uses.toList = w.world.uses.toList ++ uses ∧ fits result uses := by
  obtain ⟨rest, hrest, hfits⟩ := hx _ _ _ hrun
  refine ⟨use :: rest, ?_, hfits⟩
  rw [hrest, huse, Array.toList_push, ← List.append_cons]

/-- The first run of a sequence adds the first uses, and its failure is that of the whole. -/
theorem Records.bind (hx : Records x fits)
    (herror : ∀ e first, fits (.error e) first → fits' (.error e) first)
    (hok : ∀ a first, fits (.ok a) first →
      Records (f a) fun result rest => fits' result (first ++ rest)) :
    Records (x >>= f) fits' := by
  intro w result after hrun
  rw [bind_apply] at hrun
  cases hx' : x w with
  | none => rw [hx'] at hrun; cases hrun
  | some ended =>
      obtain ⟨e | a, middle⟩ := ended
      · rw [hx'] at hrun
        cases hrun
        obtain ⟨first, hfirst, hfits⟩ := hx w _ _ hx'
        exact ⟨first, hfirst, herror e first hfits⟩
      · rw [hx'] at hrun
        obtain ⟨first, hfirst, hfits⟩ := hx w _ _ hx'
        obtain ⟨rest, hrest, hfits'⟩ := hok a first hfits middle _ _ hrun
        exact ⟨first ++ rest, by rw [hrest, hfirst, List.append_assoc], hfits'⟩

/-- A run that takes notes before it does anything else adds what it adds without them. -/
theorem Records.note_bind (n : Note) {f : Unit → Run (Recorded σ) α} (h : Records (f ()) fits) :
    Records (note n >>= f) fits := by
  intro w result after hrun
  exact h (w.note n) result after hrun

theorem Records.noteAll_bind (notes : List Note) {f : Unit → Run (Recorded σ) α}
    (h : Records (f ()) fits) : Records (noteAll notes >>= f) fits := by
  intro w result after hrun
  exact h { w with notes := w.notes ++ notes } result after hrun

/-- What one round of a loop adds: the last uses when it ends the loop, and otherwise the uses that
go before those of the rounds that follow. -/
def GoesOn (fits : α → Except DiagnosticError β → List Use → Prop) (a : α) :
    Except DiagnosticError (α ⊕ β) → List Use → Prop
  | .error e, uses => fits a (.error e) uses
  | .ok (.inr b), uses => fits a (.ok b) uses
  | .ok (.inl next), uses =>
      ∀ result rest, fits next result rest → fits a result (uses ++ rest)

/-- A loop adds what its rounds add, one after the other. -/
theorem Records.loop {step : α → Run (Recorded σ) (α ⊕ β)}
    {fits' : α → Except DiagnosticError β → List Use → Prop}
    (hstep : ∀ a, Records (step a) (GoesOn fits' a))
    (rounds : Nat) (a : α) : Records (loop step rounds a) (fits' a) := by
  induction rounds generalizing a with
  | zero => intro w result after hrun; cases hrun
  | succ rounds ih =>
      intro w result after hrun
      rw [loop_succ] at hrun
      cases hone : step a w with
      | none => rw [hone] at hrun; cases hrun
      | some ended =>
          obtain ⟨ended, middle⟩ := ended
          obtain ⟨first, hfirst, hfits⟩ := hstep a w _ _ hone
          rw [hone] at hrun
          -- only a round that goes on has further uses behind its own
          rcases ended with e | next | b
          · cases hrun; exact ⟨first, hfirst, hfits⟩
          · obtain ⟨rest, hrest, hfits'⟩ := ih next middle _ _ hrun
            exact ⟨first ++ rest, by rw [hrest, hfirst, List.append_assoc],
              hfits result rest hfits'⟩
          · cases hrun; exact ⟨first, hfirst, hfits⟩

end Run

namespace Link

open Run

variable (link : Link σ)

theorem clock_recorded : Mirrors link.recorded.clock link.clock := fun _ => rfl

theorem pause_recorded (d : Span) : Mirrors (link.recorded.pause d) (link.pause d) := fun _ => rfl

theorem batch_recorded : Mirrors link.recorded.batch link.batch := fun _ => rfl

theorem transmit_recorded (f : Frame) :
    Mirrors (link.recorded.transmit f) (link.transmit f) := fun _ => rfl

variable {fits : Except DiagnosticError α → List Use → Prop}

theorem records_clock_bind {f : Instant → Run (Recorded σ) α}
    (h : ∀ t, Records (f t) fun result rest => fits result (.read t :: rest)) :
    Records (link.recorded.clock >>= f) fits :=
  fun _ _ _ hrun => Records.after_use rfl (h _) hrun

theorem records_pause_bind {d : Span} {f : Unit → Run (Recorded σ) α}
    (h : Records (f ()) fun result rest => fits result (.slept d :: rest)) :
    Records (link.recorded.pause d >>= f) fits :=
  fun _ _ _ hrun => Records.after_use rfl h hrun

theorem records_batch_bind {f : List Frame → Run (Recorded σ) α}
    (herror : ∀ e, fits (.error (.bus e)) [.received (.error e)])
    (hok : ∀ batch, Records (f batch) fun result rest =>
      fits result (.received (.ok batch) :: rest)) :
    Records (link.recorded.batch >>= f) fits := by
  intro w result after hrun
  rw [bind_apply, batch, recorded] at hrun
  rcases hreply : (link.receive w.world.world).result with e | batch
  · dsimp only at hrun
    rw [hreply] at hrun
    cases hrun
    exact ⟨_, Array.toList_push, herror e⟩
  · dsimp only at hrun
    rw [hreply] at hrun
    exact Records.after_use rfl (hok batch) hrun

theorem records_transmit_bind {frame : Frame} {f : Unit → Run (Recorded σ) α}
    (herror : ∀ e, fits (.error (.bus e)) [.sent [frame] (.error e)])
    (hok : Records (f ()) fun result rest => fits result (.sent [frame] (.ok ()) :: rest)) :
    Records (link.recorded.transmit frame >>= f) fits := by
  intro w result after hrun
  rw [bind_apply, transmit, recorded] at hrun
  rcases hreply : (link.send [frame] w.world.world).result with e | _
  · dsimp only at hrun
    rw [hreply] at hrun
    cases hrun
    exact ⟨_, Array.toList_push, herror e⟩
  · dsimp only at hrun
    rw [hreply] at hrun
    exact Records.after_use rfl hok hrun

end Link

namespace Engine

open Run

theorem unrecorded_mirrors (engine : Engine σ) (q : Query) :
    Mirrors (engine.unrecorded q) (engine q) := by
  intro w
  rw [unrecorded, Option.map_map]
  exact Option.map_id'

theorem recorded_mirrors {engine : Engine (Recorded σ)} {plain : Engine σ} {q : Query}
    (h : Mirrors (engine q) (plain q)) : Mirrors (engine.recorded q) (plain q) := by
  intro w
  rw [recorded, Option.map_map]
  exact h { w with world := w.world.add w.world.world (.asked q) }

theorem unrecorded_records (engine : Engine σ) (q : Query) :
    Records (engine.unrecorded q) fun _ uses => uses = [] := by
  intro w result after hrun
  rw [unrecorded, Option.map_eq_some_iff] at hrun
  obtain ⟨_, _, hend⟩ := hrun
  cases hend
  exact ⟨[], (List.append_nil _).symm, rfl⟩

/-- Between its marks, a recorded engine adds what it adds without them. -/
theorem recorded_records {engine : Engine (Recorded σ)} {q : Query}
    {fits : Except DiagnosticError Answers → List Use → Prop} (h : Records (engine q) fits) :
    Records (engine.recorded q) fun result uses =>
      ∃ meanwhile, fits result meanwhile ∧
        uses = .asked q :: meanwhile ++ [.answered result] := by
  intro w result after hrun
  rw [recorded, Option.map_eq_some_iff] at hrun
  obtain ⟨⟨result', middle⟩, hengine, hend⟩ := hrun
  cases hend
  obtain ⟨meanwhile, huses, hfits⟩ := h _ _ _ hengine
  refine ⟨_, ?_, meanwhile, hfits, rfl⟩
  simp only [add, Array.toList_push, huses, List.append_assoc, List.cons_append, List.nil_append]

end Engine

end EcuQuiet
