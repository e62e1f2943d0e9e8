import EcuQuiet.Bus.Link

/-!
# Runs

A `Run` is a computation over a link. It ends with a value or a diagnostic error, and with the
world and the notes as they are then; or it does not end within the rounds it was given, which is
told apart from every error. An error ends a sequence of runs and keeps what happened before it.
-/

namespace EcuQuiet

/-- A world together with the notes taken so far. -/
structure Logged (σ : Type) where
  world : σ
  notes : Array Note := #[]

namespace Logged

/-- One note more. -/
@[inline]
def note {σ : Type} (n : Note) (w : Logged σ) : Logged σ :=
  { w with notes := w.notes.push n }

/-- The world and further notes that an operation left behind. -/
@[inline]
def after {σ α : Type} (w : Logged σ) (r : Reply σ α) : Logged σ :=
  { world := r.world, notes := w.notes ++ r.notes }

end Logged

/-- A computation over a world, which may fail and may be cut off. -/
def Run (σ α : Type) : Type := Logged σ → Option (Except DiagnosticError α × Logged σ)

namespace Run

variable {σ α β : Type}

/-- Ends with a value and changes nothing. -/
@[always_inline, inline]
protected def pure (a : α) : Run σ α := fun w => some (.ok a, w)

/-- Goes on with the value of the first run; its failure or cut-off is that of the whole. -/
@[always_inline, inline]
protected def bind (x : Run σ α) (f : α → Run σ β) : Run σ β := fun w =>
  match x w with
  | none => none
  | some (.error e, w) => some (.error e, w)
  | some (.ok a, w) => f a w

@[always_inline]
instance : Monad (Run σ) where
  pure := Run.pure
  bind := Run.bind

theorem bind_apply (x : Run σ α) (f : α → Run σ β) (w : Logged σ) :
    (x >>= f) w = match x w with
      | none => none
      | some (.error e, w) => some (.error e, w)
      | some (.ok a, w) => f a w := rfl

/-- Ends with an error. -/
def fail (e : DiagnosticError) : Run σ α := fun w => some (.error e, w)

/-- Ends as a result says. -/
def ofExcept (r : Except DiagnosticError α) : Run σ α := fun w => some (r, w)

/-- Takes a note. -/
def note (n : Note) : Run σ Unit := fun w => some (.ok (), w.note n)

/-- Takes notes in their order. -/
def noteAll (notes : List Note) : Run σ Unit := fun w =>
  some (.ok (), { w with notes := w.notes ++ notes })

/-- Repeats a step until it yields a result. Each step goes on with the state of the one before
it, and `rounds` bounds how many there may be. -/
@[specialize]
def loop (step : α → Run σ (α ⊕ β)) : Nat → α → Run σ β
  | 0, _ => fun _ => none
  | rounds + 1, a => fun w =>
    match step a w with
    | none => none
    | some (.error e, w) => some (.error e, w)
    | some (.ok (.inr b), w) => some (.ok b, w)
    | some (.ok (.inl a), w) => loop step rounds a w

theorem loop_succ (step : α → Run σ (α ⊕ β)) (rounds : Nat) (a : α) (w : Logged σ) :
    loop step (rounds + 1) a w = match step a w with
      | none => none
      | some (.error e, w) => some (.error e, w)
      | some (.ok (.inr b), w) => some (.ok b, w)
      | some (.ok (.inl a), w) => loop step rounds a w := rfl

end Run

namespace Link

variable {σ : Type} (link : Link σ)

/-- The reading of the clock. -/
def clock : Run σ Instant := fun w =>
  let (t, world) := link.now w.world
  some (.ok t, { w with world })

/-- Lets time pass. -/
def pause (d : Span) : Run σ Unit := fun w =>
  some (.ok (), { w with world := link.sleep d w.world })

/-- The next batch of frames; a failure of the interface is a diagnostic error. -/
def batch : Run σ (List Frame) := fun w =>
  let reply := link.receive w.world
  some (reply.result.mapError .bus, w.after reply)

/-- Sends one frame; a failure of the interface is a diagnostic error. -/
def transmit (f : Frame) : Run σ Unit := fun w =>
  let reply := link.send [f] w.world
  some (reply.result.mapError .bus, w.after reply)

end Link

end EcuQuiet
