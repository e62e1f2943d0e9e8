import EcuQuiet.Proofs.Bus.Contract

/-!
# Views of a world

A view shows a part of a world, as a world of another link. A run appears through the view as
another run if that one does over the part what the first one does over the whole: it comes to the
same result with the same notes, and to the part of the world that the first one comes to. Whether
it does may depend on what is known of the world, so the rules go along with the contracts of the
first run.
-/

namespace EcuQuiet

variable {σ τ α β : Type}

/-- What is seen of a world, with all notes. -/
def Logged.seen (see : σ → τ) (w : Logged σ) : Logged τ :=
  { world := see w.world, notes := w.notes }

namespace Run

/-- What is seen of the end of a run. -/
def seen (see : σ → τ) (ended : Option (Except DiagnosticError α × Logged σ)) :
    Option (Except DiagnosticError α × Logged τ) :=
  ended.map fun (result, after) => (result, after.seen see)

/-- From every world with `P`, the second run does over what is seen of the world what the first one
does over the world. -/
def Appears (see : σ → τ) (P : σ → Prop) (x : Run σ α) (y : Run τ α) : Prop :=
  ∀ w, P w.world → y (w.seen see) = seen see (x w)

namespace Appears

variable {see : σ → τ} {P : σ → Prop}

/-- What is known of more worlds is known of some of them. -/
theorem mono {R : σ → Prop} {x : Run σ α} {y : Run τ α} (h : Appears see R x y)
    (hworlds : ∀ w, P w → R w) : Appears see P x y := fun w hw => h w (hworlds w.world hw)

theorem pure (a : α) : Appears see P (pure a : Run σ α) (pure a) := fun _ _ => rfl

theorem fail (e : DiagnosticError) : Appears see P (fail e : Run σ α) (fail e) := fun _ _ => rfl

theorem note_bind (n : Note) {f : Unit → Run σ α} {g : Unit → Run τ α}
    (h : Appears see P (f ()) (g ())) : Appears see P (note n >>= f) (note n >>= g) :=
  fun w hw => h (w.note n) hw

/-- A sequence appears as one if its parts do, the second one from where the first one leads. -/
theorem bind {R : Except DiagnosticError α → σ → Prop} {x : Run σ α} {y : Run τ α}
    {f : α → Run σ β} {g : α → Run τ β} (hx : Appears see P x y) (hmeets : Meets True P x R)
    (hf : ∀ a, Appears see (R (.ok a)) (f a) (g a)) : Appears see P (x >>= f) (y >>= g) := by
  intro w hw
  have hend := hmeets w hw
  rw [bind_apply, bind_apply, hx w hw]
  rcases hrun : x w with _ | ⟨e | a, middle⟩
  · rfl
  · rfl
  · rw [hrun] at hend
    exact hf a middle hend

/-- A loop appears as one if its rounds do as long as its invariant holds. -/
theorem loop {I : α → σ → Prop} {Q : Except DiagnosticError β → σ → Prop}
    {x : α → Run σ (α ⊕ β)} {y : α → Run τ (α ⊕ β)} (hstep : ∀ a, Appears see (I a) (x a) (y a))
    (hkeeps : ∀ a, Meets True (I a) (x a) (Continues I Q)) (rounds : Nat) (a : α) :
    Appears see (I a) (loop x rounds a) (loop y rounds a) := by
  induction rounds generalizing a with
  | zero => exact fun _ _ => rfl
  | succ rounds ih =>
      intro w hw
      have hend := hkeeps a w hw
      rw [loop_succ, loop_succ, hstep a w hw]
      rcases hrun : x a w with _ | ⟨e | next | b, middle⟩
      · rfl
      · rfl
      · rw [hrun] at hend
        exact ih next middle hend
      · rfl

end Appears

end Run

/-- A reply as it is seen. -/
def Reply.seen (see : σ → τ) (r : Reply σ α) : Reply τ α :=
  { result := r.result, world := see r.world, notes := r.notes }

namespace Link

open Run

variable {link : Link σ} {part : Link τ} {see : σ → τ} {P : σ → Prop}

theorem appears_clock (h : ∀ w, P w → part.now (see w) = ((link.now w).1, see (link.now w).2)) :
    Appears see P link.clock part.clock := by
  intro w hw
  rw [clock, Logged.seen, h w.world hw]
  rfl

/-- After readings of the bus that yield different batches, the runs must come to the same about
these. -/
theorem appears_batch_bind {f : List Frame → Run σ α} {g : List Frame → Run τ α}
    (h : ∀ w, P w → ∃ batch seen, (link.receive w).result = .ok batch ∧
      part.receive (see w) =
        { result := .ok seen
          world := see (link.receive w).world
          notes := (link.receive w).notes } ∧
      Appears see (· = (link.receive w).world) (f batch) (g seen)) :
    Appears see P (link.batch >>= f) (part.batch >>= g) := by
  intro w hw
  obtain ⟨batch, seen, hbatch, hseen, happears⟩ := h w.world hw
  rw [bind_apply, bind_apply, Link.batch, Link.batch, Logged.seen, hseen, hbatch]
  exact happears (w.after (link.receive w.world)) rfl

theorem appears_transmit {f : Frame}
    (h : ∀ w, P w → part.send [f] (see w) = (link.send [f] w).seen see) :
    Appears see P (link.transmit f) (part.transmit f) := by
  intro w hw
  rw [transmit, Logged.seen, h w.world hw]
  rfl

end Link

end EcuQuiet
