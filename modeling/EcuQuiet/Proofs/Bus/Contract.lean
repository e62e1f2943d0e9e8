import EcuQuiet.Bus.Recorded

/-!
# Contracts of runs

A contract says what a run leads to from certain worlds. What it owes when it is cut off is a
parameter: a run that may be cut off keeps its contract only for the runs that end, and one that
may not has to end. A loop keeps an invariant, and it ends when every round brings a measure down.
-/

namespace EcuQuiet

variable {σ α β : Type}

namespace Run

/-- From every world with `P`, a run ends with a result and a world that satisfy `Q`; or it is cut
off, which is only allowed if `cutOff` holds. -/
def Meets (cutOff : Prop) (P : σ → Prop) (x : Run σ α)
    (Q : Except DiagnosticError α → σ → Prop) : Prop :=
  ∀ w, P w.world →
    match x w with
    | none => cutOff
    | some (result, after) => Q result after.world

variable {cutOff : Prop} {P : σ → Prop} {x : Run σ α} {f : α → Run σ β}
  {R Q : Except DiagnosticError α → σ → Prop} {Q' : Except DiagnosticError β → σ → Prop}

/-- A contract speaks of every run that ends. -/
theorem Meets.post (h : Meets cutOff P x Q) {w after : Logged σ}
    {result : Except DiagnosticError α} (hw : P w.world) (hrun : x w = some (result, after)) :
    Q result after.world := by
  have hend := h w hw
  rw [hrun] at hend
  exact hend

/-- A run that may not be cut off ends. -/
theorem Meets.exists_end (h : Meets False P x Q) {w : Logged σ} (hw : P w.world) :
    ∃ result after, x w = some (result, after) ∧ Q result after.world := by
  have hend := h w hw
  cases hrun : x w with
  | none => rw [hrun] at hend; exact hend.elim
  | some ended =>
      rw [hrun] at hend
      exact ⟨ended.1, ended.2, rfl, hend⟩

theorem Meets.mono (h : Meets cutOff P x R) (hpost : ∀ result w, R result w → Q result w) :
    Meets cutOff P x Q := by
  intro w hw
  have hend := h w hw
  cases hrun : x w with
  | none => rw [hrun] at hend; exact hend
  | some ended => rw [hrun] at hend; exact hpost _ _ hend

/-- A contract can be shown for one world at a time. -/
theorem Meets.of_forall (h : ∀ world, P world → Meets cutOff (· = world) x Q) :
    Meets cutOff P x Q := fun w hw => h w.world hw w rfl

theorem Meets.pure (a : α) (h : ∀ w, P w → Q (.ok a) w) :
    Meets cutOff P (pure a : Run σ α) Q := fun w hw => h w.world hw

theorem Meets.fail (e : DiagnosticError) (h : ∀ w, P w → Q (.error e) w) :
    Meets cutOff P (fail e : Run σ α) Q := fun w hw => h w.world hw

theorem Meets.ofExcept (r : Except DiagnosticError α) (h : ∀ w, P w → Q r w) :
    Meets cutOff P (ofExcept r : Run σ α) Q := fun w hw => h w.world hw

/-- The contract of a sequence, from those of its parts. -/
theorem Meets.bind (hx : Meets cutOff P x R) (herror : ∀ e w, R (.error e) w → Q' (.error e) w)
    (hf : ∀ a, Meets cutOff (R (.ok a)) (f a) Q') : Meets cutOff P (x >>= f) Q' := by
  intro w hw
  have hend := hx w hw
  rw [bind_apply]
  rcases hrun : x w with _ | ⟨e | a, middle⟩
  · rw [hrun] at hend
    exact hend
  · rw [hrun] at hend
    exact herror e middle.world hend
  · rw [hrun] at hend
    exact hf a middle hend

/-- Notes are not part of the world. -/
theorem Meets.note_bind (n : Note) {f : Unit → Run σ α} (h : Meets cutOff P (f ()) Q) :
    Meets cutOff P (note n >>= f) Q := fun w hw => h (w.note n) hw

theorem Meets.noteAll_bind (notes : List Note) {f : Unit → Run σ α}
    (h : Meets cutOff P (f ()) Q) : Meets cutOff P (noteAll notes >>= f) Q :=
  fun w hw => h { w with notes := w.notes ++ notes } hw

/-! ### Loops -/

/-- What a round of a loop owes: the contract of the loop when it ends it, and the invariant when
it goes on. -/
def Continues (I : α → σ → Prop) (Q : Except DiagnosticError β → σ → Prop) :
    Except DiagnosticError (α ⊕ β) → σ → Prop
  | .error e, w => Q (.error e) w
  | .ok (.inl next), w => I next w
  | .ok (.inr b), w => Q (.ok b) w

variable {step : α → Run σ (α ⊕ β)}

/-- Every loop that ends has kept the invariant of its rounds. -/
theorem Meets.loop {I : α → σ → Prop}
    (hstep : ∀ a, Meets True (I a) (step a) (Continues I Q')) (rounds : Nat) (a : α) :
    Meets True (I a) (loop step rounds a) Q' := by
  induction rounds generalizing a with
  | zero => exact fun _ _ => trivial
  | succ rounds ih =>
      intro w hw
      have hend := hstep a w hw
      rw [loop_succ]
      rcases hrun : step a w with _ | ⟨e | next | b, middle⟩
      · exact trivial
      · rw [hrun] at hend
        exact hend
      · rw [hrun] at hend
        exact ih next middle hend
      · rw [hrun] at hend
        exact hend

/-- A loop ends when it has more rounds than its measure, which every round brings down. -/
theorem Meets.loop_of_measure {I : Nat → α → σ → Prop}
    (hstep : ∀ left a, Meets cutOff (I left a) (step a)
      (Continues (fun next w => ∃ less < left, I less next w) Q'))
    {rounds left : Nat} (hrounds : left < rounds) (a : α) :
    Meets cutOff (I left a) (Run.loop step rounds a) Q' := by
  induction rounds generalizing left a with
  | zero => exact absurd hrounds (Nat.not_lt_zero _)
  | succ rounds ih =>
      intro w hw
      have hend := hstep left a w hw
      rw [loop_succ]
      rcases hrun : step a w with _ | ⟨e | next | b, middle⟩
      · rw [hrun] at hend
        exact hend
      · rw [hrun] at hend
        exact hend
      · rw [hrun] at hend
        obtain ⟨less, hless, hnext⟩ := hend
        exact ih (Nat.lt_of_lt_of_le hless (Nat.le_of_lt_succ hrounds)) next middle hnext
      · rw [hrun] at hend
        exact hend

/-! ### Invariants of the world -/

/-- A run keeps an invariant of the world, whatever it comes to. -/
def Keeps (cutOff : Prop) (I : σ → Prop) (x : Run σ α) : Prop := Meets cutOff I x fun _ => I

theorem Keeps.true (x : Run σ α) : Keeps True (fun _ => True) x := by
  intro w _
  cases x w with
  | none => trivial
  | some ended => trivial

/-- One thing holds after a failure and another one after a success. -/
def Either (I J : σ → Prop) : Except DiagnosticError α → σ → Prop
  | .error _, w => I w
  | .ok _, w => J w

end Run

namespace Link

open Run

variable (link : Link σ) {cutOff : Prop} {P : σ → Prop}
  {Q : Except DiagnosticError α → σ → Prop}

theorem meets_clock_bind {R : Instant → σ → Prop} {f : Instant → Run σ α}
    (h : ∀ w, P w → R (link.now w).1 (link.now w).2) (hf : ∀ t, Meets cutOff (R t) (f t) Q) :
    Meets cutOff P (link.clock >>= f) Q :=
  fun w hw => hf _ { w with world := (link.now w.world).2 } (h w.world hw)

theorem meets_pause_bind {R : σ → Prop} {d : Span} {f : Unit → Run σ α}
    (h : ∀ w, P w → R (link.sleep d w)) (hf : Meets cutOff R (f ()) Q) :
    Meets cutOff P (link.pause d >>= f) Q :=
  fun w hw => hf { w with world := link.sleep d w.world } (h w.world hw)

theorem meets_batch_bind {R : List Frame → σ → Prop} {f : List Frame → Run σ α}
    (herror : ∀ w e, P w → (link.receive w).result = .error e →
      Q (.error (.bus e)) (link.receive w).world)
    (hok : ∀ w batch, P w → (link.receive w).result = .ok batch →
      R batch (link.receive w).world)
    (hf : ∀ batch, Meets cutOff (R batch) (f batch) Q) :
    Meets cutOff P (link.batch >>= f) Q := by
  intro w hw
  rw [bind_apply, batch]
  rcases hreply : (link.receive w.world).result with e | batch
  · exact herror w.world e hw hreply
  · exact hf batch (w.after (link.receive w.world)) (hok w.world batch hw hreply)

theorem meets_transmit_bind {R : σ → Prop} {frame : Frame} {f : Unit → Run σ α}
    (herror : ∀ w e, P w → (link.send [frame] w).result = .error e →
      Q (.error (.bus e)) (link.send [frame] w).world)
    (hok : ∀ w, P w → (link.send [frame] w).result = .ok () → R (link.send [frame] w).world)
    (hf : Meets cutOff R (f ()) Q) : Meets cutOff P (link.transmit frame >>= f) Q := by
  intro w hw
  rw [bind_apply, transmit]
  rcases hreply : (link.send [frame] w.world).result with e | _
  · exact herror w.world e hw hreply
  · exact hf (w.after (link.send [frame] w.world)) (hok w.world hw hreply)

/-- An invariant of the world that nothing but sending can break. -/
structure Keeps (I : σ → Prop) : Prop where
  now : ∀ w, I w → I (link.now w).2
  sleep : ∀ d w, I w → I (link.sleep d w)
  receive : ∀ w, I w → I (link.receive w).world

end Link

end EcuQuiet
