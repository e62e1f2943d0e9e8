import EcuQuiet.Bus.Limited
import EcuQuiet.Bus.Run

/-!
# Runs that end

A run is cut off only when a loop uses up its rounds. A loop that spends a finite resource of the
world in every round ends before that. The readings of a limited link are such a resource, so every
run over a limited link ends, whatever the link behind it does.
-/

namespace EcuQuiet

variable {σ α β γ : Type}

namespace Run

/-- From every world with less than the bound left, a run ends and leaves no more than there was. -/
def Ends (left : σ → Nat) (bound : Nat) (x : Run σ α) : Prop :=
  ∀ w, left w.world < bound →
    ∃ result after, x w = some (result, after) ∧ left after.world ≤ left w.world

/-- A round of a loop that ends, and that goes on only with less than before. -/
def Spends (left : σ → Nat) (bound : Nat) (x : Run σ (α ⊕ β)) : Prop :=
  ∀ w, left w.world < bound → ∃ result after, x w = some (result, after) ∧
    left after.world ≤ left w.world ∧
      ((∃ next, result = .ok (.inl next)) → left after.world < left w.world)

variable {left : σ → Nat} {bound : Nat}

theorem Ends.pure (a : α) : Ends left bound (pure a : Run σ α) :=
  fun w _ => ⟨.ok a, w, rfl, Nat.le_refl _⟩

theorem Ends.fail (e : DiagnosticError) : Ends left bound (fail e : Run σ α) :=
  fun w _ => ⟨.error e, w, rfl, Nat.le_refl _⟩

theorem Ends.ofExcept (r : Except DiagnosticError α) : Ends left bound (ofExcept r : Run σ α) :=
  fun w _ => ⟨r, w, rfl, Nat.le_refl _⟩

theorem Ends.note (n : Note) : Ends left bound (note n : Run σ Unit) :=
  fun w _ => ⟨.ok (), w.note n, rfl, Nat.le_refl _⟩

theorem Ends.noteAll (notes : List Note) : Ends left bound (noteAll notes : Run σ Unit) :=
  fun w _ => ⟨.ok (), { w with notes := w.notes ++ notes }, rfl, Nat.le_refl _⟩

theorem Ends.bind {x : Run σ α} {f : α → Run σ β} (hx : Ends left bound x)
    (hf : ∀ a, Ends left bound (f a)) : Ends left bound (x >>= f) := by
  intro w hw
  obtain ⟨result, middle, hrun, hmiddle⟩ := hx w hw
  rw [bind_apply, hrun]
  cases result with
  | error e => exact ⟨_, _, rfl, hmiddle⟩
  | ok a =>
      obtain ⟨result, after, hrun, hafter⟩ := hf a middle (Nat.lt_of_le_of_lt hmiddle hw)
      exact ⟨result, after, hrun, Nat.le_trans hafter hmiddle⟩

/-- A loop has enough rounds when there are more of them than the world has left to spend. -/
theorem Ends.loop {step : α → Run σ (α ⊕ β)} (hstep : ∀ a, Spends left bound (step a))
    (a : α) : Ends left bound (loop step bound a) := by
  -- the rounds may fall behind the bound as long as they stay ahead of what is left
  have hloop : ∀ rounds a w, left w.world < rounds → left w.world < bound →
      ∃ result after, Run.loop step rounds a w = some (result, after) ∧
        left after.world ≤ left w.world := by
    intro rounds
    induction rounds with
    | zero => intro a w hw _; exact absurd hw (Nat.not_lt_zero _)
    | succ rounds ih =>
        intro a w hw hbound
        obtain ⟨result, middle, hrun, hle, hspent⟩ := hstep a w hbound
        rw [loop_succ, hrun]
        rcases result with e | next | b
        · exact ⟨_, _, rfl, hle⟩
        · have hlt := hspent ⟨next, rfl⟩
          obtain ⟨result, after, hrest, hafter⟩ := ih next middle (by omega) (by omega)
          exact ⟨result, after, hrest, Nat.le_trans hafter hle⟩
        · exact ⟨_, _, rfl, hle⟩
  exact fun w hw => hloop bound a w hw hw

theorem Spends.bind {x : Run σ α} {f : α → Run σ (β ⊕ γ)} (hx : Ends left bound x)
    (hf : ∀ a, Spends left bound (f a)) : Spends left bound (x >>= f) := by
  intro w hw
  obtain ⟨result, middle, hrun, hmiddle⟩ := hx w hw
  rw [bind_apply, hrun]
  cases result with
  | error e => exact ⟨_, _, rfl, hmiddle, fun h => by obtain ⟨_, h⟩ := h; cases h⟩
  | ok a =>
      obtain ⟨result, after, hrun, hafter, hspent⟩ := hf a middle (Nat.lt_of_le_of_lt hmiddle hw)
      exact ⟨result, after, hrun, Nat.le_trans hafter hmiddle,
        fun hnext => Nat.lt_of_lt_of_le (hspent hnext) hmiddle⟩

theorem Spends.of_ends {x : Run σ (α ⊕ β)} (hx : Ends left bound x)
    (h : ∀ w result after, x w = some (result, after) → ¬ ∃ next, result = .ok (.inl next)) :
    Spends left bound x := by
  intro w hw
  obtain ⟨result, after, hrun, hle⟩ := hx w hw
  exact ⟨result, after, hrun, hle, fun hnext => absurd hnext (h w result after hrun)⟩

end Run

namespace Link

open Run

variable (link : Link σ) {bound : Nat}

theorem limited_clock_ends : Ends Allowance.left bound link.limited.clock :=
  fun _ _ => ⟨_, _, rfl, Nat.le_refl _⟩

theorem limited_pause_ends (d : Span) : Ends Allowance.left bound (link.limited.pause d) :=
  fun _ _ => ⟨_, _, rfl, Nat.le_refl _⟩

theorem limited_transmit_ends (f : Frame) : Ends Allowance.left bound (link.limited.transmit f) :=
  fun _ _ => ⟨_, _, rfl, Nat.le_refl _⟩

/-- A round that has received a batch has spent a reading. -/
theorem limited_batch_spends {f : List Frame → Run (Allowance σ) (α ⊕ β)}
    (hf : ∀ batch, Ends Allowance.left bound (f batch)) :
    Spends Allowance.left bound (link.limited.batch >>= f) := by
  intro w hw
  rw [bind_apply, batch, limited]
  dsimp only
  cases hleft : w.world.left with
  | zero => exact ⟨_, _, rfl, Nat.le_of_eq hleft, fun h => by obtain ⟨_, h⟩ := h; cases h⟩
  | succ left =>
      cases hreply : (link.receive w.world.world).result with
      | error e =>
          refine ⟨_, _, rfl, ?_, fun h => by obtain ⟨_, h⟩ := h; cases h⟩
          exact Nat.le_succ left
      | ok batch =>
          obtain ⟨result, after, hrun, hle⟩ := hf batch
            (w.after { result := .ok batch
                       world := { world := (link.receive w.world.world).world, left }
                       notes := (link.receive w.world.world).notes })
            (by rw [hleft] at hw; exact Nat.lt_of_succ_lt hw)
          exact ⟨result, after, hrun, Nat.le_trans hle (Nat.le_succ left),
            fun _ => Nat.lt_succ_of_le hle⟩

end Link

end EcuQuiet
