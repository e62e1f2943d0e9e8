import EcuQuiet.Query
import Mathlib.Data.List.Sort

/-!
# Answers as a map

The answers that a list gives hold nothing but entries of the list, and one for each target it
names; and answers are known by what they say of every target.
-/

namespace EcuQuiet.Answers

/-! ### What a list gives -/

theorem mem_of_get?_foldl {t : Target} {a : Answer} {list : List (Target × Answer)}
    {answers : Answers}
    (h : (list.foldl (fun answers (t, a) => answers.insert t a) answers).get? t = some a) :
    (t, a) ∈ list ∨ answers.get? t = some a := by
  induction list generalizing answers with
  | nil => exact .inr h
  | cons entry rest ih =>
      obtain hrest | hinsert := ih h
      · exact .inl (List.mem_cons_of_mem _ hrest)
      · rw [get?_insert] at hinsert
        split at hinsert
        next heq =>
          cases hinsert
          subst heq
          exact .inl List.mem_cons_self
        next => exact .inr hinsert

/-- An answer comes from the list. -/
theorem mem_of_get?_ofList {t : Target} {a : Answer} {list : List (Target × Answer)}
    (h : (ofList list).get? t = some a) : (t, a) ∈ list := by
  obtain hmem | hempty := mem_of_get?_foldl h
  · exact hmem
  · rw [get?_empty] at hempty
    cases hempty

theorem isSome_get?_foldl {t : Target} {list : List (Target × Answer)} {answers : Answers}
    (h : (∃ a, (t, a) ∈ list) ∨ (answers.get? t).isSome) :
    ((list.foldl (fun answers (t, a) => answers.insert t a) answers).get? t).isSome := by
  induction list generalizing answers with
  | nil => exact h.resolve_left fun ⟨a, ha⟩ => absurd ha List.not_mem_nil
  | cons entry rest ih =>
      apply ih
      rw [get?_insert]
      by_cases heq : t = entry.1
      · rw [if_pos heq]
        exact .inr rfl
      · rw [if_neg heq]
        refine h.imp_left fun ⟨a, ha⟩ => ⟨a, ?_⟩
        refine (List.mem_cons.mp ha).resolve_left fun hentry => heq ?_
        rw [← hentry]

/-- A target that the list names has an answer. -/
theorem isSome_get?_ofList {t : Target} {a : Answer} {list : List (Target × Answer)}
    (h : (t, a) ∈ list) : ((ofList list).get? t).isSome :=
  isSome_get?_foldl (.inl ⟨a, h⟩)

/-! ### What answers are known by -/

/-- What answers say of a target is their one entry for it. -/
theorem get?_eq_some_iff {answers : Answers} {t : Target} {a : Answer} :
    answers.get? t = some a ↔ (t, a) ∈ answers.entries := by
  rw [get?, List.lookup_eq_some_iff]
  constructor
  · rintro ⟨before, after, heq, -⟩
    rw [heq]
    exact List.mem_append_right _ List.mem_cons_self
  · intro hmem
    obtain ⟨before, after, heq⟩ := List.append_of_mem hmem
    refine ⟨before, after, heq, fun entry hentry => ?_⟩
    have hascending := answers.ascending
    rw [heq, List.map_append, List.pairwise_append] at hascending
    have hless : entry.1.rank < t.rank :=
      hascending.2.2 _ (List.mem_map_of_mem hentry) _ List.mem_cons_self
    rw [bne_iff_ne]
    rintro rfl
    exact Nat.lt_irrefl _ hless

/-- Answers that say the same of every target are the same. -/
theorem ext_get? {first second : Answers} (h : ∀ t, first.get? t = second.get? t) :
    first = second := by
  have hirrefl : Std.Irrefl fun x y : Target × Answer => x.1.rank < y.1.rank :=
    ⟨fun _ => Nat.lt_irrefl _⟩
  have hantisymm : Std.Antisymm fun x y : Target × Answer => x.1.rank < y.1.rank :=
    ⟨fun _ _ hless hmore => absurd hmore (Nat.lt_asymm hless)⟩
  refine Answers.ext (List.Pairwise.eq_of_mem_iff (List.pairwise_map.mp first.ascending)
    (List.pairwise_map.mp second.ascending) fun entry => ?_)
  rw [← get?_eq_some_iff, ← get?_eq_some_iff, h]

/-! ### Answers of runs -/

/-- A run that has been computed as far as what is to be known of its answers has answers. -/
theorem exists_of_observed {σ β : Type} {x : Run σ Answers} {w : Logged σ}
    (observe : Answers → Option β) (b : β)
    (h : ((x w).map fun (result, _) => result.toOption.bind observe) = some (some b)) :
    ∃ answers after, x w = some (.ok answers, after) ∧ observe answers = some b := by
  obtain ⟨⟨result, after⟩, hrun, hobserved⟩ := Option.map_eq_some_iff.mp h
  cases result with
  | error reason => cases hobserved
  | ok answers => exact ⟨answers, after, hrun, hobserved⟩

/-- A run that has been computed as far as one response has answers with this response. -/
theorem exists_of_response {σ : Type} {x : Run σ Answers} {w : Logged σ} (t : Target)
    (response : Bytes)
    (h : ((x w).map fun (result, _) => result.toOption.bind fun answers =>
      (answers.get? t).bind (·.toOption)) = some (some response)) :
    ∃ answers after, x w = some (.ok answers, after) ∧ answers.get? t = some (.ok response) := by
  obtain ⟨answers, after, hrun, hresponse⟩ := exists_of_observed _ response h
  obtain ⟨answer, hget, hanswer⟩ := Option.bind_eq_some_iff.mp hresponse
  cases answer with
  | error reason => cases hanswer
  | ok bytes =>
      cases hanswer
      exact ⟨answers, after, hrun, hget⟩

end EcuQuiet.Answers
