import EcuQuiet.Bus.Run
import EcuQuiet.Target
import EcuQuiet.Uds.Service

/-!
# Queries and their answers

A query puts a chain of exchanges to any number of targets on one bus. Its answers hold one entry
for each target that answered or was found to misbehave; targets that stayed silent have none. An
engine is whatever carries queries out over a world.
-/

namespace EcuQuiet

/-- What is asked, of whom, and how long to wait. A wait of zero sends the first request to every
target and listens to none. -/
structure Query where
  bus : UInt8
  targets : List Target
  exchanges : List Exchange
  timeout : Span
deriving DecidableEq

/-- The last response of a target, or why there is none. -/
abbrev Answer := Except DiagnosticError Bytes

/-- The answers to a query, at most one for each target, in the order of targets. -/
@[ext]
structure Answers where
  entries : List (Target × Answer)
  ascending : (entries.map (·.1.rank)).Pairwise (· < ·)

namespace Answers

/-- No answers. -/
def empty : Answers := ⟨[], .nil⟩

/-- Entries in ascending order with the one of a target set. -/
def setEntry (t : Target) (a : Answer) : List (Target × Answer) → List (Target × Answer)
  | [] => [(t, a)]
  | (u, b) :: rest =>
    if t.rank < u.rank then (t, a) :: (u, b) :: rest
    else if t.rank = u.rank then (t, a) :: rest
    else (u, b) :: setEntry t a rest

theorem rank_mem_setEntry {t : Target} {a : Answer} {l : List (Target × Answer)} {n : Nat} :
    n ∈ (setEntry t a l).map (·.1.rank) ↔ n = t.rank ∨ n ∈ l.map (·.1.rank) := by
  induction l with
  | nil => simp [setEntry]
  | cons head rest ih =>
    obtain ⟨u, b⟩ := head
    rw [setEntry]
    split
    · simp
    split
    next heq => simp [heq]
    next => simp only [List.map_cons, List.mem_cons, ih]; grind

theorem ascending_setEntry (t : Target) (a : Answer) {l : List (Target × Answer)}
    (h : (l.map (·.1.rank)).Pairwise (· < ·)) :
    ((setEntry t a l).map (·.1.rank)).Pairwise (· < ·) := by
  induction l with
  | nil => simp [setEntry]
  | cons head rest ih =>
    obtain ⟨u, b⟩ := head
    obtain ⟨hu, hrest⟩ := List.pairwise_cons.mp h
    rw [setEntry]
    split
    next hlt =>
      refine List.pairwise_cons.mpr ⟨?_, h⟩
      intro n hn
      rcases List.mem_cons.mp hn with rfl | hn
      · exact hlt
      · exact Nat.lt_trans hlt (hu n hn)
    split
    next heq =>
      refine List.pairwise_cons.mpr ⟨fun n hn => ?_, hrest⟩
      show t.rank < n
      rw [heq]
      exact hu n hn
    next hle hne =>
      refine List.pairwise_cons.mpr ⟨?_, ih hrest⟩
      intro n hn
      rcases rank_mem_setEntry.mp hn with rfl | hn
      · show u.rank < t.rank; omega
      · exact hu n hn

/-- The answers with the one of a target set. -/
def insert (t : Target) (a : Answer) (answers : Answers) : Answers where
  entries := setEntry t a answers.entries
  ascending := ascending_setEntry t a answers.ascending

/-- The answers that a list gives; where it names a target twice, the later entry counts. -/
def ofList (list : List (Target × Answer)) : Answers :=
  list.foldl (fun answers (t, a) => answers.insert t a) empty

/-- The answer of a target, if it has one. -/
def get? (answers : Answers) (t : Target) : Option Answer :=
  answers.entries.lookup t

theorem get?_empty (t : Target) : empty.get? t = none := rfl

theorem lookup_setEntry (t u : Target) (a : Answer) (l : List (Target × Answer)) :
    (setEntry t a l).lookup u = if u = t then some a else l.lookup u := by
  induction l with
  | nil => by_cases h : u = t <;> simp [setEntry, List.lookup_cons, beq_false_of_ne, h]
  | cons head rest ih =>
    obtain ⟨v, b⟩ := head
    rw [setEntry]
    split
    · by_cases h : u = t <;> simp [List.lookup_cons, beq_false_of_ne, h]
    split
    next heq =>
      obtain rfl := Target.rank_injective heq
      by_cases h : u = t <;> simp [List.lookup_cons, beq_false_of_ne, h]
    next hne =>
      have hvt : v ≠ t := fun h => hne (by rw [h])
      rw [List.lookup_cons, List.lookup_cons, ih]
      by_cases h : u = v
      · subst h; simp [hvt]
      · simp [beq_false_of_ne h]

/-- Setting the answer of one target leaves those of the others. -/
theorem get?_insert (t u : Target) (a : Answer) (answers : Answers) :
    (answers.insert t a).get? u = if u = t then some a else answers.get? u :=
  lookup_setEntry t u a answers.entries

end Answers

/-- Whatever carries out queries over a world. -/
abbrev Engine (σ : Type) : Type := Query → Run σ Answers

end EcuQuiet
