/-!
# Sets of addresses

A finite set of bus addresses, kept as its ascending list, so that equal sets are equal values and
the list can be written as it stands.
-/

namespace EcuQuiet

/-- A finite set of addresses. -/
@[ext]
structure AddressSet where
  toList : List UInt32
  ascending : toList.Pairwise (· < ·)
deriving DecidableEq

namespace AddressSet

instance : Membership UInt32 AddressSet := ⟨fun s a => a ∈ s.toList⟩

instance (a : UInt32) (s : AddressSet) : Decidable (a ∈ s) :=
  inferInstanceAs (Decidable (a ∈ s.toList))

theorem mem_iff {a : UInt32} {s : AddressSet} : a ∈ s ↔ a ∈ s.toList := Iff.rfl

/-- The set without members. -/
def empty : AddressSet := ⟨[], .nil⟩

/-- Whether the set has no member. -/
def isEmpty (s : AddressSet) : Bool := s.toList.isEmpty

/-- An ascending list with one more member; a member it has already is not repeated. -/
def insertAscending (a : UInt32) : List UInt32 → List UInt32
  | [] => [a]
  | b :: rest => if a < b then a :: b :: rest else if a = b then b :: rest
      else b :: insertAscending a rest

theorem mem_insertAscending {a x : UInt32} {l : List UInt32} :
    x ∈ insertAscending a l ↔ x = a ∨ x ∈ l := by
  induction l with
  | nil => simp [insertAscending]
  | cons b rest ih =>
    rw [insertAscending]
    split
    · simp
    split
    next heq => subst heq; simp
    next => simp only [List.mem_cons, ih]; grind

theorem ascending_insertAscending (a : UInt32) {l : List UInt32} (h : l.Pairwise (· < ·)) :
    (insertAscending a l).Pairwise (· < ·) := by
  induction l with
  | nil => simp [insertAscending]
  | cons b rest ih =>
    obtain ⟨hb, hrest⟩ := List.pairwise_cons.mp h
    rw [insertAscending]
    split
    next hlt =>
      refine List.pairwise_cons.mpr ⟨?_, h⟩
      intro x hx
      rcases List.mem_cons.mp hx with rfl | hx
      · exact hlt
      · exact UInt32.lt_trans hlt (hb x hx)
    split
    next => exact h
    next hle hne =>
      refine List.pairwise_cons.mpr ⟨?_, ih hrest⟩
      intro x hx
      rcases mem_insertAscending.mp hx with rfl | hx
      · simp only [UInt32.lt_iff_toNat_lt, ← UInt32.toNat_inj] at hle hne ⊢; omega
      · exact hb x hx

/-- The set with one more member. -/
def insert (a : UInt32) (s : AddressSet) : AddressSet where
  toList := insertAscending a s.toList
  ascending := ascending_insertAscending a s.ascending

@[simp]
theorem mem_insert {a x : UInt32} {s : AddressSet} : x ∈ s.insert a ↔ x = a ∨ x ∈ s :=
  mem_insertAscending

/-- The members of a list, in whatever order and however often it holds them. -/
def ofList (l : List UInt32) : AddressSet :=
  l.foldr insert empty

@[simp]
theorem mem_ofList {x : UInt32} {l : List UInt32} : x ∈ ofList l ↔ x ∈ l := by
  induction l with
  | nil => simp [ofList, empty, mem_iff]
  | cons a rest ih => rw [ofList, List.foldr_cons, mem_insert]; simp [← ih, ofList]

theorem insertAscending_of_lt {a : UInt32} {l : List UInt32} (h : ∀ x ∈ l, a < x) :
    insertAscending a l = a :: l := by
  cases l with
  | nil => rfl
  | cons b rest => rw [insertAscending, if_pos (h b List.mem_cons_self)]

/-- A set is made from its own list. -/
theorem ofList_toList (s : AddressSet) : ofList s.toList = s := by
  obtain ⟨l, h⟩ := s
  apply AddressSet.ext
  show (ofList l).toList = l
  induction l with
  | nil => rfl
  | cons a rest ih =>
    obtain ⟨ha, hrest⟩ := List.pairwise_cons.mp h
    show insertAscending a (ofList rest).toList = _
    rw [ih hrest, insertAscending_of_lt ha]

end AddressSet

end EcuQuiet
