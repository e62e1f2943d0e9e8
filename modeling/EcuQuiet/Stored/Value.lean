/-!
# Structured values

The values that a configuration file is made of: texts, truth values, numbers, and lists and
records of values. Whole numbers are kept apart from numbers that were written with a fraction or
an exponent, because no setting is read from the latter.
-/

namespace EcuQuiet.Stored

/-- A structured value. -/
inductive Value
  | null
  | flag (value : Bool)
  | whole (value : Int)
  /-- A number with a fraction or an exponent: its digits and the power of ten they count. -/
  | fractional (digits exponent : Int)
  | text (value : String)
  | list (items : List Value)
  | record (fields : List (String × Value))

/-- Settings that can be written as structured values and read back. -/
class Storable (α : Type) where
  write : α → Value
  read? : Value → Option α

export Storable (write read?)

/-- A whole number from zero up to a bound. -/
def natural? (bound : Nat) : Value → Option Nat
  | .whole n => if 0 ≤ n ∧ n < bound then some n.toNat else none
  | _ => none

instance : Storable UInt8 where
  write n := .whole n.toNat
  read? v := (natural? 256 v).map UInt8.ofNat

instance : Storable UInt32 where
  write n := .whole n.toNat
  read? v := (natural? 4294967296 v).map UInt32.ofNat

instance : Storable Bool where
  write := .flag
  read?
    | .flag b => some b
    | _ => none

/-- A value that may be missing is null when it is. -/
instance {α : Type} [Storable α] : Storable (Option α) where
  write
    | none => .null
    | some a => write a
  read?
    | .null => some none
    | v => (read? v).map some

instance {α : Type} [Storable α] : Storable (List α) where
  write l := .list (l.map write)
  read?
    | .list items => items.mapM read?
    | _ => none

/-- Reads a choice among named alternatives: its name, or a record with the name as its only field
and null as its value. -/
def choice? {α : Type} (all : List α) (name : α → String) : Value → Option α
  | .text s => all.find? (name · = s)
  | .record [(s, .null)] => all.find? (name · = s)
  | _ => none

/-- The fields of a structure, by name in a record or by place in a list. A record may lack fields
and may have others besides; a list has at least `fewest` items and none beyond the last field. -/
def fields? (names : List String) (fewest : Nat) : Value → Option (List (Option Value))
  | .record fields => some (names.map fun name => List.lookup name fields)
  | .list items =>
    if fewest ≤ items.length ∧ items.length ≤ names.length then
      some ((List.range names.length).map fun place => items[place]?)
    else none
  | _ => none

/-- Reads a field that has to be there. -/
def required? {α : Type} [Storable α] : Option Value → Option α
  | some v => read? v
  | none => none

/-- Reads a field that may be left out. -/
def orElse? {α : Type} [Storable α] (missing : α) : Option Value → Option α
  | some v => read? v
  | none => some missing

end EcuQuiet.Stored
