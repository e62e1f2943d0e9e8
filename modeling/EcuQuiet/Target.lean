import EcuQuiet.Frame
import EcuQuiet.Text.Hex

/-!
# Targets

A target is one diagnostic endpoint: the identifier it receives requests on and, for a unit behind
a gateway, the extra address byte that opens every frame to and from it. Targets are ordered by
identifier, and a target without the extra byte comes before those with one.
-/

namespace EcuQuiet

/-- A diagnostic endpoint on a bus. -/
structure Target where
  address : UInt32
  subAddress : Option UInt8 := none
deriving DecidableEq

namespace Target

/-- The endpoint asked when nothing else is said. -/
instance : Inhabited Target := ⟨{ address := 0x7D0 }⟩

/-- The place of a target in the order of targets. -/
def rank (t : Target) : Nat :=
  t.address.toNat * 257 + t.subAddress.elim 0 (·.toNat + 1)

theorem rank_injective {a b : Target} (h : a.rank = b.rank) : a = b := by
  obtain ⟨a, s⟩ := a
  obtain ⟨b, t⟩ := b
  have hs : ∀ x : UInt8, x.toNat < 256 := fun x => x.toNat_lt
  have hbyte : ∀ x y : UInt8, x.toNat = y.toNat → x = y := fun _ _ => UInt8.toNat_inj.mp
  have hword : a.toNat = b.toNat → a = b := UInt32.toNat_inj.mp
  cases s with
  | none =>
    cases t with
    | none => simp only [rank, Option.elim] at h; rw [hword (by omega)]
    | some y => have := hs y; simp only [rank, Option.elim] at h; omega
  | some x =>
    have := hs x
    cases t with
    | none => simp only [rank, Option.elim] at h; omega
    | some y =>
      have := hs y
      simp only [rank, Option.elim] at h
      rw [hword (by omega), hbyte x y (by omega)]

/-- Targets in ascending order; equal ones stay next to each other. -/
def sorted (targets : List Target) : List Target :=
  targets.mergeSort fun a b => a.rank ≤ b.rank

/-- How a target is written in messages. -/
def text (t : Target) : String :=
  match t.subAddress with
  | none => Text.address t.address
  | some sub => Text.address t.address ++ " (sub 0x" ++ Text.hexByte sub ++ ")"

/-- What a frame says to the endpoint: its content after the extra address byte, and nothing when
that byte is missing or another one. -/
def content? (t : Target) (data : Bytes) : Option Bytes :=
  match t.subAddress, data with
  | none, data => some data
  | some _, [] => none
  | some sub, first :: rest => if first = sub then some rest else none

/-- Content with the extra address byte in front, as frames to and from the endpoint carry it. -/
def wrap (t : Target) (content : Bytes) : Bytes :=
  t.subAddress.toList ++ content

/-- What was wrapped for an endpoint is what it is told. -/
theorem content?_wrap (t : Target) (content : Bytes) :
    t.content? (t.wrap content) = some content := by
  obtain ⟨_, _ | sub⟩ := t <;> simp [content?, wrap]

end Target

end EcuQuiet
