/-!
# Bytes and their halves

Payloads are lists of bytes. Transport headers carry a kind in the high half of their first byte
and a count in its low half.
-/

namespace EcuQuiet

/-- The content of a frame or of a diagnostic message. -/
abbrev Bytes := List UInt8

/-- The high half of a byte, from 0 to 15. -/
def highHalf (b : UInt8) : Nat := b.toNat / 16

/-- The low half of a byte, from 0 to 15. -/
def lowHalf (b : UInt8) : Nat := b.toNat % 16

/-- The byte with the given halves; each is taken modulo 16. -/
def ofHalves (high low : Nat) : UInt8 := UInt8.ofNat (high % 16 * 16 + low % 16)

theorem lowHalf_lt (b : UInt8) : lowHalf b < 16 := by
  simp only [lowHalf]; omega

theorem toNat_ofHalves (high low : Nat) :
    (ofHalves high low).toNat = high % 16 * 16 + low % 16 := by
  rw [ofHalves, UInt8.toNat_ofNat']; omega

@[simp]
theorem highHalf_ofHalves (high low : Nat) : highHalf (ofHalves high low) = high % 16 := by
  rw [highHalf, toNat_ofHalves]; omega

@[simp]
theorem lowHalf_ofHalves (high low : Nat) : lowHalf (ofHalves high low) = low % 16 := by
  rw [lowHalf, toNat_ofHalves]; omega

end EcuQuiet
