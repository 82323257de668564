/-! # Byte strings

Frames, packets and tag content are lists of bytes. A 32-bit length field is written with its most
significant byte first.
-/
namespace NearField

abbrev Bytes := List UInt8

namespace Bytes

theorem forall_byte {p : UInt8 → Prop} (h : ∀ n : Fin 256, p (UInt8.ofNat n.val)) (b : UInt8) :
    p b := by
  have hb := h ⟨b.toNat, b.toNat_lt⟩
  rwa [UInt8.ofNat_toNat] at hb

theorem ofNat_eq_of_mod {n : Nat} {b : UInt8} (h : n % 256 = b.toNat) : UInt8.ofNat n = b := by
  apply UInt8.toNat_inj.mp
  rw [UInt8.toNat_ofNat']
  exact h

/-- The low 32 bits of a number, most significant byte first. -/
def word32 (n : Nat) : Bytes :=
  [UInt8.ofNat (n / 0x100_0000), UInt8.ofNat (n / 0x1_0000), UInt8.ofNat (n / 0x100), UInt8.ofNat n]

def value32 (a b c d : UInt8) : Nat :=
  a.toNat * 0x100_0000 + b.toNat * 0x1_0000 + c.toNat * 0x100 + d.toNat

theorem value32_lt (a b c d : UInt8) : value32 a b c d < 0x1_0000_0000 := by
  have ha := a.toNat_lt
  have hb := b.toNat_lt
  have hc := c.toNat_lt
  have hd := d.toNat_lt
  simp only [value32]
  omega

theorem value32_ofNat {n : Nat} (h : n < 0x1_0000_0000) :
    value32 (UInt8.ofNat (n / 0x100_0000)) (UInt8.ofNat (n / 0x1_0000)) (UInt8.ofNat (n / 0x100))
      (UInt8.ofNat n) = n := by
  simp only [value32, UInt8.toNat_ofNat']
  omega

theorem word32_value32 (a b c d : UInt8) : word32 (value32 a b c d) = [a, b, c, d] := by
  have ha := a.toNat_lt
  have hb := b.toNat_lt
  have hc := c.toNat_lt
  have hd := d.toNat_lt
  simp only [word32, value32, List.cons.injEq, and_true]
  refine ⟨?_, ?_, ?_, ?_⟩ <;> exact ofNat_eq_of_mod (by omega)

/-- The buffer with the bytes from position `start` on replaced by `data`. -/
def overwrite (buffer : Bytes) (start : Nat) (data : Bytes) : Bytes :=
  buffer.take start ++ data ++ buffer.drop (start + data.length)

theorem length_overwrite {buffer data : Bytes} {start : Nat}
    (h : start + data.length ≤ buffer.length) :
    (overwrite buffer start data).length = buffer.length := by
  simp only [overwrite, List.length_append, List.length_take, List.length_drop]
  omega

theorem overwrite_zero (buffer data : Bytes) :
    overwrite buffer 0 data = data ++ buffer.drop data.length := by
  simp [overwrite]

theorem overwrite_behind (front rest data : Bytes) :
    overwrite (front ++ rest) front.length data = front ++ data ++ rest.drop data.length := by
  simp [overwrite, List.drop_append,
    List.drop_eq_nil_of_le (Nat.le_add_right front.length data.length)]

theorem overwrite_between (front old rest data : Bytes) (h : old.length = data.length) :
    overwrite (front ++ old ++ rest) front.length data = front ++ data ++ rest := by
  rw [List.append_assoc, overwrite_behind, List.drop_left' h]

end Bytes
end NearField
