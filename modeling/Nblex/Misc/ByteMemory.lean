import Mathlib.Data.List.Basic
import Mathlib.Data.Nat.Bitwise

/-!
# Bytes in a memory

A list of bytes lies in a memory from an address on. Numbers of sixteen and thirty-two bits lie
there with the high byte first.
-/

namespace Nblex

/-- The bytes lie in the memory from an address on. -/
def BytesAt (memory : Nat → UInt8) (offset : Nat) : List UInt8 → Prop
  | [] => True
  | first :: rest => memory offset = first ∧ BytesAt memory (offset + 1) rest

/-- The memory that begins with a list of bytes. -/
def memoryWith (bytes : List UInt8) (beyond : Nat → UInt8) (offset : Nat) : UInt8 :=
  bytes.getD offset (beyond offset)

/-- A number of sixteen bits, the high byte first. -/
def bigEndian16 (value : Nat) : List UInt8 := [UInt8.ofNat (value / 256), UInt8.ofNat value]

/-- A number of thirty-two bits. -/
def bigEndian32 (value : Nat) : List UInt8 := bigEndian16 (value / 65536) ++ bigEndian16 value

variable {memory : Nat → UInt8}

theorem bytesAt_append {first second : List UInt8} : ∀ {offset : Nat},
    BytesAt memory offset (first ++ second) ↔
      BytesAt memory offset first ∧ BytesAt memory (offset + first.length) second := by
  induction first with
  | nil =>
      intro offset
      exact ⟨fun lies => ⟨trivial, lies⟩, fun both => both.2⟩
  | cons head tail ih =>
      intro offset
      show (_ ∧ BytesAt memory (offset + 1) (tail ++ second)) ↔ (_ ∧ _) ∧ _
      rw [ih, List.length_cons, Nat.add_right_comm, and_assoc]
      rfl

/-- The byte at a place of the list. -/
theorem BytesAt.get {bytes : List UInt8} : ∀ {offset : Nat}, BytesAt memory offset bytes →
    ∀ (i : Nat) (inside : i < bytes.length), memory (offset + i) = bytes[i] := by
  induction bytes with
  | nil => exact fun _ _ inside => nomatch inside
  | cons head tail ih =>
      rintro offset ⟨first, rest⟩ (_ | i) inside
      · exact first
      · have next := ih rest i (Nat.lt_of_succ_lt_succ inside)
        rw [Nat.add_right_comm] at next
        exact next

/-- The bytes are got back by reading so many of them. -/
theorem BytesAt.map_range {bytes : List UInt8} : ∀ {offset : Nat}, BytesAt memory offset bytes →
    (List.range bytes.length).map (fun i => memory (offset + i)) = bytes := by
  intro offset lies
  apply List.ext_getElem
  · rw [List.length_map, List.length_range]
  · intro i _ inside
    rw [List.getElem_map, List.getElem_range]
    exact lies.get i inside

theorem bytesAt_memoryWith (before bytes after : List UInt8) (beyond : Nat → UInt8) :
    BytesAt (memoryWith (before ++ bytes ++ after) beyond) before.length bytes := by
  induction bytes generalizing before with
  | nil => exact trivial
  | cons head tail ih =>
      constructor
      · simp [memoryWith]
      · have next := ih (before ++ [head])
        rw [List.length_append] at next
        simpa using next

theorem bigEndian16_length (value : Nat) : (bigEndian16 value).length = 2 := rfl

theorem bigEndian32_length (value : Nat) : (bigEndian32 value).length = 4 := rfl

/-- A part of the bytes of which a memory has the first ones lies in it if it is among them. -/
theorem BytesAt.part {offset : Nat} {captured bytes : List UInt8}
    (lies : BytesAt memory offset captured) (isPrefix : captured <+: bytes)
    {before part after : List UInt8} (split : bytes = before ++ part ++ after)
    (inside : before.length + part.length ≤ captured.length) :
    BytesAt memory (offset + before.length) part := by
  have front : before ++ part <+: captured :=
    List.prefix_of_prefix_length_le (split ▸ List.prefix_append _ _) isPrefix
      (by rw [List.length_append]; exact inside)
  obtain ⟨rest, rfl⟩ := front
  exact (bytesAt_append.mp (bytesAt_append.mp lies).1).2

/-- The bytes of a number are those of its last sixteen bits. -/
theorem bigEndian16_mod (value : Nat) : bigEndian16 (value % 65536) = bigEndian16 value := by
  have byte : ∀ {n m : Nat}, n % 256 = m % 256 → UInt8.ofNat n = UInt8.ofNat m := by
    intro n m same
    refine UInt8.toNat_inj.mp ?_
    rw [UInt8.toNat_ofNat', UInt8.toNat_ofNat']
    exact same
  rw [bigEndian16, bigEndian16, byte (n := value % 65536) (m := value) (by omega),
    byte (n := value % 65536 / 256) (m := value / 256) (by omega)]

/-- A number is got back from its two bytes. -/
theorem bigEndian16_value {value : Nat} (small : value < 65536) :
    (UInt8.ofNat (value / 256)).toNat <<< 8 ||| (UInt8.ofNat value).toNat = value := by
  have high : (UInt8.ofNat (value / 256)).toNat = value / 256 := by
    rw [UInt8.toNat_ofNat']
    omega
  have low : (UInt8.ofNat value).toNat = value % 256 := UInt8.toNat_ofNat'
  have bits : value % 256 < 2 ^ 8 := Nat.mod_lt _ (by decide)
  rw [high, low, ← Nat.shiftLeft_add_eq_or_of_lt bits, Nat.shiftLeft_eq]
  omega

end Nblex
