import Mathlib.Algebra.Group.Nat.Defs
import Mathlib.Data.List.Basic
import Mathlib.Logic.Function.Basic

/-! A memory of bytes: ranges of it that are read and written, and little-endian words of 32 bits. -/
namespace LiteOsKernel.Bytes

/-- The word at a place. -/
def get32 (m : Nat → UInt8) (a : Nat) : Nat :=
  (m a).toNat + 2^8 * (m (a+1)).toNat + 2^16 * (m (a+2)).toNat + 2^24 * (m (a+3)).toNat

/-- A word written at a place. -/
def set32 (m : Nat → UInt8) (a v : Nat) : Nat → UInt8 := fun i =>
  if i = a then UInt8.ofNat v
  else if i = a+1 then UInt8.ofNat (v / 2^8)
  else if i = a+2 then UInt8.ofNat (v / 2^16)
  else if i = a+3 then UInt8.ofNat (v / 2^24)
  else m i

variable {m m' : Nat → UInt8} {a b v : Nat}

theorem get32_congr (h : ∀ i, a ≤ i → i < a+4 → m i = m' i) : get32 m a = get32 m' a := by
  rw [get32, get32, h a (by omega) (by omega), h (a+1) (by omega) (by omega), h (a+2) (by omega) (by omega),
    h (a+3) (by omega) (by omega)]

/-- Words of the same bytes. -/
theorem get32_of_bytes (h : ∀ t < 4, m (a+t) = m' (b+t)) : get32 m a = get32 m' b := by
  have h0 := h 0 (by decide)
  rw [Nat.add_zero, Nat.add_zero] at h0
  rw [get32, get32, h0, h 1 (by decide), h 2 (by decide), h 3 (by decide)]

theorem get32_lt (m : Nat → UInt8) (a : Nat) : get32 m a < 2^32 := by
  have h0 := (m a).toNat_lt
  have h1 := (m (a+1)).toNat_lt
  have h2 := (m (a+2)).toNat_lt
  have h3 := (m (a+3)).toNat_lt
  rw [get32]
  omega

theorem set32_of_outside (h : b < a ∨ a+4 ≤ b) (v : Nat) : set32 m a v b = m b := by
  rw [set32, if_neg (by omega), if_neg (by omega), if_neg (by omega), if_neg (by omega)]

/-- A word that was written is read back. -/
theorem get32_set32 (h : v < 2^32) : get32 (set32 m a v) a = v := by
  have h0 : set32 m a v a = UInt8.ofNat v := if_pos rfl
  have h1 : set32 m a v (a+1) = UInt8.ofNat (v / 2^8) := by rw [set32, if_neg (by omega), if_pos rfl]
  have h2 : set32 m a v (a+2) = UInt8.ofNat (v / 2^16) := by rw [set32, if_neg (by omega), if_neg (by omega), if_pos rfl]
  have h3 : set32 m a v (a+3) = UInt8.ofNat (v / 2^24) := by
    rw [set32, if_neg (by omega), if_neg (by omega), if_neg (by omega), if_pos rfl]
  have hn : ∀ n, (UInt8.ofNat n).toNat = n % 2^8 := fun _ => rfl
  rw [get32, h0, h1, h2, h3, hn, hn, hn, hn]
  omega

/-- A word elsewhere stays. -/
theorem get32_set32_of_disjoint (h : a+4 ≤ b ∨ b+4 ≤ a) (v : Nat) : get32 (set32 m b v) a = get32 m a :=
  get32_congr fun _ h1 h2 => set32_of_outside (by omega) v

/-- The n bytes from pos on. -/
def bytes (m : Nat → UInt8) (pos n : Nat) : List UInt8 := (List.range n).map fun k => m (pos + k)

/-- The bytes xs are stored from pos on. -/
def store (m : Nat → UInt8) (pos : Nat) (xs : List UInt8) (a : Nat) : UInt8 :=
  if pos ≤ a ∧ a < pos + xs.length then xs.getD (a - pos) 0 else m a

@[simp] theorem length_bytes (m : Nat → UInt8) (pos n : Nat) : (bytes m pos n).length = n := by
  rw [bytes, List.length_map, List.length_range]

/-- A range that was stored at a place is that of the memory it was read from. -/
theorem store_bytes {pos n : Nat} (a : Nat) :
    store m pos (bytes m' b n) a = if pos ≤ a ∧ a < pos + n then m' (b + (a - pos)) else m a := by
  rw [store, length_bytes]
  by_cases ha : pos ≤ a ∧ a < pos + n
  · rw [if_pos ha, if_pos ha, List.getD_eq_getElem?_getD, bytes, List.getElem?_map, List.getElem?_range (by omega), Option.map_some,
      Option.getD_some]
  · rw [if_neg ha, if_neg ha]

/-- memcpy_s and memmove_s, with the size of the destination and the bytes: they copy what the destination has room for, if that is not larger
than limit. -/
def Copies (copyS : Nat → List UInt8 → Int × List UInt8) (limit : Nat) : Prop :=
  ∀ destMax src, destMax ≤ limit → 0 < src.length → src.length ≤ destMax → copyS destMax src = (0,src)

end LiteOsKernel.Bytes
