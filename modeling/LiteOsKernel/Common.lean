import LiteOsKernel.Lib.Word

/-! Return codes, page constants and the rounding functions shared by the kernel modules. -/
namespace LiteOsKernel

def LOS_OK : Nat := 0
def LOS_NOK : Nat := 1
def OS_ERROR : Nat := 0xFFFFFFFF
def PAGE_SHIFT : Nat := 12
def PAGE_SIZE : Nat := 4096

/-- The largest destination that memcpy_s and memset_s take. -/
def SECUREC_MEM_MAX_LEN : Nat := 0x7FFFFFFF

/-- ROUNDUP of los_vm_common.h on words: the sum wraps around before the mask. -/
def roundup (a b : Nat) : Nat := Word.add a (Word.sub b 1) &&& Word.not (Word.sub b 1)

theorem roundup_two_pow {n k : Nat} (hk : k < 32) (hn : n + 2^k ≤ 2^32) : roundup n (2^k) = (n + 2^k - 1)/2^k*2^k := by
  have hk0 := Nat.two_pow_pos k
  rw [roundup, Word.sub_eq (show 1 ≤ 2^k from hk0), Word.add_eq (by omega), Word.and_not_low (by omega) (by omega),
    Nat.add_sub_assoc hk0]

/-- LOS_Align rounds up, and down where rounding up would wrap around. -/
def losAlign (addr boundary : Nat) : Nat :=
  if addr < Word.sub (Word.add addr boundary) 1 then
    Word.sub (Word.add addr boundary) 1 &&& Word.not (Word.sub boundary 1)
  else addr &&& Word.not (Word.sub boundary 1)

theorem losAlign_two_pow {n k : Nat} (h0 : 0 < k) (hk : k < 32) (hn : n + 2^k < 2^32) :
    losAlign n (2^k) = (n + 2^k - 1)/2^k*2^k := by
  have hone : 1 < 2^k := Nat.one_lt_two_pow h0.ne'
  have hsum : Word.sub (Word.add n (2^k)) 1 = n + 2^k - 1 := by
    rw [Word.add_eq hn, Word.sub_eq (by omega)]
  have hmask : Word.sub (2^k) 1 = 2^k - 1 := Word.sub_eq (by omega)
  rw [losAlign, hsum, if_pos (by omega), hmask, Word.and_not_low (by omega) (by omega)]

end LiteOsKernel
