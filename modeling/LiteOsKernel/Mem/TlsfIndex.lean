import LiteOsKernel.Mem.Tlsf

/-! Arithmetic of the TLSF heap: the flag bits of sizeAndFlag, request rounding,
the size classes and the bitmap search over them. -/
namespace LiteOsKernel.Mem.Tlsf
open LiteOsKernel

-- Flags

theorem getSize_eq (sf : Nat) : getSize sf = sf % 2^29 := by
  rw [getSize, show Word.not _ = 2^29 - 1 by decide]
  exact Nat.and_two_pow_sub_one_eq_mod sf 29

theorem getUsedFlag_eq_zero {sf : Nat} (h : sf < 2^32) : getUsedFlag sf = 0 ↔ sf < 2^31 := by
  rw [getUsedFlag, show OS_MEM_NODE_USED_FLAG = 2^31 from rfl, Word.and_two_pow_eq_zero]
  omega

theorem getAlignedFlag_eq_zero (sf : Nat) : getAlignedFlag sf = 0 ↔ sf/2^30%2 = 0 :=
  Word.and_two_pow_eq_zero sf 30

theorem getLastFlag_eq_zero (sf : Nat) : getLastFlag sf = 0 ↔ sf/2^29%2 = 0 :=
  Word.and_two_pow_eq_zero sf 29

theorem getAlignedGapsize_eq {g : Nat} (h : g < 2^30) : getAlignedGapsize (2^30 + g) = g := by
  rw [getAlignedGapsize]
  apply Nat.eq_of_testBit_eq
  intro i
  rw [Nat.testBit_and, Word.testBit_not (by decide), show OS_MEM_NODE_ALIGNED_FLAG = 2^30 from rfl,
    Nat.testBit_two_pow]
  rcases Nat.lt_trichotomy i 30 with hi | rfl | hi
  · rw [show 2^30 + g = 2^30*1 + g by omega, Nat.testBit_two_pow_mul_add _ h, if_pos hi]
    simp [show i < 32 by omega, show ¬30 = i by omega]
  · simp [Nat.testBit_lt_two_pow h]
  · have hg : g.testBit i = false :=
      Nat.testBit_lt_two_pow (h.trans (Nat.pow_lt_pow_right (by norm_num) hi))
    have hs : (2^30 + g).testBit i = false := Nat.testBit_lt_two_pow
      (show 2^30 + g < 2^i from lt_of_lt_of_le (by omega) (Nat.pow_le_pow_right (by norm_num) hi))
    rw [hs, hg, Bool.false_and]

theorem or_used {sf : Nat} (h : sf < 2^31) : sf ||| OS_MEM_NODE_USED_FLAG = sf + 2^31 :=
  Word.or_two_pow_of_clear (k := 31) (by omega)

-- Requests

theorem osMemAlign_two_pow {x k : Nat} (hk : k < 32) (h : x + 2^k ≤ 2^32) :
    osMemAlign x (2^k) = Word.alignUp x (2^k) := by
  have hp : 0 < 2^k := Nat.two_pow_pos k
  have h2 : 2^k < 2^32 := Nat.pow_lt_pow_right (by norm_num) hk
  have h1 : Word.sub (Word.add x (2^k)) 1 = x + 2^k - 1 := by
    rcases Nat.lt_or_ge (x + 2^k) (2^32) with hlt | hge
    · rw [Word.add_eq hlt, Word.sub_eq (by omega)]
    · rw [show Word.add x (2^k) = 0 by rw [Word.add, show x + 2^k = 2^32 by omega, Nat.mod_self]]
      rw [show x + 2^k = 2^32 by omega, Word.sub_eq_of_lt (by norm_num), Nat.zero_add]
  rw [osMemAlign, h1, Word.sub_eq hp, Word.and_not_low (by omega) (by omega), Word.alignUp]

theorem osMemAlign_four {x : Nat} (h : x + 4 ≤ 2^32) : osMemAlign x 4 = (x+3)/4*4 :=
  osMemAlign_two_pow (k := 2) (by norm_num) h

theorem osMemIsAligned_four (a : Nat) : osMemIsAligned a 4 = true ↔ a%4 = 0 := by
  rw [osMemIsAligned, show Word.sub 4 1 = 2^2 - 1 from Word.sub_eq (by norm_num), Nat.and_two_pow_sub_one_eq_mod]
  simp

theorem osMemIsPowTwo_iff {b : Nat} (h0 : b ≠ 0) (h : b < 2^32) :
    osMemIsPowTwo b = true ↔ ∃ k < 32, b = 2^k := by
  rw [osMemIsPowTwo, Word.sub_eq (by omega), beq_iff_eq, Nat.and_sub_one_eq_zero_iff_isPowerOfTwo h0]
  constructor
  · rintro ⟨k,rfl⟩
    exact ⟨k,(Nat.pow_lt_pow_iff_right (by norm_num)).mp h,rfl⟩
  · rintro ⟨k,-,rfl⟩
    exact ⟨k,rfl⟩

-- Size classes

private theorem osMemFLS_eq {x : Nat} (h0 : x ≠ 0) (h : x < 2^32) : osMemFLS x = x.log2 := by
  have hl := Word.log2_lt h0 h
  rw [osMemFLS, Word.clz, if_neg h0, Word.sub_eq (by omega)]
  omega

theorem index_small {s : Nat} (h0 : 4 ≤ s) (h : s < 128) : osMemFreeListIndexGet s = s/4 - 1 := by
  simp only [osMemFreeListIndexGet, osMemFlGet, OS_MEM_SMALL_BUCKET_MAX_SIZE, h, if_true]
  rw [Nat.shiftRight_eq_div_pow, Word.sub_eq (by omega)]

private theorem eight_mul_div {s k : Nat} (hk : 2^k ≤ s) (hk' : s < 2^(k+1)) :
    8 ≤ 8*s/2^k ∧ 8*s/2^k < 16 := by
  have hp := Nat.two_pow_pos k
  rw [Nat.le_div_iff_mul_le hp, Nat.div_lt_iff_lt_mul hp]
  rw [pow_succ] at hk'
  omega

theorem index_large {s k : Nat} (hk : 2^k ≤ s) (hk' : s < 2^(k+1)) (h7 : 7 ≤ k) (h28 : k ≤ 28) :
    osMemFreeListIndexGet s = 8*k + 8*s/2^k - 33 := by
  have h128 : 2^7 ≤ 2^k := Nat.pow_le_pow_right (by norm_num) h7
  have h29 : 2^(k+1) ≤ 2^29 := Nat.pow_le_pow_right (by norm_num) (by omega)
  have hlog : s.log2 = k := (Nat.log2_eq_iff (by omega)).mpr ⟨hk,hk'⟩
  obtain ⟨hlo,hhi⟩ := eight_mul_div hk hk'
  have hsl : Word.shl s 3 = 8*s := by
    rw [Word.shl, Nat.shiftLeft_eq, Nat.mod_eq_of_lt (by omega)]
    omega
  have hadd : Word.add 31 ((k-7)*2^3) = 31 + (k-7)*2^3 := Word.add_eq (by omega)
  have hn : ¬s < 128 := by omega
  simp only [osMemFreeListIndexGet, osMemFlGet, osMemLog2, osMemSlGet, OS_MEM_SMALL_BUCKET_MAX_SIZE, hn,
    if_false, OS_MEM_SLI, OS_MEM_FREE_LIST_NUM, OS_MEM_SMALL_BUCKET_COUNT, OS_MEM_LARGE_START_BUCKET]
  rw [osMemFLS_eq (by omega) (by omega), hlog, hsl, Nat.shiftRight_eq_div_pow, Word.sub_eq hlo,
    Word.sub_eq h7, Word.shl, Nat.shiftLeft_eq, Nat.mod_eq_of_lt (by omega), hadd,
    Word.add_eq (by omega)]
  omega

theorem index_bounds {s : Nat} (h7 : 128 ≤ s) (h : s < 2^29) :
    ∃ k, 7 ≤ k ∧ k ≤ 28 ∧ 2^k ≤ s ∧ s < 2^(k+1) ∧ osMemFreeListIndexGet s = 8*k + 8*s/2^k - 33 := by
  have hk := Nat.log2_self_le (show s ≠ 0 by omega)
  have hk' : s < 2^(s.log2+1) := Nat.lt_log2_self
  have h1 : 7 ≤ s.log2 := by
    by_contra hc
    have := Nat.pow_le_pow_right (show 0 < 2 by norm_num) (show s.log2 + 1 ≤ 7 by omega)
    omega
  have h2 : s.log2 < 29 := (Nat.log2_lt (by omega)).mpr h
  exact ⟨s.log2,h1,by omega,hk,hk',index_large hk hk' h1 (by omega)⟩

theorem index_lt {s : Nat} (h4 : 4 ≤ s) (h : s < 2^29) : osMemFreeListIndexGet s < 207 := by
  by_cases hs : s < 128
  · rw [index_small h4 hs]
    omega
  · obtain ⟨k,h7,h28,hk,hk',he⟩ := index_bounds (not_lt.mp hs) h
    have := eight_mul_div hk hk'
    omega

/-- Size classes are ordered as sizes are. -/
theorem index_mono {s t : Nat} (h4 : 4 ≤ s) (hst : s ≤ t) (h : t < 2^29) :
    osMemFreeListIndexGet s ≤ osMemFreeListIndexGet t := by
  by_cases ht : t < 128
  · rw [index_small h4 (by omega), index_small (by omega) ht]
    omega
  obtain ⟨k,h7,-,hk,hk',he⟩ := index_bounds (not_lt.mp ht) h
  have hb := eight_mul_div hk hk'
  by_cases hs : s < 128
  · rw [index_small h4 hs]
    omega
  obtain ⟨j,-,-,hj,hj',hf⟩ := index_bounds (not_lt.mp hs) (by omega)
  have hc := eight_mul_div hj hj'
  have hjk : j ≤ k := by
    by_contra hlt
    have := Nat.pow_le_pow_right (show 0 < 2 by norm_num) (show k + 1 ≤ j by omega)
    omega
  rcases Nat.lt_or_eq_of_le hjk with hlt | rfl
  · omega
  · have := Nat.div_le_div_right (c := 2^j) (show 8*s ≤ 8*t by omega)
    omega

-- The search

private theorem osMemFFS_spec {m : Nat} (h0 : m ≠ 0) (h : m < 2^32) :
    osMemFFS m < 32 ∧ m.testBit (osMemFFS m) = true ∧ ∀ j < osMemFFS m, m.testBit j = false := by
  obtain ⟨k,hk,he,hb,hl⟩ := Word.and_neg_eq_two_pow 32 m (by omega) h
  have h1 : Word.add (Word.not m) 1 = 2^32 - m := by
    rw [Word.not, Word.add_eq (by omega)]
    omega
  have h2 : osMemFFS m = k := by
    rw [osMemFFS, h1, he, Word.clz_two_pow, Word.sub_eq (by omega)]
    omega
  rw [h2]
  exact ⟨hk,hb,hl⟩

theorem searchStart_small {s : Nat} (h0 : 4 ≤ s) (h : s < 128) : searchStart s = (s/4 - 1, 223) := by
  have := index_small h0 h
  simp only [osMemFreeListIndexGet, OS_MEM_SMALL_BUCKET_MAX_SIZE, h, if_true] at this
  simp only [searchStart, OS_MEM_SMALL_BUCKET_MAX_SIZE, h, if_true, this, OS_MEM_FREE_LIST_COUNT]

theorem searchStart_large {s : Nat} (h7 : 128 ≤ s) (h : s < 2^29) :
    searchStart s = (osMemFreeListIndexGet s + 1, osMemFreeListIndexGet s) := by
  have hi := index_lt (by omega) h
  have hn : ¬s < 128 := by omega
  have he : osMemFreeListIndexGet s = (searchStart s).2 := by
    simp only [searchStart, osMemFreeListIndexGet, OS_MEM_SMALL_BUCKET_MAX_SIZE, hn, if_false, Word.add]
    omega
  have h1 : (searchStart s).1 = Word.add (searchStart s).2 1 := by
    simp only [searchStart, OS_MEM_SMALL_BUCKET_MAX_SIZE, hn, if_false]
  rw [← he, Word.add_eq (by omega)] at h1
  exact Prod.ext h1 he.symm

/-- From 2^29 on the shift of OsMemSlGet loses the top bit of the size, and the search starts
eight classes too low. -/
theorem searchStart_huge {s : Nat} (h29 : 2^29 ≤ s) (h : s < 2^30 + 2^26) :
    searchStart s = (200 + (s - 2^29)/2^26, 199 + (s - 2^29)/2^26) := by
  have hn : ¬s < 128 := by omega
  obtain ⟨k,hk,hlog,hsl⟩ : ∃ k, (k = 29 ∧ s < 2^30 ∨ k = 30 ∧ 2^30 ≤ s) ∧ s.log2 = k ∧ Word.shl s 3 = 8*(s - 2^k) := by
    rcases Nat.lt_or_ge s (2^30) with h30 | h30
    · exact ⟨29,.inl ⟨rfl,h30⟩,(Nat.log2_eq_iff (by omega)).mpr ⟨h29,h30⟩,by rw [Word.shl, Nat.shiftLeft_eq]; omega⟩
    · exact ⟨30,.inr ⟨rfl,h30⟩,(Nat.log2_eq_iff (by omega)).mpr ⟨h30,by omega⟩,by rw [Word.shl, Nat.shiftLeft_eq]; omega⟩
  simp only [searchStart, osMemFlGet, osMemLog2, osMemSlGet, OS_MEM_SMALL_BUCKET_MAX_SIZE, hn, if_false,
    OS_MEM_SLI, OS_MEM_FREE_LIST_NUM, OS_MEM_SMALL_BUCKET_COUNT, OS_MEM_LARGE_START_BUCKET]
  rw [osMemFLS_eq (by omega) (by omega), hlog, hsl, Nat.shiftRight_eq_div_pow]
  rcases hk with ⟨rfl,h30⟩ | ⟨rfl,h30⟩
  all_goals
    rw [Word.sub_eq_of_lt (y := 8) (by omega), Word.sub_eq (by norm_num), Word.shl, Nat.shiftLeft_eq, Word.add,
      Word.add, Word.add, Prod.mk.injEq]
    omega

/-- From 2^29 on the class of a node is as many classes too low. -/
theorem index_wrapped {s : Nat} (h29 : 2^29 ≤ s) (h : s < 2^32) :
    (s < 2^30 ∧ osMemFreeListIndexGet s = 199 + (s - 2^29)/2^26) ∨
      (2^30 ≤ s ∧ 207 ≤ osMemFreeListIndexGet s ∧ osMemFreeListIndexGet s < 217 ∧
        (208 ≤ osMemFreeListIndexGet s → 2^30 + 2^27 ≤ s)) := by
  have hn : ¬s < 128 := by omega
  have hshl : Word.shl s 3 = 8*s%2^32 := by
    rw [Word.shl, Nat.shiftLeft_eq]
    omega
  have hindex : ∀ k, 29 ≤ k → k ≤ 31 → 2^k ≤ s → s < 2^(k+1) → 8*s%2^32/2^k < 8 →
      osMemFreeListIndexGet s = 8*k - 33 + 8*s%2^32/2^k := by
    intro k hk29 hk31 hk hk' hlt
    have hlog : s.log2 = k := (Nat.log2_eq_iff (by omega)).mpr ⟨hk,hk'⟩
    have hsub : Word.sub k 7 = k - 7 := Word.sub_eq (by omega)
    have hsl : Word.sub (8*s%2^32/2^k) 8 = 2^32 + 8*s%2^32/2^k - 8 := by
      rw [Word.sub_eq_of_lt hlt]
      omega
    have hshl7 : Word.shl (k - 7) 3 = (k - 7)*2^3 := by
      rw [Word.shl, Nat.shiftLeft_eq, Nat.mod_eq_of_lt (by omega)]
    simp only [osMemFreeListIndexGet, osMemFlGet, osMemLog2, osMemSlGet, OS_MEM_SMALL_BUCKET_MAX_SIZE, hn,
      if_false, OS_MEM_SLI, OS_MEM_FREE_LIST_NUM, OS_MEM_SMALL_BUCKET_COUNT, OS_MEM_LARGE_START_BUCKET]
    rw [osMemFLS_eq (by omega) (by omega), hlog, hshl, Nat.shiftRight_eq_div_pow, hsub, hsl, hshl7,
      Word.add_eq (x := 31) (by omega), Word.add]
    generalize 8*s%2^32/2^k = sl at hlt ⊢
    omega
  rcases Nat.lt_or_ge s (2^30) with h30 | h30
  · rw [hindex 29 (by norm_num) (by norm_num) h29 h30 (by omega)]
    omega
  · rcases Nat.lt_or_ge s (2^31) with h31 | h31
    · rw [hindex 30 (by norm_num) (by norm_num) h30 h31 (by omega)]
      omega
    · rw [hindex 31 (by norm_num) (by norm_num) h31 h (by omega)]
      omega

theorem index_lt_word {s : Nat} (h4 : 4 ≤ s) (h : s < 2^32) : osMemFreeListIndexGet s < 217 := by
  rcases Nat.lt_or_ge s (2^29) with h29 | h29
  · have := index_lt h4 h29
    omega
  · rcases index_wrapped h29 h with ⟨h1,h2⟩ | ⟨-,-,h2,-⟩ <;> omega

theorem searchStart_bounds {s : Nat} (h4 : 4 ≤ s) (h : s < 2^30 + 2^26) :
    (searchStart s).1 < 224 ∧ ((searchStart s).2 = 223 ∨ (searchStart s).2 < 223) := by
  rcases Nat.lt_or_ge s 128 with h128 | h128
  · rw [searchStart_small h4 h128]
    omega
  · rcases Nat.lt_or_ge s (2^29) with h29 | h29
    · have := index_lt h4 h29
      rw [searchStart_large h128 h29]
      omega
    · rw [searchStart_huge h29 h]
      omega

section Bitmap
variable {p : MemPool}

/-- Bit i of the free-list bitmap. -/
def bitSet (p : MemPool) (i : Nat) : Bool := (p.freeListBitmap (i/32)).testBit (i%32)

private theorem notEmptyIndex_eq {i : Nat} (hi : i < 224) : osMemNotEmptyIndexGet p i =
    if p.freeListBitmap (i/32) &&& Word.not (2^(i%32) - 1) ≠ 0 then
      osMemFFS (p.freeListBitmap (i/32) &&& Word.not (2^(i%32) - 1)) + i/32*32
    else OS_MEM_FREE_LIST_COUNT := by
  have h31 : i &&& 0x1F = i%32 := Nat.and_two_pow_sub_one_eq_mod i 5
  have hlow : i &&& Word.not 0x1F = i/32*32 := Word.and_not_low (k := 5) (by omega) (by norm_num)
  have hp : 2^(i%32) < 2^32 := Nat.pow_lt_pow_right (by norm_num) (Nat.mod_lt _ (by norm_num))
  have hone : Word.sub (Word.shl 1 (i%32)) 1 = 2^(i%32) - 1 := by
    rw [Word.shl, Nat.one_shiftLeft, Nat.mod_eq_of_lt hp, Word.sub_eq (Nat.two_pow_pos _)]
  simp only [osMemNotEmptyIndexGet, h31, hlow, hone, Nat.shiftRight_eq_div_pow]

private theorem testBit_mask (p : MemPool) (i j : Nat) :
    (p.freeListBitmap (i/32) &&& Word.not (2^(i%32) - 1)).testBit j =
      ((p.freeListBitmap (i/32)).testBit j && (decide (j < 32) && decide (i%32 ≤ j))) := by
  have hp : 2^(i%32) < 2^32 := Nat.pow_lt_pow_right (by norm_num) (Nat.mod_lt _ (by norm_num))
  rw [Nat.testBit_and, Word.testBit_not (by omega), Nat.testBit_two_pow_sub_one]
  congr 2
  rw [← decide_not, decide_eq_decide]
  omega

theorem notEmptyIndex_spec (hb : ∀ w, p.freeListBitmap w < 2^32) {i : Nat} (hi : i < 224)
    (h : osMemNotEmptyIndexGet p i ≠ OS_MEM_FREE_LIST_COUNT) :
    i ≤ osMemNotEmptyIndexGet p i ∧ osMemNotEmptyIndexGet p i < 224 ∧
      bitSet p (osMemNotEmptyIndexGet p i) = true ∧ ∀ k, i ≤ k → k < osMemNotEmptyIndexGet p i → bitSet p k = false := by
  rw [notEmptyIndex_eq hi] at h ⊢
  split at h
  case isFalse => exact absurd rfl h
  case isTrue hm =>
    rw [if_pos hm]
    obtain ⟨hf,hbit,hlow⟩ := osMemFFS_spec hm ((Nat.and_le_left).trans_lt (hb _))
    rw [testBit_mask] at hbit
    simp only [Bool.and_eq_true, decide_eq_true_eq] at hbit
    refine ⟨by omega,by omega,?_,fun k hk hkj => ?_⟩
    · rw [bitSet, Nat.add_mul_div_right _ _ (by norm_num), Nat.add_mul_mod_self_right, Nat.mod_eq_of_lt hf,
        Nat.div_eq_of_lt hf, Nat.zero_add]
      exact hbit.1
    · have hclear := hlow (k%32) (by omega)
      rw [testBit_mask, show decide (k%32 < 32) = true from decide_eq_true (by omega),
        show decide (i%32 ≤ k%32) = true from decide_eq_true (by omega), Bool.and_true, Bool.and_true] at hclear
      rw [bitSet, show k/32 = i/32 by omega, hclear]

/-- When nothing is found the rest of the word is clear up to its last index, which no list has. -/
theorem notEmptyIndex_none (hb : ∀ w, p.freeListBitmap w < 2^32) {i j : Nat} (hi : i < 224)
    (h : osMemNotEmptyIndexGet p i = OS_MEM_FREE_LIST_COUNT) (hij : i ≤ j) (hj : j < 223) (hw : j/32 = i/32) :
    bitSet p j = false := by
  rw [notEmptyIndex_eq hi] at h
  have hmask := testBit_mask p i (j%32)
  rw [show decide (j%32 < 32) = true from decide_eq_true (by omega),
    show decide (i%32 ≤ j%32) = true from decide_eq_true (by omega), Bool.and_true, Bool.and_true] at hmask
  rw [bitSet, hw, ← hmask]
  split at h
  case isTrue hm =>
    obtain ⟨hf,-,hlow⟩ := osMemFFS_spec hm ((Nat.and_le_left).trans_lt (hb _))
    rw [OS_MEM_FREE_LIST_COUNT] at h
    exact hlow _ (by omega)
  case isFalse hm => rw [not_not.mp hm, Nat.zero_testBit]

theorem findNextFrom_spec (hb : ∀ w, p.freeListBitmap w < 2^32) (fuel : Nat) : ∀ {i j : Nat},
    i%32 = 0 → findNextFrom p fuel i = some j → i ≤ j ∧ j < 224 ∧ bitSet p j = true ∧
      ∀ k, i ≤ k → k < j → bitSet p k = false := by
  induction fuel with
  | zero => intro i j _ h; simp [findNextFrom] at h
  | succ fuel ih =>
    intro i j hi h
    rw [findNextFrom, OS_MEM_FREE_LIST_COUNT, Nat.shiftRight_eq_div_pow] at h
    split at h
    case isFalse => simp at h
    case isTrue hlt =>
      simp only at h
      split at h
      case isTrue hm =>
        obtain ⟨hf,hbit,hlow⟩ := osMemFFS_spec hm (hb _)
        obtain rfl := Option.some.inj h
        refine ⟨by omega,by omega,?_,fun k hk hkj => ?_⟩
        · rw [bitSet, show (osMemFFS (p.freeListBitmap (i/2^5)) + i)/32 = i/2^5 by omega,
            show (osMemFFS (p.freeListBitmap (i/2^5)) + i)%32 = osMemFFS (p.freeListBitmap (i/2^5)) by omega]
          exact hbit
        · rw [bitSet, show k/32 = i/2^5 by omega]
          exact hlow _ (by omega)
      case isFalse hm =>
        obtain ⟨h1,h2,h3,h4⟩ := ih (by omega) h
        refine ⟨by omega,h2,h3,fun k hk hkj => ?_⟩
        rcases Nat.lt_or_ge k (i + 32) with hlt | hge
        · rw [bitSet, show k/32 = i/2^5 by omega, not_not.mp hm, Nat.zero_testBit]
        · exact h4 k hge hkj

theorem findNextFrom_none (fuel : Nat) : ∀ {i j : Nat}, i%32 = 0 → 224 ≤ i + 32*fuel →
    findNextFrom p fuel i = none → i ≤ j → j < 224 → bitSet p j = false := by
  induction fuel with
  | zero => intro i j _ hf _ h1 h2; omega
  | succ fuel ih =>
    intro i j hi hf h hij hj
    rw [findNextFrom, OS_MEM_FREE_LIST_COUNT, Nat.shiftRight_eq_div_pow, if_pos (by omega)] at h
    simp only at h
    split at h
    case isTrue => cases h
    case isFalse hm =>
      rcases Nat.lt_or_ge j (i + 32) with h1 | h1
      · rw [bitSet, show j/32 = i/2^5 by omega, not_not.mp hm, Nat.zero_testBit]
      · exact ih (by omega) (by omega) h h1 hj

end Bitmap

end LiteOsKernel.Mem.Tlsf
