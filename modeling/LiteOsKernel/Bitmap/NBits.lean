import Mathlib.Data.List.GetD
import Mathlib.Data.Nat.Bitwise
import Mathlib.Data.Nat.Find

/-! Bitmaps of many words (los_bitmap.c): ranges of bits that are set and cleared, and the first clear bit. A word is a UINTPTR of the
32-bit port; none is an access outside the bitmap. -/
namespace LiteOsKernel.Bitmap

/-- UINTPTR. -/
abbrev Uintptr := BitVec 32

def BITMAP_BITS_PER_WORD : Nat := 32
def OS_BITMAP_WORD_MASK : Uintptr := BitVec.allOnes 32
def BITMAP_FIRST_WORD_MASK (start : Nat) : Uintptr := OS_BITMAP_WORD_MASK <<< (start % BITMAP_BITS_PER_WORD)
def BITMAP_LAST_WORD_MASK (nbits : Nat) : Uintptr :=
  if nbits % BITMAP_BITS_PER_WORD ≠ 0 then (1#32 <<< (nbits % BITMAP_BITS_PER_WORD)) - 1#32 else OS_BITMAP_WORD_MASK

/-- BITMAP_NUM_WORDS, in the 32-bit arithmetic of its operands. -/
def BITMAP_NUM_WORDS (x : Nat) : Nat := (x + BITMAP_BITS_PER_WORD - 1) % 2^32 / BITMAP_BITS_PER_WORD
def BITMAP_WORD (x : Nat) : Nat := x / BITMAP_BITS_PER_WORD

/-- An update of the word at p. -/
def updateWord (bitmap : List Uintptr) (p : Nat) (f : Uintptr → Uintptr) : Option (List Uintptr) :=
  if p < bitmap.length then some (bitmap.modify p f) else none

/-- The loop of LOS_BitmapSetNBits over whole words, and the word after it. -/
def setWords (size : Nat) : Nat → (numsSet bitsToSet : Nat) → (maskToSet : Uintptr) → (p : Nat) → List Uintptr → Option (List Uintptr)
  | 0, _, _, _, _, _ => none
  | fuel+1, numsSet, bitsToSet, maskToSet, p, bitmap =>
    if bitsToSet < numsSet then do
      let bitmap ← updateWord bitmap p (· ||| maskToSet)
      setWords size fuel (numsSet - bitsToSet) BITMAP_BITS_PER_WORD OS_BITMAP_WORD_MASK (p + 1) bitmap
    else if numsSet ≠ 0 then updateWord bitmap p (· ||| (maskToSet &&& BITMAP_LAST_WORD_MASK size))
    else some bitmap

/-- LOS_BitmapSetNBits. A round takes at least one bit. -/
def bitmapSetNBits (bitmap : List Uintptr) (start numsSet : Nat) : Option (List Uintptr) :=
  setWords ((start + numsSet) % 2^32) (numsSet + 1) numsSet (BITMAP_BITS_PER_WORD - start % BITMAP_BITS_PER_WORD)
    (BITMAP_FIRST_WORD_MASK start) (BITMAP_WORD start) bitmap

/-- The loop of LOS_BitmapClrNBits over whole words, and the word after it. -/
def clrWords (size : Nat) : Nat → (numsClear bitsToClear : Nat) → (maskToClear : Uintptr) → (p : Nat) → List Uintptr → Option (List Uintptr)
  | 0, _, _, _, _, _ => none
  | fuel+1, numsClear, bitsToClear, maskToClear, p, bitmap =>
    if bitsToClear ≤ numsClear then do
      let bitmap ← updateWord bitmap p (· &&& ~~~maskToClear)
      clrWords size fuel (numsClear - bitsToClear) BITMAP_BITS_PER_WORD OS_BITMAP_WORD_MASK (p + 1) bitmap
    else if numsClear ≠ 0 then updateWord bitmap p (· &&& ~~~(maskToClear &&& BITMAP_LAST_WORD_MASK size))
    else some bitmap

/-- LOS_BitmapClrNBits. -/
def bitmapClrNBits (bitmap : List Uintptr) (start numsClear : Nat) : Option (List Uintptr) :=
  clrWords ((start + numsClear) % 2^32) (numsClear + 1) numsClear (BITMAP_BITS_PER_WORD - start % BITMAP_BITS_PER_WORD)
    (BITMAP_FIRST_WORD_MASK start) (BITMAP_WORD start) bitmap

/-- __builtin_ffsl: one more than the index of the lowest set bit. -/
def ffsl (x : Uintptr) : Nat :=
  match (List.range BITMAP_BITS_PER_WORD).find? x.getLsbD with
  | some i => i + 1
  | none => 0

/-- Ffz, a UINT16. -/
def ffz (x : Uintptr) : Nat := (ffsl (~~~x) + (2^16 - 1)) % 2^16

/-- The loop of LOS_BitmapFfz from the word i on, n words before its end; bit is an INT32. -/
def ffzWords (bitmap : List Uintptr) (numBits : Nat) : (n i : Nat) → Option Int
  | 0, _ => some (-1)
  | n+1, i => do
    let x ← bitmap[i]?
    if x = OS_BITMAP_WORD_MASK then ffzWords bitmap numBits n (i + 1)
    else
      let bit := BitVec.ofNat 32 (i * BITMAP_BITS_PER_WORD + ffz x)
      if bit.toNat < numBits then some bit.toInt else some (-1)

/-- LOS_BitmapFfz. -/
def bitmapFfz (bitmap : List Uintptr) (numBits : Nat) : Option Int := ffzWords bitmap numBits (BITMAP_NUM_WORDS numBits) 0

/-- The bit k of a bitmap. -/
def bit (bitmap : List Uintptr) (k : Nat) : Bool :=
  (bitmap.getD (k / BITMAP_BITS_PER_WORD) 0).getLsbD (k % BITMAP_BITS_PER_WORD)

variable {bitmap bitmap' : List Uintptr} {start size p k : Nat}

private theorem getLsbD_word_mask (hk : k < BITMAP_BITS_PER_WORD) : OS_BITMAP_WORD_MASK.getLsbD k = true := by
  rw [OS_BITMAP_WORD_MASK, BitVec.getLsbD_allOnes]
  exact decide_eq_true hk

private theorem getLsbD_first_word_mask (hk : k < BITMAP_BITS_PER_WORD) :
    (OS_BITMAP_WORD_MASK <<< start).getLsbD k = decide (start ≤ k) := by
  rw [BitVec.getLsbD_shiftLeft, getLsbD_word_mask ((Nat.sub_le k start).trans_lt hk), decide_eq_true (show k < 32 from hk)]
  rw [Bool.true_and, Bool.and_true, ← decide_not, decide_eq_decide]
  exact not_lt

private theorem toNat_low_bits (hk : k < BITMAP_BITS_PER_WORD) : (1#32 <<< k - 1#32).toNat = 2^k - 1 := by
  have hpow : 2^k < 2^32 := Nat.pow_lt_pow_right (by decide) hk
  have hone : (1#32 <<< k).toNat = 2^k := by
    rw [BitVec.toNat_shiftLeft, Nat.shiftLeft_eq, BitVec.toNat_ofNat, Nat.mod_eq_of_lt (by decide : 1 < 2^32), Nat.one_mul,
      Nat.mod_eq_of_lt hpow]
  rw [BitVec.toNat_sub_of_le]
  · rw [hone]
    rfl
  · rw [BitVec.le_def, hone]
    exact Nat.two_pow_pos k

private theorem getLsbD_last_word_mask (hk : k < BITMAP_BITS_PER_WORD) :
    (BITMAP_LAST_WORD_MASK size).getLsbD k =
      decide (size % BITMAP_BITS_PER_WORD ≠ 0 → k < size % BITMAP_BITS_PER_WORD) := by
  rw [BITMAP_LAST_WORD_MASK]
  split
  next h =>
    rw [BitVec.getLsbD, toNat_low_bits (Nat.mod_lt _ (by decide)), Nat.testBit_two_pow_sub_one]
    simp [h]
  next h =>
    rw [getLsbD_word_mask hk]
    simp [not_not.mp h]

/-- The first and the last word of a range may be the same. -/
private theorem getLsbD_both_masks {numBits : Nat} (hend : start + numBits ≤ BITMAP_BITS_PER_WORD) (h0 : numBits ≠ 0)
    (hsize : size % BITMAP_BITS_PER_WORD = (start + numBits) % BITMAP_BITS_PER_WORD) (hk : k < BITMAP_BITS_PER_WORD) :
    ((OS_BITMAP_WORD_MASK <<< start) &&& BITMAP_LAST_WORD_MASK size).getLsbD k = decide (start ≤ k ∧ k < start + numBits) := by
  rw [BitVec.getLsbD_and, getLsbD_first_word_mask hk, getLsbD_last_word_mask hk, hsize, ← Bool.decide_and, decide_eq_decide]
  rw [BITMAP_BITS_PER_WORD] at *
  omega

/-- What an update of one word does to the bits. -/
private theorem bit_modify (f : Uintptr → Uintptr) (hp : p < bitmap.length) (k : Nat) :
    bit (bitmap.modify p f) k =
      if k / BITMAP_BITS_PER_WORD = p then (f (bitmap.getD p 0)).getLsbD (k % BITMAP_BITS_PER_WORD) else bit bitmap k := by
  rw [bit, List.getD_eq_getElem?_getD, List.getElem?_modify]
  split
  next h =>
    rw [← h, List.getElem?_eq_getElem hp, if_pos rfl, List.getD_eq_getElem?_getD, List.getElem?_eq_getElem hp]
    rfl
  next h =>
    rw [if_neg fun hk => h hk.symm, bit, List.getD_eq_getElem?_getD]
    simp

/-- A word is or-ed with a mask. -/
private theorem bit_modify_or (mask : Uintptr) (hp : p < bitmap.length) (k : Nat) :
    bit (bitmap.modify p (· ||| mask)) k =
      (bit bitmap k || decide (k / BITMAP_BITS_PER_WORD = p) && mask.getLsbD (k % BITMAP_BITS_PER_WORD)) := by
  rw [bit_modify _ hp]
  split
  next h => simp [bit, h]
  next h => simp [h]

/-- A word is and-ed with the complement of a mask. -/
private theorem bit_modify_and_not (mask : Uintptr) (hp : p < bitmap.length) (k : Nat) :
    bit (bitmap.modify p (· &&& ~~~mask)) k =
      (bit bitmap k && !(decide (k / BITMAP_BITS_PER_WORD = p) && mask.getLsbD (k % BITMAP_BITS_PER_WORD))) := by
  have hk : k % BITMAP_BITS_PER_WORD < 32 := Nat.mod_lt _ (by decide)
  rw [bit_modify _ hp]
  split
  next h => simp [bit, h, hk]
  next h => simp [h]

/-- The part of a word from a bit on. -/
private theorem word_part {n : Nat} (hend : start + n ≤ BITMAP_BITS_PER_WORD) :
    (decide (k / BITMAP_BITS_PER_WORD = p) && decide (start ≤ k % BITMAP_BITS_PER_WORD ∧ k % BITMAP_BITS_PER_WORD < start + n)) =
      decide (BITMAP_BITS_PER_WORD * p + start ≤ k ∧ k < BITMAP_BITS_PER_WORD * p + start + n) := by
  rw [← Bool.decide_and, decide_eq_decide]
  rw [BITMAP_BITS_PER_WORD] at *
  omega

/-- The rest of a word from a bit on. -/
private theorem word_rest (hs : start ≤ BITMAP_BITS_PER_WORD) :
    (decide (k / BITMAP_BITS_PER_WORD = p) && decide (start ≤ k % BITMAP_BITS_PER_WORD)) =
      decide (BITMAP_BITS_PER_WORD * p + start ≤ k ∧ k < BITMAP_BITS_PER_WORD * (p + 1)) := by
  rw [← Bool.decide_and, decide_eq_decide]
  rw [BITMAP_BITS_PER_WORD] at *
  omega

/-- From the bit start of the word p on, numsSet bits are set. -/
private theorem setWords_bits (size : Nat) : ∀ fuel numsSet start p bitmap, numsSet < fuel → start < BITMAP_BITS_PER_WORD →
    BITMAP_BITS_PER_WORD * p + start + numsSet ≤ BITMAP_BITS_PER_WORD * bitmap.length →
    size % BITMAP_BITS_PER_WORD = (start + numsSet) % BITMAP_BITS_PER_WORD →
    ∃ bitmap', setWords size fuel numsSet (BITMAP_BITS_PER_WORD - start) (OS_BITMAP_WORD_MASK <<< start) p bitmap = some bitmap' ∧
      bitmap'.length = bitmap.length ∧ ∀ k, bit bitmap' k =
        (bit bitmap k || decide (BITMAP_BITS_PER_WORD * p + start ≤ k ∧ k < BITMAP_BITS_PER_WORD * p + start + numsSet)) := by
  intro fuel
  induction fuel with
  | zero => intro _ _ _ _ hfuel; omega
  | succ fuel ih =>
    intro numsSet start p bitmap hfuel hstart hin hsize
    have hpos : 0 < BITMAP_BITS_PER_WORD := by decide
    have hmod : ∀ k, k % BITMAP_BITS_PER_WORD < BITMAP_BITS_PER_WORD := fun k => Nat.mod_lt k hpos
    have hp : numsSet ≠ 0 → p < bitmap.length := fun h0 => Nat.lt_of_mul_lt_mul_left (a := BITMAP_BITS_PER_WORD) (by omega)
    rw [setWords]
    split_ifs with hloop h0
    · -- the rest of this word, then the bits from the next one on
      have hp := hp (by omega)
      have hlen : (bitmap.modify p (· ||| (OS_BITMAP_WORD_MASK <<< start))).length = bitmap.length := List.length_modify ..
      obtain ⟨bitmap',hrun,hlen',hbits⟩ := ih (numsSet - (BITMAP_BITS_PER_WORD - start)) 0 (p + 1)
        (bitmap.modify p (· ||| (OS_BITMAP_WORD_MASK <<< start)))
        (by omega) hpos (by rw [hlen, Nat.mul_succ]; omega) (by rw [BITMAP_BITS_PER_WORD] at *; omega)
      rw [BitVec.shiftLeft_zero] at hrun
      refine ⟨bitmap',by rw [updateWord, if_pos hp]; exact hrun,hlen'.trans hlen,fun k => ?_⟩
      rw [hbits, bit_modify_or _ hp, getLsbD_first_word_mask (hmod k), word_rest hstart.le, Bool.or_assoc, ← Bool.decide_or]
      congr 2
      rw [eq_iff_iff, Nat.mul_succ]
      omega
    · have hp := hp h0
      refine ⟨_,by rw [updateWord, if_pos hp],List.length_modify ..,fun k => ?_⟩
      rw [bit_modify_or _ hp, getLsbD_both_masks (by omega) h0 hsize (hmod k), word_part (by omega)]
    · refine ⟨bitmap,rfl,rfl,fun k => ?_⟩
      have hnone : ¬(BITMAP_BITS_PER_WORD * p + start ≤ k ∧ k < BITMAP_BITS_PER_WORD * p + start + numsSet) := by omega
      rw [decide_eq_false hnone, Bool.or_false]

/-- From the bit start of the word p on, numsClear bits are cleared; the round for a whole word is also the last one. -/
private theorem clrWords_bits (size : Nat) : ∀ fuel numsClear start p bitmap, numsClear < fuel → start < BITMAP_BITS_PER_WORD →
    BITMAP_BITS_PER_WORD * p + start + numsClear ≤ BITMAP_BITS_PER_WORD * bitmap.length →
    size % BITMAP_BITS_PER_WORD = (start + numsClear) % BITMAP_BITS_PER_WORD →
    ∃ bitmap', clrWords size fuel numsClear (BITMAP_BITS_PER_WORD - start) (OS_BITMAP_WORD_MASK <<< start) p bitmap = some bitmap' ∧
      bitmap'.length = bitmap.length ∧ ∀ k, bit bitmap' k =
        (bit bitmap k && !decide (BITMAP_BITS_PER_WORD * p + start ≤ k ∧ k < BITMAP_BITS_PER_WORD * p + start + numsClear)) := by
  intro fuel
  induction fuel with
  | zero => intro _ _ _ _ hfuel; omega
  | succ fuel ih =>
    intro numsClear start p bitmap hfuel hstart hin hsize
    have hpos : 0 < BITMAP_BITS_PER_WORD := by decide
    have hmod : ∀ k, k % BITMAP_BITS_PER_WORD < BITMAP_BITS_PER_WORD := fun k => Nat.mod_lt k hpos
    have hp : numsClear ≠ 0 → p < bitmap.length := fun h0 => Nat.lt_of_mul_lt_mul_left (a := BITMAP_BITS_PER_WORD) (by omega)
    rw [clrWords]
    split_ifs with hloop h0
    · have hp := hp (by omega)
      have hlen : (bitmap.modify p (· &&& ~~~(OS_BITMAP_WORD_MASK <<< start))).length = bitmap.length := List.length_modify ..
      obtain ⟨bitmap',hrun,hlen',hbits⟩ := ih (numsClear - (BITMAP_BITS_PER_WORD - start)) 0 (p + 1)
        (bitmap.modify p (· &&& ~~~(OS_BITMAP_WORD_MASK <<< start)))
        (by omega) hpos (by rw [hlen, Nat.mul_succ]; omega) (by rw [BITMAP_BITS_PER_WORD] at *; omega)
      rw [BitVec.shiftLeft_zero] at hrun
      refine ⟨bitmap',by rw [updateWord, if_pos hp]; exact hrun,hlen'.trans hlen,fun k => ?_⟩
      rw [hbits, bit_modify_and_not _ hp, getLsbD_first_word_mask (hmod k), word_rest hstart.le, Bool.and_assoc, ← Bool.not_or, ← Bool.decide_or]
      congr 3
      rw [eq_iff_iff, Nat.mul_succ]
      omega
    · have hp := hp h0
      refine ⟨_,by rw [updateWord, if_pos hp],List.length_modify ..,fun k => ?_⟩
      rw [bit_modify_and_not _ hp, getLsbD_both_masks (by omega) h0 hsize (hmod k), word_part (by omega)]
    · refine ⟨bitmap,rfl,rfl,fun k => ?_⟩
      have hnone : ¬(BITMAP_BITS_PER_WORD * p + start ≤ k ∧ k < BITMAP_BITS_PER_WORD * p + start + numsClear) := by omega
      rw [decide_eq_false hnone, Bool.not_false, Bool.and_true]

/-- Ffz finds the lowest clear bit of a word that has one. -/
private theorem ffz_spec {x : Uintptr} (hx : x ≠ OS_BITMAP_WORD_MASK) :
    ffz x < BITMAP_BITS_PER_WORD ∧ x.getLsbD (ffz x) = false ∧ ∀ j < ffz x, x.getLsbD j = true := by
  rw [ffz, ffsl]
  cases hfind : (List.range BITMAP_BITS_PER_WORD).find? (~~~x).getLsbD with
  | none =>
    refine absurd (BitVec.eq_of_getLsbD_eq fun k hk => ?_) hx
    have hclear := List.find?_eq_none.mp hfind k (List.mem_range.mpr hk)
    rw [BitVec.getLsbD_not, decide_eq_true hk, Bool.true_and, Bool.not_eq_true, Bool.not_eq_false'] at hclear
    rw [hclear, getLsbD_word_mask hk]
  | some i =>
    obtain ⟨hi,hmem,hbelow⟩ := List.find?_range_eq_some.mp hfind
    have hlt : i < 32 := List.mem_range.mp hmem
    have hval : (i + 1 + (2^16 - 1)) % 2^16 = i := by omega
    simp only [hval]
    rw [BitVec.getLsbD_not, decide_eq_true hlt, Bool.true_and, Bool.not_eq_true'] at hi
    refine ⟨hlt,hi,fun j hj => ?_⟩
    have hset := hbelow j hj
    rwa [BitVec.getLsbD_not, decide_eq_true (hj.trans hlt), Bool.true_and, Bool.not_not] at hset

/-- The least index below numBits with a clear bit, as an INT32 has it, or -1. -/
def FirstClear (bitmap : List Uintptr) (numBits : Nat) (ret : Int) : Prop :=
  (ret = -1 ∧ ∀ k < numBits, bit bitmap k = true) ∨
    ∃ k < numBits, ret = (BitVec.ofNat 32 k).toInt ∧ bit bitmap k = false ∧ ∀ j < k, bit bitmap j = true

/-- The bits of the word i are those from 32·i on. -/
private theorem bit_of_word {i j : Nat} {x : Uintptr} (hx : bitmap[i]? = some x) (hj : j < BITMAP_BITS_PER_WORD) :
    bit bitmap (BITMAP_BITS_PER_WORD * i + j) = x.getLsbD j := by
  have hdiv : (BITMAP_BITS_PER_WORD * i + j) / BITMAP_BITS_PER_WORD = i := by
    rw [Nat.mul_add_div (by decide), Nat.div_eq_of_lt hj, Nat.add_zero]
  rw [bit, hdiv, Nat.mul_add_mod, Nat.mod_eq_of_lt hj, List.getD_eq_getElem?_getD, hx]
  rfl

/-- With the words before it, the first bits of a word are set. -/
private theorem full_of_word {i n : Nat} {x : Uintptr} (hx : bitmap[i]? = some x) (hn : n ≤ BITMAP_BITS_PER_WORD)
    (hfull : ∀ k < BITMAP_BITS_PER_WORD * i, bit bitmap k = true) (hset : ∀ j < n, x.getLsbD j = true) :
    ∀ k < BITMAP_BITS_PER_WORD * i + n, bit bitmap k = true := by
  intro k hk
  by_cases hlow : k < BITMAP_BITS_PER_WORD * i
  · exact hfull k hlow
  · obtain ⟨j,rfl⟩ := Nat.exists_eq_add_of_le (not_lt.mp hlow)
    have hj : j < n := Nat.lt_of_add_lt_add_left hk
    rw [bit_of_word hx (hj.trans_le hn), hset j hj]

/-- The words before i are full, those from i on reach beyond the last bit. -/
private theorem ffzWords_first {numBits : Nat} : ∀ n i, i + n ≤ bitmap.length → BITMAP_BITS_PER_WORD * (i + n) ≤ 2^32 →
    numBits ≤ BITMAP_BITS_PER_WORD * (i + n) → (∀ k < BITMAP_BITS_PER_WORD * i, bit bitmap k = true) →
    ∃ ret, ffzWords bitmap numBits n i = some ret ∧ FirstClear bitmap numBits ret := by
  intro n
  induction n with
  | zero => exact fun i _ _ hend hfull => ⟨-1,rfl,.inl ⟨rfl,fun k hk => hfull k (hk.trans_le hend)⟩⟩
  | succ n ih =>
    intro i hlen hmax hend hfull
    obtain ⟨x,hx⟩ : ∃ x, bitmap[i]? = some x := ⟨_,List.getElem?_eq_getElem (Nat.lt_of_lt_of_le (by omega) hlen)⟩
    rw [ffzWords, hx, Option.bind_eq_bind, Option.bind_some]
    by_cases hall : x = OS_BITMAP_WORD_MASK
    · rw [if_pos hall]
      have hset : ∀ j < BITMAP_BITS_PER_WORD, x.getLsbD j = true := fun j hj => by rw [hall, getLsbD_word_mask hj]
      rw [← Nat.succ_add_eq_add_succ] at hlen hmax hend
      refine ih (i + 1) hlen hmax hend ?_
      rw [Nat.mul_succ]
      exact full_of_word hx (Nat.le_refl _) hfull hset
    · rw [if_neg hall]
      obtain ⟨hlt,hclear,hbelow⟩ := ffz_spec hall
      have hset := full_of_word hx hlt.le hfull hbelow
      have hk : BITMAP_BITS_PER_WORD * i + ffz x < 2^32 := by
        refine Nat.lt_of_lt_of_le ?_ hmax
        rw [← Nat.add_assoc, Nat.mul_succ, Nat.mul_add]
        omega
      have hval : (BitVec.ofNat 32 (i * BITMAP_BITS_PER_WORD + ffz x)).toNat = BITMAP_BITS_PER_WORD * i + ffz x := by
        rw [BitVec.toNat_ofNat, Nat.mul_comm, Nat.mod_eq_of_lt hk]
      simp only [hval]
      split
      next hnum => exact ⟨_,rfl,.inr ⟨_,hnum,by rw [Nat.mul_comm],by rw [bit_of_word hx hlt, hclear],hset⟩⟩
      next hnum => exact ⟨-1,rfl,.inl ⟨rfl,fun k hk => hset k (by omega)⟩⟩

/-- The bits of the range are set, all the others are as they were, and no word outside the bitmap is touched. -/
def SetsRange (bitmap : List Uintptr) (start n : Nat) : Prop :=
  ∃ bitmap', bitmapSetNBits bitmap start n = some bitmap' ∧ bitmap'.length = bitmap.length ∧
    ∀ k, bit bitmap' k = if start ≤ k ∧ k < start + n then true else bit bitmap k

/-- The bits of the range are cleared, all the others are as they were, and no word outside the bitmap is touched. -/
def ClearsRange (bitmap : List Uintptr) (start n : Nat) : Prop :=
  ∃ bitmap', bitmapClrNBits bitmap start n = some bitmap' ∧ bitmap'.length = bitmap.length ∧
    ∀ k, bit bitmap' k = if start ≤ k ∧ k < start + n then false else bit bitmap k

/-- The least index with a clear bit, or -1 iff there is none. -/
def FfzLaw (bitmap : List Uintptr) (numBits : Nat) : Prop :=
  ∃ ret, bitmapFfz bitmap numBits = some ret ∧ (ret = -1 ↔ ∀ k < numBits, bit bitmap k = true) ∧
    ∀ k < numBits, bit bitmap k = false → (∀ j < k, bit bitmap j = true) → ret = k

/-- No bit is clear, or one is whose index an INT32 holds, and the number of words does not wrap around. -/
def FfzOk (bitmap : List Uintptr) (numBits : Nat) : Prop :=
  (∀ k < numBits, bit bitmap k = true) ∨
    numBits + BITMAP_BITS_PER_WORD ≤ 2^32 ∧ ∃ k < numBits, k < 2^31 ∧ bit bitmap k = false

private theorem setsRange (bitmap : List Uintptr) {n : Nat} (hin : start + n ≤ BITMAP_BITS_PER_WORD * bitmap.length) :
    SetsRange bitmap start n := by
  have hpos : 0 < BITMAP_BITS_PER_WORD := by decide
  have hstart : BITMAP_BITS_PER_WORD * (start / BITMAP_BITS_PER_WORD) + start % BITMAP_BITS_PER_WORD = start := Nat.div_add_mod ..
  obtain ⟨bitmap',hrun,hlen,hbits⟩ := setWords_bits ((start + n) % 2^32) (n + 1) n (start % BITMAP_BITS_PER_WORD)
    (start / BITMAP_BITS_PER_WORD) bitmap (Nat.lt_succ_self n) (Nat.mod_lt _ hpos) (by rwa [hstart])
    (by rw [BITMAP_BITS_PER_WORD]; omega)
  refine ⟨bitmap',hrun,hlen,fun k => ?_⟩
  rw [hbits, hstart]
  split_ifs with hk
  · rw [decide_eq_true hk, Bool.or_true]
  · rw [decide_eq_false hk, Bool.or_false]

private theorem clearsRange (bitmap : List Uintptr) {n : Nat} (hin : start + n ≤ BITMAP_BITS_PER_WORD * bitmap.length) :
    ClearsRange bitmap start n := by
  have hpos : 0 < BITMAP_BITS_PER_WORD := by decide
  have hstart : BITMAP_BITS_PER_WORD * (start / BITMAP_BITS_PER_WORD) + start % BITMAP_BITS_PER_WORD = start := Nat.div_add_mod ..
  obtain ⟨bitmap',hrun,hlen,hbits⟩ := clrWords_bits ((start + n) % 2^32) (n + 1) n (start % BITMAP_BITS_PER_WORD)
    (start / BITMAP_BITS_PER_WORD) bitmap (Nat.lt_succ_self n) (Nat.mod_lt _ hpos) (by rwa [hstart])
    (by rw [BITMAP_BITS_PER_WORD]; omega)
  refine ⟨bitmap',hrun,hlen,fun k => ?_⟩
  rw [hbits, hstart]
  split_ifs with hk
  · rw [decide_eq_true hk, Bool.not_true, Bool.and_false]
  · rw [decide_eq_false hk, Bool.not_false, Bool.and_true]

private theorem numWords_eq {numBits : Nat} (h : numBits + BITMAP_BITS_PER_WORD ≤ 2^32) :
    BITMAP_NUM_WORDS numBits = (numBits + BITMAP_BITS_PER_WORD - 1) / BITMAP_BITS_PER_WORD := by
  rw [BITMAP_NUM_WORDS, Nat.mod_eq_of_lt]
  rw [BITMAP_BITS_PER_WORD] at *
  omega

/-- The last 32 lengths have no words. -/
private theorem numWords_wraps {numBits : Nat} (hnum : numBits < 2^32) (h : ¬numBits + BITMAP_BITS_PER_WORD ≤ 2^32) :
    BITMAP_NUM_WORDS numBits = 0 := by
  rw [BITMAP_NUM_WORDS]
  rw [BITMAP_BITS_PER_WORD] at *
  omega

/-- Below the lengths that wrap around, the first clear bit is found. -/
private theorem bitmapFfz_first {numBits : Nat} (hlen : numBits ≤ BITMAP_BITS_PER_WORD * bitmap.length)
    (hnum : numBits + BITMAP_BITS_PER_WORD ≤ 2^32) :
    ∃ ret, bitmapFfz bitmap numBits = some ret ∧ FirstClear bitmap numBits ret := by
  rw [bitmapFfz, numWords_eq hnum]
  refine ffzWords_first _ 0 ?_ ?_ ?_ fun k hk => absurd hk (Nat.not_lt_zero k)
  all_goals
    rw [BITMAP_BITS_PER_WORD] at *
    omega

/-- An INT32 is negative from 2^31 on. -/
private theorem toInt_index {k : Nat} (hk : k < 2^32) : (BitVec.ofNat 32 k).toInt = k ↔ k < 2^31 := by
  rw [BitVec.toInt_eq_toNat_cond, BitVec.toNat_ofNat, Nat.mod_eq_of_lt hk]
  split_ifs <;> omega

private theorem toInt_index_ne {k : Nat} (hk : k + BITMAP_BITS_PER_WORD ≤ 2^32) : (BitVec.ofNat 32 k).toInt ≠ -1 := by
  rw [BITMAP_BITS_PER_WORD] at hk
  rw [BitVec.toInt_eq_toNat_cond, BitVec.toNat_ofNat, Nat.mod_eq_of_lt (by omega)]
  split_ifs <;> omega

/-- Of two first clear bits neither is below the other. -/
private theorem first_clear_unique {j : Nat} (hj : bit bitmap j = false) (hjs : ∀ i < j, bit bitmap i = true) (hk : bit bitmap k = false)
    (hks : ∀ i < k, bit bitmap i = true) : j = k := by
  rcases Nat.lt_trichotomy j k with h | h | h
  · exact absurd (hks j h) (by rw [hj]; decide)
  · exact h
  · exact absurd (hjs k h) (by rw [hk]; decide)

/-- There is a first clear bit below a clear one. -/
private theorem exists_first_clear (hk : bit bitmap k = false) : ∃ j ≤ k, bit bitmap j = false ∧ ∀ i < j, bit bitmap i = true := by
  have hex : ∃ j, bit bitmap j = false := ⟨k,hk⟩
  exact ⟨Nat.find hex,Nat.find_min' hex hk,Nat.find_spec hex,fun i hi => Bool.eq_true_of_not_eq_false (Nat.find_min hex hi)⟩

private theorem ffzLaw_iff {numBits : Nat} (hnum : numBits < 2^32) (hlen : numBits ≤ BITMAP_BITS_PER_WORD * bitmap.length) :
    FfzLaw bitmap numBits ↔ FfzOk bitmap numBits := by
  by_cases hfull : ∀ k < numBits, bit bitmap k = true
  · -- no bit is clear: whatever the loop sees, the answer is -1
    refine iff_of_true ⟨-1,?_,iff_of_true rfl hfull,fun k hk hclear _ => by rw [hfull k hk] at hclear; cases hclear⟩ (.inl hfull)
    by_cases hwrap : numBits + BITMAP_BITS_PER_WORD ≤ 2^32
    · obtain ⟨ret,hrun,⟨rfl,_⟩ | ⟨k,hk,_,hclear,_⟩⟩ := bitmapFfz_first hlen hwrap
      · exact hrun
      · rw [hfull k hk] at hclear
        cases hclear
    · rw [bitmapFfz, numWords_wraps hnum hwrap, ffzWords]
  · obtain ⟨k,hk,hkc⟩ : ∃ k < numBits, bit bitmap k = false := by
      push Not at hfull
      obtain ⟨k,hk,hkc⟩ := hfull
      exact ⟨k,hk,Bool.eq_false_of_not_eq_true hkc⟩
    obtain ⟨j,hjk,hjc,hjs⟩ := exists_first_clear hkc
    have hj : j < numBits := hjk.trans_lt hk
    constructor
    · rintro ⟨ret,hrun,hnone,hfirst⟩
      have hwrap : numBits + BITMAP_BITS_PER_WORD ≤ 2^32 := by
        by_contra hwrap
        rw [bitmapFfz, numWords_wraps hnum hwrap, ffzWords, Option.some_inj] at hrun
        exact hfull (hnone.mp hrun.symm)
      obtain ⟨ret',hrun',⟨_,hall⟩ | ⟨i,hi,hret,hic,his⟩⟩ := bitmapFfz_first hlen hwrap
      · exact absurd hall hfull
      · obtain rfl := first_clear_unique hic his hjc hjs
        rw [hrun, Option.some_inj, hret, hfirst i hj hjc hjs] at hrun'
        exact .inr ⟨hwrap,i,hj,(toInt_index (hj.trans hnum)).mp hrun'.symm,hjc⟩
    · rintro (hall | ⟨hwrap,i,_,hismall,hic⟩)
      · exact absurd hall hfull
      obtain ⟨ret,hrun,⟨_,hall⟩ | ⟨m,hm,hret,hmc,hms⟩⟩ := bitmapFfz_first hlen hwrap
      · exact absurd hall hfull
      obtain rfl := first_clear_unique hmc hms hjc hjs
      refine ⟨ret,hrun,iff_of_false ?_ hfull,fun k _ hkc hks => ?_⟩
      · rw [hret]
        exact toInt_index_ne (by omega)
      · -- the first clear bit is not above the one below 2^31
        obtain rfl := first_clear_unique hmc hms hkc hks
        have hle : m ≤ i := Nat.not_lt.mp fun hlt => by rw [hms i hlt] at hic; cases hic
        rw [hret, toInt_index (hm.trans hnum)]
        exact hle.trans_lt hismall

/-- The ranges are set and cleared as they should be. LOS_BitmapFfz finds the first clear bit iff an INT32 holds the index of a clear bit and
the number of words does not wrap around, or no bit is clear. -/
theorem bitmap_ranges_iff (bitmap : List Uintptr) {start n numBits : Nat} (hin : start + n ≤ BITMAP_BITS_PER_WORD * bitmap.length)
    (hnum : numBits < 2^32) (hlen : numBits ≤ BITMAP_BITS_PER_WORD * bitmap.length) :
    (SetsRange bitmap start n ∧ ClearsRange bitmap start n ∧ FfzLaw bitmap numBits) ↔ FfzOk bitmap numBits := by
  rw [ffzLaw_iff hnum hlen]
  exact ⟨fun h => h.2.2,fun h => ⟨setsRange bitmap hin,clearsRange bitmap hin,h⟩⟩

/-- A range from the middle of one word to the middle of the next, and a first clear bit in the second word. -/
theorem bitmap_ranges_two_words : SetsRange [OS_BITMAP_WORD_MASK,15] 28 9 ∧ ClearsRange [OS_BITMAP_WORD_MASK,15] 28 9 ∧
    FfzLaw [OS_BITMAP_WORD_MASK,15] 40 :=
  (bitmap_ranges_iff [OS_BITMAP_WORD_MASK,15] (by decide) (by decide) (by decide)).mpr (.inr ⟨by decide,36,by decide,by decide,by decide⟩)

/-- Words whose bits are all set. -/
private theorem bit_full_words {n : Nat} (rest : List Uintptr) (hk : k < BITMAP_BITS_PER_WORD * n) :
    bit (List.replicate n OS_BITMAP_WORD_MASK ++ rest) k = true := by
  have hdiv : k / BITMAP_BITS_PER_WORD < n := Nat.div_lt_of_lt_mul hk
  rw [bit, List.getD_eq_getElem?_getD, List.getElem?_append_left (by rwa [List.length_replicate]), List.getElem?_replicate, if_pos hdiv]
  exact getLsbD_word_mask (Nat.mod_lt _ (by decide))

/-- The first clear bit is at an index that an INT32 does not hold. -/
private theorem not_ffzOk_full_words {n : Nat} (hn : 2^31 ≤ BITMAP_BITS_PER_WORD * n) :
    ¬FfzOk (List.replicate n OS_BITMAP_WORD_MASK ++ [0]) (BITMAP_BITS_PER_WORD * n + 1) := by
  rintro (hall | ⟨_,k,_,hk,hclear⟩)
  · have hlast := hall (BITMAP_BITS_PER_WORD * n) (Nat.lt_succ_self _)
    rw [bit, Nat.mul_div_cancel_left n (by decide), List.getD_eq_getElem?_getD,
      List.getElem?_append_right (by rw [List.length_replicate]), List.length_replicate, Nat.sub_self, Nat.mul_mod_right] at hlast
    cases hlast
  · rw [bit_full_words _ (hk.trans_le hn)] at hclear
    cases hclear

/-- 2^26 full words and one word of zeros. -/
theorem ffz_negative_index : ¬FfzLaw (List.replicate (2^26) OS_BITMAP_WORD_MASK ++ [0]) (BITMAP_BITS_PER_WORD * 2^26 + 1) := by
  rw [ffzLaw_iff (by decide) (by rw [List.length_append, List.length_replicate]; decide)]
  exact not_ffzOk_full_words (by decide)

end LiteOsKernel.Bitmap
