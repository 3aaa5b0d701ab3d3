import LiteOsKernel.Fs.BcacheGet

/-! The flags that BcacheSetFlag sets, and the law of the flags of a block. -/
namespace LiteOsKernel.Bcache
open LiteOsKernel LiteOsKernel.Bytes

variable {flag : List Flag} {i j k : Nat}

/-- What an update of one word does to the flags. -/
private theorem flagBit_modify (x : Flag) (hi : i < flag.length) (k : Nat) :
    flagBit (flag.modify i (· ||| x)) k =
      (flagBit flag k || decide (k / UNSIGNED_INTEGER_BITS = i) && x.getMsbD (k % UNSIGNED_INTEGER_BITS)) := by
  rw [flagBit, List.getD_eq_getElem?_getD, List.getElem?_modify]
  by_cases h : i = k / UNSIGNED_INTEGER_BITS
  · subst h
    rw [List.getElem?_eq_getElem hi]
    simp [flagBit, hi]
  · simp [flagBit, h, Ne.symm h]

/-- The word with one flag. -/
private theorem getMsbD_one_flag (hj : j < UNSIGNED_INTEGER_BITS) (k : Nat) :
    (1#32 <<< (UNINT_MAX_SHIFT_BITS - j)).getMsbD k = decide (k = j) := by
  rw [BitVec.getMsbD_shiftLeft, BitVec.getMsbD_one, decide_eq_true (show 0 < 32 by decide), Bool.and_true, decide_eq_decide]
  rw [UNINT_MAX_SHIFT_BITS]
  rw [UNSIGNED_INTEGER_BITS] at hj
  omega

/-- From the sector i·32 + j on, k flags are set. -/
private theorem setFlags_bits : ∀ k i j flag, j < UNSIGNED_INTEGER_BITS → UNSIGNED_INTEGER_BITS * i + j + k ≤ flags flag →
    ∃ flag', setFlags k i j flag = some flag' ∧ flag'.length = flag.length ∧ ∀ m, flagBit flag' m =
      (flagBit flag m || decide (UNSIGNED_INTEGER_BITS * i + j ≤ m ∧ m < UNSIGNED_INTEGER_BITS * i + j + k)) := by
  intro k
  induction k with
  | zero =>
    intro i j flag _ _
    refine ⟨flag,rfl,rfl,fun m => ?_⟩
    rw [decide_eq_false (by omega), Bool.or_false]
  | succ k ih =>
    intro i j flag hj hin
    have hi : i < flag.length := by
      rw [flags] at hin
      exact Nat.lt_of_mul_lt_mul_left (a := UNSIGNED_INTEGER_BITS) (by omega)
    have hlen : (flag.modify i (· ||| (1#32 <<< (UNINT_MAX_SHIFT_BITS - j)))).length = flag.length := List.length_modify ..
    have hone : ∀ m, flagBit (flag.modify i (· ||| (1#32 <<< (UNINT_MAX_SHIFT_BITS - j)))) m =
        (flagBit flag m || decide (m = UNSIGNED_INTEGER_BITS * i + j)) := by
      intro m
      rw [flagBit_modify _ hi, getMsbD_one_flag hj, ← Bool.decide_and]
      congr 2
      rw [eq_iff_iff]
      rw [UNSIGNED_INTEGER_BITS] at *
      omega
    -- the place of the next flag
    have hnext : ∃ flag', setFlags (k + 1) i j flag = some flag' ∧ flag'.length = flag.length ∧ ∀ m, flagBit flag' m =
        (flagBit (flag.modify i (· ||| (1#32 <<< (UNINT_MAX_SHIFT_BITS - j)))) m ||
          decide (UNSIGNED_INTEGER_BITS * i + (j + 1) ≤ m ∧ m < UNSIGNED_INTEGER_BITS * i + (j + 1) + k)) := by
      rw [setFlags, if_pos hi]
      simp only
      rw [flags, ← hlen] at hin
      split_ifs with hword
      · have hplace : UNSIGNED_INTEGER_BITS * (i + 1) + 0 = UNSIGNED_INTEGER_BITS * i + (j + 1) := by rw [Nat.mul_succ, hword, Nat.add_zero]
        rw [← hplace, ← hlen]
        exact ih (i + 1) 0 _ (by decide) (by rw [flags, hplace]; omega)
      · rw [← hlen]
        exact ih i (j + 1) _ (by omega) (by rw [flags]; omega)
    obtain ⟨flag',hrun,hlen',hbits⟩ := hnext
    refine ⟨flag',hrun,hlen',fun m => ?_⟩
    rw [hbits, hone, Bool.or_assoc, ← Bool.decide_or]
    congr 2
    rw [eq_iff_iff]
    omega

-- The law of BcacheSetFlag

/-- The flags of the sectors with a byte of the range are set, all the others stay as they are. -/
def SetFlagLaw (bc : OsBcache) (block : OsBcacheBlock) (pos size : Nat) : Prop :=
  ∃ flag', bcacheSetFlag bc block pos size = some { block with flag := flag' } ∧ flag'.length = block.flag.length ∧
    ∀ k, flagBit flag' k = true ↔ flagBit block.flag k = true ∨ ∃ a, pos ≤ a ∧ a < pos + size ∧ a / bc.sectorSize = k

/-- A sector that the range reaches beyond its first size / sectorSize ones is dirty already. -/
def SetFlagOk (bc : OsBcache) (block : OsBcacheBlock) (pos size : Nat) : Prop :=
  ∀ a, pos ≤ a → a < pos + size → pos / bc.sectorSize + size / bc.sectorSize ≤ a / bc.sectorSize →
    flagBit block.flag (a / bc.sectorSize) = true

variable {bc : OsBcache} {block : OsBcacheBlock} {pos size : Nat}

/-- The flags that are set are those of the first size / sectorSize sectors. -/
private theorem bcacheSetFlag_eq (hss : 0 < bc.sectorSize) (hin : pos + size ≤ bc.sectorSize * flags block.flag) :
    ∃ flag', bcacheSetFlag bc block pos size = some { block with flag := flag' } ∧ flag'.length = block.flag.length ∧
      ∀ k, flagBit flag' k = true ↔
        flagBit block.flag k = true ∨ pos / bc.sectorSize ≤ k ∧ k < pos / bc.sectorSize + size / bc.sectorSize := by
  have hend : pos / bc.sectorSize + size / bc.sectorSize ≤ flags block.flag := by
    refine Nat.le_trans ?_ (Nat.div_le_of_le_mul hin)
    rw [Nat.le_div_iff_mul_le hss, Nat.add_mul]
    exact Nat.add_le_add (Nat.div_mul_le_self ..) (Nat.div_mul_le_self ..)
  obtain ⟨flag',hrun,hlen,hbits⟩ := setFlags_bits (size / bc.sectorSize) (pos / bc.sectorSize / UNSIGNED_INTEGER_BITS)
    (pos / bc.sectorSize % UNSIGNED_INTEGER_BITS) block.flag (Nat.mod_lt _ (by decide)) (by rwa [Nat.div_add_mod])
  refine ⟨flag',?_,hlen,fun k => ?_⟩
  · rw [bcacheSetFlag, if_neg hss.ne']
    simp only [hrun, Option.map_some]
  · rw [hbits, Nat.div_add_mod, Bool.or_eq_true, decide_eq_true_eq]

/-- The first size / sectorSize sectors have bytes of the range. -/
private theorem sector_in_range {k : Nat} (hss : 0 < bc.sectorSize) (hk : pos / bc.sectorSize ≤ k)
    (hlt : k < pos / bc.sectorSize + size / bc.sectorSize) : ∃ a, pos ≤ a ∧ a < pos + size ∧ a / bc.sectorSize = k := by
  have hend : (k + 1) * bc.sectorSize ≤ pos + size := by
    refine Nat.le_trans (Nat.mul_le_mul_right _ hlt) ?_
    rw [Nat.add_mul]
    exact Nat.add_le_add (Nat.div_mul_le_self ..) (Nat.div_mul_le_self ..)
  rw [Nat.add_mul, Nat.one_mul] at hend
  rcases Nat.lt_or_eq_of_le hk with hk | rfl
  · refine ⟨k * bc.sectorSize,?_,by omega,Nat.mul_div_cancel k hss⟩
    exact (Nat.lt_mul_of_div_lt hk hss).le.trans (Nat.mul_comm .. ▸ Nat.le_refl _)
  · have hone : bc.sectorSize ≤ size := Nat.not_lt.mp fun hc => by
      rw [Nat.div_eq_of_lt hc, Nat.add_zero] at hlt
      exact Nat.lt_irrefl _ hlt
    exact ⟨pos,Nat.le_refl _,by omega,rfl⟩

private theorem setFlagLaw_iff (hss : 0 < bc.sectorSize) (hin : pos + size ≤ bc.sectorSize * flags block.flag) :
    SetFlagLaw bc block pos size ↔ SetFlagOk bc block pos size := by
  obtain ⟨flag',hrun,hlen,hbits⟩ := bcacheSetFlag_eq hss hin
  constructor
  · rintro ⟨flag'',hrun',_,hlaw⟩ a hpos hend hbeyond
    rw [hrun, Option.some_inj, OsBcacheBlock.mk.injEq] at hrun'
    obtain rfl := hrun'.2.1
    have hset := (hlaw (a / bc.sectorSize)).mpr (.inr ⟨a,hpos,hend,rfl⟩)
    rw [hbits] at hset
    exact hset.resolve_right fun hc => Nat.not_le.mpr hc.2 hbeyond
  · intro hok
    refine ⟨flag',hrun,hlen,fun k => ?_⟩
    rw [hbits]
    constructor
    · exact Or.imp_right fun hk => sector_in_range hss hk.1 hk.2
    · rintro (hset | ⟨a,hpos,hend,rfl⟩)
      · exact .inl hset
      · by_cases hbeyond : pos / bc.sectorSize + size / bc.sectorSize ≤ a / bc.sectorSize
        · exact .inl (hok a hpos hend hbeyond)
        · exact .inr ⟨Nat.div_le_div_right hpos,Nat.not_le.mp hbeyond⟩

/-- BcacheGetFlag always copies what it should. FindFlagPos finds a single run iff it does not start at the magic number, ends below 2^32, and
takes no several runs for one; BcacheSetFlag marks the written sectors iff the range has no more than size / sectorSize of them that are
clean. -/
theorem bcache_flags_iff {memcpyS : Nat → List UInt8 → Int × List UInt8} (arr : List Flag) (hg : Geometry bc block.flag)
    (hm : Copies memcpyS bc.blockSize) (hin : pos + size ≤ bc.sectorSize * flags block.flag) :
    (FindFlagLaw arr ∧ GetFlagLaw memcpyS bc block ∧ SetFlagLaw bc block pos size) ↔ FindFlagOk arr ∧ SetFlagOk bc block pos size := by
  rw [findFlagLaw_iff, setFlagLaw_iff hg.sectorSize hin]
  exact and_congr_right fun _ => and_iff_right (getFlagLaw hg hm)

/-- A block of 32 sectors of one byte, two of which are written; the first one is dirty before. -/
theorem bcache_flags_two_sectors :
    (FindFlagLaw [0x60000000#32] ∧
      GetFlagLaw (fun destMax src => if src.length ≤ destMax then (EOK,src) else (34,[])) ⟨32,1,32,fun _ _ => (0,fun _ => 7)⟩
        ⟨0,[0x80000000#32],fun _ => 0,true,false,true,some .listHead,true⟩ ∧
      SetFlagLaw ⟨32,1,32,fun _ _ => (0,fun _ => 7)⟩ ⟨0,[0x80000000#32],fun _ => 0,true,false,true,some .listHead,true⟩ 1 2) ↔
    FindFlagOk [0x60000000#32] ∧
      SetFlagOk ⟨32,1,32,fun _ _ => (0,fun _ => 7)⟩ ⟨0,[0x80000000#32],fun _ => 0,true,false,true,some .listHead,true⟩ 1 2 :=
  bcache_flags_iff [0x60000000#32] ⟨by decide,rfl,by decide,rfl⟩ (fun _ _ _ _ h => if_pos h) (by decide)

/-- One flag after n words without flags. -/
private theorem isRun_one_flag (n : Nat) (hj : j < UNSIGNED_INTEGER_BITS) :
    IsRun (List.replicate n 0 ++ [1#32 <<< (UNINT_MAX_SHIFT_BITS - j)]) (UNSIGNED_INTEGER_BITS * n + j) (UNSIGNED_INTEGER_BITS * n + j + 1) := by
  have hlen : flags (List.replicate n 0 ++ [1#32 <<< (UNINT_MAX_SHIFT_BITS - j)]) = UNSIGNED_INTEGER_BITS * n + UNSIGNED_INTEGER_BITS := by
    rw [flags, List.length_append, List.length_replicate, List.length_singleton, Nat.mul_succ]
  refine ⟨Nat.lt_succ_self _,by omega,fun k hk => ?_⟩
  rw [hlen, ← Nat.mul_succ] at hk
  have hword : k / UNSIGNED_INTEGER_BITS < n + 1 := Nat.div_lt_of_lt_mul hk
  rw [flagBit, List.getD_eq_getElem?_getD]
  rcases Nat.lt_succ_iff_lt_or_eq.mp hword with hlow | hlast
  · rw [List.getElem?_append_left (by rwa [List.length_replicate]), List.getElem?_replicate, if_pos hlow, Option.getD_some, BitVec.ofNat_eq_ofNat,
      BitVec.getMsbD_zero]
    refine iff_of_false (by decide) fun h => ?_
    rw [UNSIGNED_INTEGER_BITS] at *
    omega
  · rw [List.getElem?_append_right (by rw [List.length_replicate, hlast]), List.length_replicate, hlast, Nat.sub_self, List.getElem?_cons_zero,
      Option.getD_some, getMsbD_one_flag hj, decide_eq_true_eq]
    rw [UNSIGNED_INTEGER_BITS] at *
    omega

/-- The only flag is at the magic number: it is not found. -/
theorem findFlagPos_misses_magic : ¬FindFlagLaw (List.replicate 629125 0 ++ [1#32 <<< (UNINT_MAX_SHIFT_BITS - 16)]) := by
  rw [findFlagLaw_iff]
  exact not_findFlagOk_magic (isRun_one_flag 629125 (by decide))

end LiteOsKernel.Bcache
