import LiteOsKernel.Fs.BcacheFind
import Mathlib.Data.List.Nodup

/-! The sectors that BcacheGetFlag copies from the device. -/
namespace LiteOsKernel.Bcache
open LiteOsKernel LiteOsKernel.Bytes

/-- The sectors before k whose flags are clear. -/
def clearSectors (flag : List Flag) (k : Nat) : List Nat := (List.range k).filter fun m => !flagBit flag m

/-- The bytes of a sector. -/
def sectorBytes (sectorSize k : Nat) : List Nat := List.range' (k * sectorSize) sectorSize

/-- The bytes that calls of memcpy_s have copied, one after the other. -/
def copiedBytes (copies : List (Nat × Nat)) : List Nat := copies.flatMap fun c => List.range' c.1 c.2

variable {flag : List Flag} {k r i n : Nat} {bc : OsBcache} {buf data : Nat → UInt8} {s : Copied} {val x : Flag}
  {memcpyS : Nat → List UInt8 → Int × List UInt8}

private theorem sectorBytes_run (ss k : Nat) : ∀ r, (List.range' k r).flatMap (sectorBytes ss) = List.range' (k * ss) (r * ss) := by
  intro r
  induction r with
  | zero => rw [Nat.zero_mul]; rfl
  | succ r ih =>
    rw [List.range'_concat, List.flatMap_append, ih, Nat.one_mul, List.flatMap_singleton, sectorBytes, Nat.add_mul, Nat.succ_mul,
      List.range'_append_1]

private theorem clearSectors_clear (hclear : ∀ j < r, flagBit flag (k + j) = false) :
    clearSectors flag (k + r) = clearSectors flag k ++ List.range' k r := by
  rw [clearSectors, List.range_eq_range', ← List.range'_append_1, List.filter_append, Nat.zero_add]
  congr 1
  · rw [clearSectors, List.range_eq_range']
  · refine List.filter_eq_self.mpr fun m hm => ?_
    obtain ⟨hkm,hmr⟩ := List.mem_range'_1.mp hm
    obtain ⟨j,rfl⟩ := Nat.exists_eq_add_of_le hkm
    rw [hclear j (by omega)]
    rfl

private theorem clearSectors_set (hset : ∀ j < r, flagBit flag (k + j) = true) : clearSectors flag (k + r) = clearSectors flag k := by
  rw [clearSectors, List.range_eq_range', ← List.range'_append_1, List.filter_append, Nat.zero_add, clearSectors, List.range_eq_range']
  rw [List.append_right_eq_self, List.filter_eq_nil_iff]
  intro m hm
  obtain ⟨hkm,hmr⟩ := List.mem_range'_1.mp hm
  obtain ⟨j,rfl⟩ := Nat.exists_eq_add_of_le hkm
  rw [hset j (by omega)]
  decide

/-- The clear sectors before k have been copied, and nothing else. -/
structure CopiedTo (bc : OsBcache) (flag : List Flag) (buf data : Nat → UInt8) (k : Nat) (s : Copied) : Prop where
  sectorPos : s.sectorPos = k
  copies : copiedBytes s.copies = (clearSectors flag k).flatMap (sectorBytes bc.sectorSize)
  data : ∀ a, s.data a = if a ∈ copiedBytes s.copies then buf a else data a

/-- A block with its sectors. -/
structure Geometry (bc : OsBcache) (flag : List Flag) : Prop where
  sectorSize : 0 < bc.sectorSize
  blockSize : bc.blockSize = bc.sectorSize * bc.sectorPerBlock
  blockSize_lt : bc.blockSize < 2^32
  flag : flag.length = bc.sectorPerBlock >>> UNINT_LOG2_SHIFT

private theorem clz_spec (val : Flag) :
    clz val ≤ UNSIGNED_INTEGER_BITS ∧ (∀ j < clz val, val.getMsbD j = false) ∧
      (clz val < UNSIGNED_INTEGER_BITS → val.getMsbD (clz val) = true) := by
  rw [clz]
  cases hfind : (List.range UNSIGNED_INTEGER_BITS).find? val.getMsbD with
  | none =>
    refine ⟨Nat.le_refl _,fun j hj => ?_,fun h => absurd h (Nat.lt_irrefl _)⟩
    exact Bool.eq_false_of_not_eq_true (List.find?_eq_none.mp hfind j (List.mem_range.mpr hj))
  | some m =>
    obtain ⟨hm,hmem,hbelow⟩ := List.find?_range_eq_some.mp hfind
    refine ⟨(List.mem_range.mp hmem).le,fun j hj => ?_,fun _ => hm⟩
    exact Bool.not_eq_true' _ ▸ hbelow j hj

private theorem zeros_eq_clz (val : Flag) : (if val = 0 then UNSIGNED_INTEGER_BITS else clz val) = clz val := by
  split_ifs with h
  · subst h
    decide
  · rfl

private theorem Geometry.flags_le (h : Geometry bc flag) : flags flag ≤ bc.sectorPerBlock := by
  rw [flags, h.flag, UNINT_LOG2_SHIFT, UNSIGNED_INTEGER_BITS, Nat.shiftRight_eq_div_pow]
  exact Nat.mul_div_le ..

private theorem Geometry.flags_lt (h : Geometry bc flag) : flags flag < 2^32 :=
  h.flags_le.trans_lt ((Nat.le_mul_of_pos_left _ h.sectorSize).trans_lt (h.blockSize ▸ h.blockSize_lt))

/-- The bytes of a sector are those of the block. -/
theorem Geometry.bytes_le (h : Geometry bc flag) (hk : k ≤ flags flag) : k * bc.sectorSize ≤ bc.blockSize := by
  rw [h.blockSize, Nat.mul_comm]
  exact Nat.mul_le_mul_left _ (hk.trans h.flags_le)

private theorem Geometry.firstBit_eq (h : Geometry bc flag) (hi : i < flag.length) : firstBit (i + 1) = UNSIGNED_INTEGER_BITS * (i + 1) := by
  have hle : UNSIGNED_INTEGER_BITS * (i + 1) ≤ flags flag := Nat.mul_le_mul_left _ hi
  rw [firstBit, Word.shl, UNINT_LOG2_SHIFT, Nat.shiftLeft_eq, Nat.mul_comm]
  exact Nat.mod_eq_of_lt (hle.trans_lt h.flags_lt)

/-- A run of set flags is passed over. -/
theorem CopiedTo.pass (h : CopiedTo bc flag buf data k s) (hset : ∀ j < r, flagBit flag (k + j) = true) :
    CopiedTo bc flag buf data (k + r) { s with sectorPos := k + r } :=
  ⟨rfl,by rw [clearSectors_set hset]; exact h.copies,h.data⟩

/-- A run of clear flags is copied. -/
theorem CopiedTo.copy (h : CopiedTo bc flag buf data k s) (hclear : ∀ j < r, flagBit flag (k + j) = false) :
    CopiedTo bc flag buf data (k + r)
      ⟨k + r,store s.data (k * bc.sectorSize) (bytes buf (k * bc.sectorSize) (r * bc.sectorSize)),
        s.copies ++ [(k * bc.sectorSize,r * bc.sectorSize)]⟩ where
  sectorPos := rfl
  copies := by
    rw [clearSectors_clear hclear, List.flatMap_append, sectorBytes_run, ← h.copies, copiedBytes, List.flatMap_append, List.flatMap_singleton,
      copiedBytes]
  data a := by
    have hmem : a ∈ copiedBytes (s.copies ++ [(k * bc.sectorSize,r * bc.sectorSize)]) ↔
        a ∈ copiedBytes s.copies ∨ a ∈ List.range' (k * bc.sectorSize) (r * bc.sectorSize) := by
      rw [copiedBytes, List.flatMap_append, List.flatMap_singleton, List.mem_append, copiedBytes]
    simp only [store_bytes, hmem, h.data, ← List.mem_range'_1]
    by_cases h2 : a ∈ List.range' (k * bc.sectorSize) (r * bc.sectorSize)
    · rw [if_pos h2, if_pos (.inr h2), Nat.add_sub_cancel' (List.mem_range'_1.mp h2).1]
    · simp only [h2, or_false, if_false]

/-- At LOOP the position is that of the first sector that the round has not seen. -/
private theorem clamp_eq {c : Nat} (hi : firstBit (i + 1) = k + c) (data : Nat → UInt8) (copies : List (Nat × Nat)) :
    Copied.clamp ⟨k + n,data,copies⟩ i = ⟨k + min n c,data,copies⟩ := by
  rw [Copied.clamp, hi]
  split_ifs with h
  · rw [Nat.min_eq_right (by simp only at h; omega)]
  · rw [Nat.min_eq_left (by simp only at h; omega)]

/-- The rest of a word: of the n zeros that CLZ counts, those that are flags. -/
private theorem flagRound_copied {c f : Nat} (hg : Geometry bc flag) (hm : Copies memcpyS bc.blockSize) (hi : i < flag.length)
    (hc : c < UNSIGNED_INTEGER_BITS) (hn : n ≤ UNSIGNED_INTEGER_BITS) (h : CopiedTo bc flag buf data (UNSIGNED_INTEGER_BITS * i + c) s)
    (hbits : ∀ j < n, c + j < UNSIGNED_INTEGER_BITS → flagBit flag (UNSIGNED_INTEGER_BITS * i + (c + j)) = decide (f % EVEN_JUDGED ≠ 0)) :
    ∃ s', flagRound memcpyS bc buf i f n s = (true,s') ∧
      CopiedTo bc flag buf data (UNSIGNED_INTEGER_BITS * i + (c + min n (UNSIGNED_INTEGER_BITS - c))) s' := by
  have hend : UNSIGNED_INTEGER_BITS * (i + 1) ≤ flags flag := Nat.mul_le_mul_left _ hi
  have hlast : firstBit (i + 1) = UNSIGNED_INTEGER_BITS * i + c + (UNSIGNED_INTEGER_BITS - c) := by
    rw [hg.firstBit_eq hi, Nat.mul_succ]
    omega
  have hadd : Word.add s.sectorPos n = UNSIGNED_INTEGER_BITS * i + c + n := by
    have hlt := hg.flags_lt
    rw [flags] at hlt hend
    rw [h.sectorPos, Word.add_eq]
    rw [UNSIGNED_INTEGER_BITS] at *
    omega
  have hbits' : ∀ j < min n (UNSIGNED_INTEGER_BITS - c), flagBit flag (UNSIGNED_INTEGER_BITS * i + c + j) = decide (f % EVEN_JUDGED ≠ 0) := by
    intro j hj
    rw [Nat.add_assoc]
    exact hbits j (hj.trans_le (Nat.min_le_left ..)) (by omega)
  rw [← Nat.add_assoc, flagRound]
  simp only [hadd]
  rw [clamp_eq hlast]
  by_cases hskip : f % EVEN_JUDGED ≠ 0 ∨ n = 0
  · rw [if_pos hskip]
    refine ⟨_,rfl,h.pass fun j hj => ?_⟩
    rw [hbits' j hj]
    rcases hskip with hodd | rfl
    · exact decide_eq_true hodd
    · exact absurd (hj.trans_le (Nat.min_le_left ..)) (Nat.not_lt_zero j)
  · rw [if_neg hskip]
    obtain ⟨heven,hn0⟩ := not_or.mp hskip
    have hcopy := h.copy fun j hj => by rw [hbits' j hj]; exact decide_eq_false heven
    -- what is copied ends with the word
    have hsize : (if firstBit (i + 1) < UNSIGNED_INTEGER_BITS * i + c + n then
        Word.sub (firstBit (i + 1)) (UNSIGNED_INTEGER_BITS * i + c) else n) = min n (UNSIGNED_INTEGER_BITS - c) := by
      rw [hlast, Word.sub_eq (Nat.le_add_right ..), Nat.add_sub_cancel_left]
      split_ifs with hover
      · rw [Nat.min_eq_right (by omega)]
      · rw [Nat.min_eq_left (by omega)]
    have hin : (UNSIGNED_INTEGER_BITS * i + c + min n (UNSIGNED_INTEGER_BITS - c)) * bc.sectorSize ≤ bc.blockSize := by
      refine hg.bytes_le (Nat.le_trans ?_ hend)
      rw [← hg.firstBit_eq hi, hlast]
      exact Nat.add_le_add_left (Nat.min_le_right ..) _
    have hpos : 0 < min n (UNSIGNED_INTEGER_BITS - c) * bc.sectorSize := Nat.mul_pos (by omega) hg.sectorSize
    rw [Nat.add_mul] at hin
    have hblock := hg.blockSize_lt
    simp only [Word.sub_eq (Nat.le_add_left n _), Nat.add_sub_cancel, hsize]
    rw [Nat.mod_eq_of_lt (by omega), Nat.mod_eq_of_lt (by omega), Word.sub_eq (by omega),
      hm _ _ (Nat.sub_le ..) (by rw [length_bytes]; exact hpos) (by rw [length_bytes]; omega)]
    have hok : ¬(0 : Int) ≠ EOK := by decide
    simp only [if_neg hok]
    rw [clamp_eq hlast]
    exact ⟨_,rfl,hcopy⟩

/-- What is left of a word: its flags, complemented in every second round. -/
private theorem flagRounds_copied (hg : Geometry bc flag) (hm : Copies memcpyS bc.blockSize) (hi : i < flag.length) :
    ∀ fuel f c val s, c < UNSIGNED_INTEGER_BITS → CopiedTo bc flag buf data (UNSIGNED_INTEGER_BITS * i + c) s →
      (∀ t, c + t < UNSIGNED_INTEGER_BITS →
        val.getMsbD t = (flagBit flag (UNSIGNED_INTEGER_BITS * i + (c + t)) ^^ decide (f % EVEN_JUDGED ≠ 0))) →
      (f ≠ 0 → val.getMsbD 0 = false) → UNSIGNED_INTEGER_BITS - c + (if f = 0 then 1 else 0) < fuel →
      ∃ s', flagRounds memcpyS bc buf i fuel f ((UNSIGNED_INTEGER_BITS - c : Nat) : Int) val s = some (true,s') ∧
        CopiedTo bc flag buf data (UNSIGNED_INTEGER_BITS * (i + 1)) s' := by
  intro fuel
  induction fuel with
  | zero => intro _ _ _ _ _ _ _ _ hfuel; omega
  | succ fuel ih =>
    intro f c val s hc h hval hfirst hfuel
    obtain ⟨hn,hzeros,hone⟩ := clz_spec val
    have hround := flagRound_copied (s := s) (f := f) hg hm hi hc hn h fun j hj hcj => by
      have hbit := hval j hcj
      rw [hzeros j hj] at hbit
      exact (Bool.xor_right_inj.mp (hbit.symm.trans (Bool.xor_self _).symm)).symm
    obtain ⟨s',hround,h'⟩ := hround
    rw [flagRounds, if_neg (by omega), zeros_eq_clz]
    simp only [hround]
    by_cases hlast : UNSIGNED_INTEGER_BITS - c ≤ clz val
    · -- the word is done
      have hk : UNSIGNED_INTEGER_BITS * i + (c + min (clz val) (UNSIGNED_INTEGER_BITS - c)) = UNSIGNED_INTEGER_BITS * (i + 1) := by
        rw [Nat.min_eq_right hlast, Nat.mul_succ]
        omega
      rw [hk] at h'
      obtain ⟨fuel',rfl⟩ : ∃ fuel', fuel = fuel' + 1 := ⟨fuel - 1,by omega⟩
      exact ⟨s',by rw [flagRounds, if_pos (by omega)],h'⟩
    · have hnc : clz val < UNSIGNED_INTEGER_BITS - c := Nat.not_le.mp hlast
      have hpos : f ≠ 0 → 0 < clz val := by
        intro hf
        refine Nat.pos_of_ne_zero fun h0 => ?_
        have htop := hone (by omega)
        rw [h0, hfirst hf] at htop
        cases htop
      rw [Nat.min_eq_left hnc.le] at h'
      have hbits : ((UNSIGNED_INTEGER_BITS - c : Nat) : Int) - clz val = ((UNSIGNED_INTEGER_BITS - (c + clz val) : Nat) : Int) := by omega
      rw [hbits]
      refine ih (f + 1) (c + clz val) _ s' (by omega) h' (fun t ht => ?_) (fun _ => ?_) ?_
      · have hpar : decide ((f + 1) % EVEN_JUDGED ≠ 0) = !decide (f % EVEN_JUDGED ≠ 0) := by
          rw [← decide_not, decide_eq_decide, EVEN_JUDGED]
          omega
        rw [BitVec.getMsbD_not, BitVec.getMsbD_shiftLeft, hval (t + clz val) (by omega), decide_eq_true (show t < 32 from by
          rw [UNSIGNED_INTEGER_BITS] at ht; omega), Bool.true_and, hpar, Bool.xor_not, Nat.add_comm t, ← Nat.add_assoc c]
      · rw [BitVec.getMsbD_not, BitVec.getMsbD_shiftLeft, Nat.zero_add, hone (by omega)]
        rfl
      · rw [if_neg (Nat.succ_ne_zero f)]
        by_cases hf : f = 0
        · rw [if_pos hf] at hfuel
          omega
        · have hn0 := hpos hf
          omega

/-- All the words from i on. -/
private theorem flagWords_copied (hg : Geometry bc flag) (hm : Copies memcpyS bc.blockSize) :
    ∀ rest i s, i + rest.length = flag.length → (∀ m (h : m < rest.length), ∀ j < UNSIGNED_INTEGER_BITS,
        flagBit flag (UNSIGNED_INTEGER_BITS * (i + m) + j) = rest[m].getMsbD j) →
      CopiedTo bc flag buf data (UNSIGNED_INTEGER_BITS * i) s →
      ∃ s', flagWords memcpyS bc buf rest i s = some (true,s') ∧ CopiedTo bc flag buf data (flags flag) s' := by
  intro rest
  induction rest with
  | nil =>
    intro i s hlen _ h
    rw [List.length_nil, Nat.add_zero] at hlen
    refine ⟨s,rfl,?_⟩
    rw [flags, ← hlen]
    exact h
  | cons val rest ih =>
    intro i s hlen hbits h
    rw [List.length_cons] at hlen
    obtain ⟨s',hrun,h'⟩ := flagRounds_copied hg hm (i := i) (by omega) (UNSIGNED_INTEGER_BITS + 2) 0 0 val s (by decide) h
      (fun t ht => by
        rw [Nat.zero_add] at ht ⊢
        exact ((Bool.xor_false _).trans (hbits 0 (Nat.succ_pos _) t ht)).symm)
      (fun h0 => absurd rfl h0) (by decide)
    obtain ⟨s'',hrest,hall⟩ := ih (i + 1) s' (by omega) (fun m hm' j hj => by
      rw [Nat.add_assoc, Nat.add_comm 1 m]
      exact hbits (m + 1) (Nat.succ_lt_succ hm') j hj) h'
    refine ⟨s'',?_,hall⟩
    rw [Nat.sub_zero] at hrun
    rw [flagWords, hrun]
    exact hrest

/-- GetValLog2 ends for what is not 0. -/
private theorem valLog2_ends : ∀ fuel i log2, 0 < i → i < 2^fuel → valLog2 fuel i log2 ≠ none := by
  intro fuel
  induction fuel with
  | zero => intro i _ h0 h1; omega
  | succ fuel ih =>
    intro i log2 h0 h1
    rw [Nat.pow_succ] at h1
    rw [valLog2]
    split_ifs with heven
    · exact ih _ _ (by omega) (by omega)
    · exact Option.some_ne_none _
    · exact Option.some_ne_none _

/-- The conjunction of the words is all ones only if each of them is. -/
private theorem and_words : ∀ (flag : List Flag) (a : Flag), flag.foldl (· &&& ·) a = UINT_MAX → a = UINT_MAX ∧ ∀ x ∈ flag, x = UINT_MAX := by
  intro flag
  induction flag with
  | nil => exact fun a h => ⟨h,fun x hx => by cases hx⟩
  | cons x flag ih =>
    intro a h
    obtain ⟨hax,hrest⟩ := ih (a &&& x) h
    obtain ⟨ha,hx⟩ := BitVec.and_eq_allOnes_iff.mp hax
    refine ⟨ha,fun y hy => ?_⟩
    rcases List.mem_cons.mp hy with rfl | hy
    · exact hx
    · exact hrest y hy

/-- Where all flags are set, no sector is clear. -/
private theorem clearSectors_all (h : ∀ x ∈ flag, x = UINT_MAX) : clearSectors flag (flags flag) = [] := by
  refine List.filter_eq_nil_iff.mpr fun k hk => ?_
  have hk' : k / UNSIGNED_INTEGER_BITS < flag.length := Nat.div_lt_of_lt_mul (List.mem_range.mp hk)
  have hmod : k % UNSIGNED_INTEGER_BITS < UNSIGNED_INTEGER_BITS := Nat.mod_lt k (by decide)
  have hbit := flagBit_word flag hk' hmod
  rw [Nat.div_add_mod] at hbit
  rw [hbit, h _ (List.getElem_mem hk'), UINT_MAX, BitVec.getMsbD_allOnes, decide_eq_true (show k % UNSIGNED_INTEGER_BITS < 32 from hmod)]
  decide

private theorem mem_sectorBytes {ss a : Nat} (hss : 0 < ss) : a ∈ sectorBytes ss k ↔ a / ss = k := by
  rw [sectorBytes, List.mem_range'_1, Nat.div_eq_iff hss, Nat.mul_comm]
  constructor <;> intro h <;> omega

/-- No byte is copied twice. -/
private theorem nodup_sectors {ss : Nat} (hss : 0 < ss) (flag : List Flag) (k : Nat) : ((clearSectors flag k).flatMap (sectorBytes ss)).Nodup := by
  refine List.nodup_flatMap.mpr ⟨fun m _ => List.nodup_range',?_⟩
  refine (List.nodup_range.filter _).imp fun {m m'} hne a ha ha' => hne ?_
  rw [← (mem_sectorBytes hss).mp ha, (mem_sectorBytes hss).mp ha']

-- The law of BcacheGetFlag

/-- What the device gives for the block. -/
def deviceRead (bc : OsBcache) (block : OsBcacheBlock) : Int × (Nat → UInt8) :=
  bc.breadFun bc.sectorPerBlock (block.num * 2^(getValLog2 bc.sectorPerBlock).getD 0 % 2^64)

/-- The call ends; the flags stay. A block that has not been read before gets the bytes of the sectors that are clear, each once, and no others;
without the device's data no byte changes. -/
def GetFlagLaw (memcpyS : Nat → List UInt8 → Int × List UInt8) (bc : OsBcache) (block : OsBcacheBlock) : Prop :=
  ∃ ret block' copies, bcacheGetFlag memcpyS bc block = some (ret,block',copies) ∧ block'.flag = block.flag ∧
    (block.readFlag = true → ret = ENOERR ∧ copies = []) ∧ (ret ≠ ENOERR → ret = (deviceRead bc block).1 ∧ copies = []) ∧
    (block.readFlag = false → ret = ENOERR →
      copiedBytes copies = (clearSectors block.flag (flags block.flag)).flatMap (sectorBytes bc.sectorSize)) ∧
    (copiedBytes copies).Nodup ∧ ∀ a, block'.data a = if a ∈ copiedBytes copies then (deviceRead bc block).2 a else block.data a

private theorem blockRead_eq (block : OsBcacheBlock) (hspb : 0 < bc.sectorPerBlock) (hlt : bc.sectorPerBlock < 2^32) :
    ∃ block', blockRead bc block = some ((deviceRead bc block).1,block',(deviceRead bc block).2) ∧
      block'.flag = block.flag ∧ block'.data = block.data := by
  obtain ⟨log2,hlog2⟩ := Option.ne_none_iff_exists'.mp (valLog2_ends UNSIGNED_INTEGER_BITS bc.sectorPerBlock 0 hspb hlt)
  have hlog : getValLog2 bc.sectorPerBlock = some log2 := hlog2
  rw [blockRead, deviceRead, hlog, Option.getD_some]
  simp only [Option.bind_eq_bind, Option.bind_some]
  split_ifs with hret hmod hlist
  · exact ⟨_,rfl,rfl,rfl⟩
  · exact ⟨_,rfl,rfl,rfl⟩
  · exact ⟨_,rfl,rfl,rfl⟩
  · exact ⟨{ block with readFlag := true },by rw [← not_not.mp hret],rfl,rfl⟩

theorem getFlagLaw {block : OsBcacheBlock} (hg : Geometry bc block.flag) (hm : Copies memcpyS bc.blockSize) :
    GetFlagLaw memcpyS bc block := by
  have htake : block.flag.take (bc.sectorPerBlock >>> UNINT_LOG2_SHIFT) = block.flag := by
    rw [← hg.flag, List.take_length]
  rw [GetFlagLaw, bcacheGetFlag, htake]
  split_ifs with hread hall
  · exact ⟨_,_,_,rfl,rfl,fun _ => ⟨rfl,rfl⟩,fun h => absurd rfl h,fun h _ => absurd (hread.symm.trans h) (by decide),List.nodup_nil,fun a => rfl⟩
  · -- all the sectors are dirty
    refine ⟨_,_,_,rfl,rfl,fun _ => ⟨rfl,rfl⟩,fun h => absurd rfl h,fun _ _ => ?_,List.nodup_nil,fun a => rfl⟩
    rw [clearSectors_all (and_words _ _ hall).2]
    rfl
  · have hspb : 0 < bc.sectorPerBlock := by
      refine Nat.pos_of_ne_zero fun h0 => hall ?_
      have hnil : block.flag = [] := by rw [← List.length_eq_zero_iff, hg.flag, h0, Nat.zero_shiftRight]
      rw [hnil]
      rfl
    have hlt : bc.sectorPerBlock < 2^32 :=
      (Nat.le_mul_of_pos_left _ hg.sectorSize).trans_lt (hg.blockSize ▸ hg.blockSize_lt)
    obtain ⟨block',hblock,hflag,hdata⟩ := blockRead_eq block hspb hlt
    simp only [hblock, Option.bind_eq_bind, Option.bind_some]
    split_ifs with hret
    · refine ⟨_,_,_,rfl,hflag,fun h => absurd h hread,fun _ => ⟨rfl,rfl⟩,fun _ h => absurd h hret,List.nodup_nil,fun a => ?_⟩
      rw [hdata]
      rfl
    · have hcopied : CopiedTo bc block.flag (deviceRead bc block).2 block.data (UNSIGNED_INTEGER_BITS * 0) ⟨0,block.data,[]⟩ :=
        ⟨rfl,rfl,fun a => rfl⟩
      obtain ⟨s,hrun,hs⟩ := flagWords_copied hg hm block.flag 0 ⟨0,block.data,[]⟩ (Nat.zero_add _)
        (fun m hm j hj => by rw [Nat.zero_add, flagBit_word block.flag hm hj]) hcopied
      rw [hdata, hrun]
      refine ⟨_,_,_,rfl,hflag,fun h => absurd h hread,fun h => absurd rfl h,fun _ _ => hs.copies,?_,hs.data⟩
      rw [hs.copies]
      exact nodup_sectors hg.sectorSize _ _

end LiteOsKernel.Bcache
