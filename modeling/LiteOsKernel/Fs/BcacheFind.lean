import LiteOsKernel.Fs.BcacheFlag

/-! The run of dirty sectors that FindFlagPos finds. -/
namespace LiteOsKernel.Bcache
open LiteOsKernel

variable {bit : Nat → Bool} {k n : Nat} {s s' : Found} {arr : List Flag}

/-- A run of set bits starts here. -/
def Starts (bit : Nat → Bool) (k : Nat) : Prop := bit k = true ∧ (k = 0 ∨ bit (k - 1) = false)

/-- A run of set bits has ended here. -/
def Ends (bit : Nat → Bool) (k : Nat) : Prop := bit k = false ∧ k ≠ 0 ∧ bit (k - 1) = true

private theorem Starts.not_ends (hk : Starts bit k) : ¬Ends bit k := fun he => by
  have hb := hk.1
  rw [he.1] at hb
  cases hb

/-- The last place before n with a property. -/
def LastBelow (P : Nat → Prop) (n k : Nat) : Prop := k < n ∧ P k ∧ ∀ i, k < i → i < n → ¬P i

theorem LastBelow.succ {P : Nat → Prop} (h : LastBelow P n k) (hn : ¬P n) : LastBelow P (n + 1) k := by
  refine ⟨Nat.lt_succ_of_lt h.1,h.2.1,fun i hki hi => ?_⟩
  rcases Nat.lt_succ_iff_lt_or_eq.mp hi with hi | rfl
  · exact h.2.2 i hki hi
  · exact hn

private theorem lastBelow_self {P : Nat → Prop} (hn : P n) : LastBelow P (n + 1) n := ⟨Nat.lt_succ_self n,hn,fun _ h1 h2 => by omega⟩

theorem LastBelow.unique {P : Nat → Prop} {j : Nat} (hj : LastBelow P n j) (hk : LastBelow P n k) : j = k := by
  rcases Nat.lt_trichotomy j k with h | h | h
  · exact absurd hk.2.1 (hj.2.2 k h hk.1)
  · exact h
  · exact absurd hj.2.1 (hk.2.2 j h hj.1)

private theorem forall_lt_succ {P : Nat → Prop} (h : ∀ i < n, P i) (hn : P n) : ∀ i < n + 1, P i := by
  intro i hi
  rcases Nat.lt_succ_iff_lt_or_eq.mp hi with hi | rfl
  · exact h i hi
  · exact hn

/-- What has been found in the first k bits. -/
structure FoundIn (bit : Nat → Bool) (k : Nat) (s : Found) : Prop where
  val : s.val = if k ≠ 0 ∧ bit (k - 1) = true then 0 else 1
  start : (s.start = BCACHE_MAGIC_NUM ∧ ∀ i < k, Starts bit i → i % 2^32 = BCACHE_MAGIC_NUM) ∨
    (s.start ≠ BCACHE_MAGIC_NUM ∧ ∃ j, LastBelow (Starts bit) k j ∧ s.start = j % 2^32 ∧
      ∀ i < j, Starts bit i → i % 2^32 = BCACHE_MAGIC_NUM)
  stop : (s.stop = 0 ∧ ∀ i < k, ¬Ends bit i) ∨ ∃ j, LastBelow (Ends bit) k j ∧ s.stop = j % 2^32

/-- A second run starts after one whose start is not taken for none. -/
def SecondRun (bit : Nat → Bool) (n : Nat) : Prop :=
  ∃ i j, i < j ∧ j < n ∧ Starts bit i ∧ i % 2^32 ≠ BCACHE_MAGIC_NUM ∧ Starts bit j

private theorem foundIn_init (bit : Nat → Bool) : FoundIn bit 0 ⟨BCACHE_MAGIC_NUM,0,1⟩ :=
  ⟨rfl,.inl ⟨rfl,fun i hi => absurd hi (Nat.not_lt_zero i)⟩,.inl ⟨rfl,fun i hi => absurd hi (Nat.not_lt_zero i)⟩⟩

private theorem FoundIn.val_of_starts (h : FoundIn bit k s) (hk : Starts bit k) : s.val = 1 := by
  rw [h.val, if_neg]
  rintro ⟨h0,hlast⟩
  rcases hk.2 with rfl | hprev
  · exact h0 rfl
  · rw [hprev] at hlast
    cases hlast

private theorem FoundIn.val_of_ends (h : FoundIn bit k s) (hk : Ends bit k) : s.val = 0 := by
  rw [h.val, if_pos hk.2]

/-- The bit that is looked for is the one that the last bit is not. -/
private theorem FoundIn.tmp_eq_val_iff (h : FoundIn bit k s) : (bit k).toNat = s.val ↔ Starts bit k ∨ Ends bit k := by
  rw [h.val, Starts, Ends]
  cases bit k <;> cases hk : bit (k - 1) <;> by_cases h0 : k = 0 <;> simp [h0]

/-- Within a run or between two nothing is found. -/
theorem FoundIn.stay (h : FoundIn bit k s) (hs : ¬Starts bit k) (he : ¬Ends bit k) : FoundIn bit (k + 1) s where
  val := by
    rw [h.val]
    simp only [Starts, Ends, not_and] at hs he
    cases hb : bit k <;> cases hk : bit (k - 1) <;> by_cases h0 : k = 0 <;> simp_all
  start := by
    refine h.start.imp (fun hnone => ⟨hnone.1,forall_lt_succ hnone.2 fun hk => absurd hk hs⟩) ?_
    rintro ⟨hne,j,hj,hrest⟩
    exact ⟨hne,j,hj.succ hs,hrest⟩
  stop := by
    refine h.stop.imp (fun hnone => ⟨hnone.1,forall_lt_succ hnone.2 he⟩) ?_
    rintro ⟨j,hj,hstop⟩
    exact ⟨j,hj.succ he,hstop⟩

/-- The first start, or one after starts that are taken for none. -/
private theorem FoundIn.start_run (h : FoundIn bit k s) (hk : Starts bit k) (hnone : s.start = BCACHE_MAGIC_NUM) :
    FoundIn bit (k + 1) { s with start := k % 2^32, val := 1 - s.val } where
  val := by
    rw [h.val_of_starts hk, if_pos ⟨Nat.succ_ne_zero k,hk.1⟩]
  start := by
    have hall : ∀ i < k, Starts bit i → i % 2^32 = BCACHE_MAGIC_NUM := by
      rcases h.start with hmagic | ⟨hne,_⟩
      · exact hmagic.2
      · exact absurd hnone hne
    by_cases hmagic : k % 2^32 = BCACHE_MAGIC_NUM
    · exact .inl ⟨hmagic,forall_lt_succ hall fun _ => hmagic⟩
    · exact .inr ⟨hmagic,k,lastBelow_self hk,rfl,hall⟩
  stop := by
    have he : ¬Ends bit k := fun he => hk.not_ends he
    refine h.stop.imp (fun hnone => ⟨hnone.1,forall_lt_succ hnone.2 he⟩) ?_
    rintro ⟨j,hj,hstop⟩
    exact ⟨j,hj.succ he,hstop⟩

private theorem FoundIn.end_run (h : FoundIn bit k s) (hk : Ends bit k) :
    FoundIn bit (k + 1) { s with stop := k % 2^32, val := 1 - s.val } where
  val := by
    rw [h.val_of_ends hk, if_neg]
    rintro ⟨_,hb⟩
    rw [Nat.add_sub_cancel, hk.1] at hb
    cases hb
  start := by
    have hs : ¬Starts bit k := fun hs => hs.not_ends hk
    refine h.start.imp (fun hnone => ⟨hnone.1,forall_lt_succ hnone.2 fun hk => absurd hk hs⟩) ?_
    rintro ⟨hne,j,hj,hrest⟩
    exact ⟨hne,j,hj.succ hs,hrest⟩
  stop := .inr ⟨k,lastBelow_self hk,rfl⟩

/-- What the next bit adds, or the second run that it starts. -/
theorem FoundIn.step (h : FoundIn bit k s) :
    match s.bit (k % 2^32) (bit k).toNat with
    | .ok s' => FoundIn bit (k + 1) s'
    | .error _ => SecondRun bit (k + 1) := by
  rw [Found.bit]
  by_cases htmp : (bit k).toNat = s.val
  · rw [if_neg (not_not.mpr htmp)]
    rcases h.tmp_eq_val_iff.mp htmp with hk | hk
    · have hval : s.val ≠ 0 := by
        rw [h.val_of_starts hk]
        decide
      by_cases hnone : s.start = BCACHE_MAGIC_NUM
      · rw [if_pos ⟨hval,hnone⟩]
        exact h.start_run hk hnone
      · rw [if_neg fun hc => hnone hc.2, if_pos ⟨hval,hnone⟩]
        rcases h.start with hmagic | ⟨_,j,hj,hstart,_⟩
        · exact absurd hmagic.1 hnone
        · exact ⟨j,k,hj.1,Nat.lt_succ_self k,hj.2.1,hstart ▸ hnone,hk⟩
    · have hval := h.val_of_ends hk
      rw [if_neg fun hc => hc.1 hval, if_neg fun hc => hc.1 hval]
      exact h.end_run hk
  · rw [if_pos htmp]
    have hnot := fun hk => htmp (h.tmp_eq_val_iff.mpr hk)
    exact h.stay (fun hk => hnot (.inl hk)) fun hk => hnot (.inr hk)

/-- The search over the bits from k on. -/
def scan (bit : Nat → Bool) : (n k : Nat) → Found → Except Found Found
  | 0, _, s => .ok s
  | n+1, k, s => do
    let s ← s.bit (k % 2^32) (bit k).toNat
    scan bit n (k + 1) s

theorem SecondRun.mono {m : Nat} (h : SecondRun bit n) (hm : n ≤ m) : SecondRun bit m := by
  obtain ⟨i,j,hij,hj,hrest⟩ := h
  exact ⟨i,j,hij,hj.trans_le hm,hrest⟩

/-- What a search over n bits finds. -/
theorem FoundIn.scan : ∀ n k s, FoundIn bit k s →
    match scan bit n k s with
    | .ok s' => FoundIn bit (k + n) s'
    | .error _ => SecondRun bit (k + n) := by
  intro n
  induction n with
  | zero => exact fun k s h => h
  | succ n ih =>
    intro k s h
    have hstep := h.step
    rw [Bcache.scan]
    cases hb : s.bit (k % 2^32) (bit k).toNat with
    | error e =>
      rw [hb] at hstep
      exact hstep.mono (by omega)
    | ok s' =>
      rw [hb] at hstep
      have hrun := ih (k + 1) s' hstep
      rw [Nat.add_right_comm] at hrun
      exact hrun

private theorem scan_add (m : Nat) : ∀ n k s, scan bit (n + m) k s = scan bit n k s >>= scan bit m (k + n) := by
  intro n
  induction n with
  | zero =>
    intro k s
    rw [Nat.zero_add]
    rfl
  | succ n ih =>
    intro k s
    rw [Nat.succ_add, scan, scan]
    cases s.bit (k % 2^32) (bit k).toNat with
    | error e => rfl
    | ok s' =>
      have hrun := ih (k + 1) s'
      rw [Nat.add_right_comm] at hrun
      exact hrun

/-- The top bit of a word that is shifted to the left. -/
private theorem top_bit (x : Flag) (j : Nat) : ((x <<< j) >>> UNINT_MAX_SHIFT_BITS).toNat = (x.getMsbD j).toNat := by
  have hmsb : (x <<< j).msb = x.getMsbD j := by
    rw [BitVec.msb_eq_getMsbD_zero, BitVec.getMsbD_shiftLeft, Nat.zero_add]
  have hlt := (x <<< j).isLt
  rw [BitVec.toNat_ushiftRight, Nat.shiftRight_eq_div_pow, ← hmsb, BitVec.msb_eq_decide, UNINT_MAX_SHIFT_BITS]
  generalize (x <<< j).toNat = y at hlt ⊢
  by_cases hy : 2^31 ≤ y
  · rw [decide_eq_true hy, Bool.toNat_true]
    omega
  · rw [decide_eq_false hy, Bool.toNat_false]
    omega

private theorem add_firstBit (i j : Nat) : Word.add (firstBit i) j = (UNSIGNED_INTEGER_BITS * i + j) % 2^32 := by
  rw [Word.add, firstBit, Word.shl, UNINT_LOG2_SHIFT, UNSIGNED_INTEGER_BITS, Nat.shiftLeft_eq, Nat.mod_add_mod, Nat.mul_comm]

/-- The bits of a word from a on. -/
private theorem word_scan {x : Flag} {i : Nat} (hx : ∀ j < UNSIGNED_INTEGER_BITS, bit (UNSIGNED_INTEGER_BITS * i + j) = x.getMsbD j) :
    ∀ n a s, a + n ≤ UNSIGNED_INTEGER_BITS →
      (List.range' a n).foldlM (fun s j => Found.bit s (Word.add (firstBit i) j) ((x <<< j) >>> UNINT_MAX_SHIFT_BITS).toNat) s =
        scan bit n (UNSIGNED_INTEGER_BITS * i + a) s := by
  intro n
  induction n with
  | zero => exact fun a s _ => rfl
  | succ n ih =>
    intro a s ha
    rw [List.range'_succ, List.foldlM_cons, scan, top_bit, add_firstBit, hx a (by omega)]
    congr 1
    funext s'
    exact ih (a + 1) s' (by omega)

private theorem words_scan : ∀ arr i s, (∀ m (hm : m < arr.length), ∀ j < UNSIGNED_INTEGER_BITS,
      bit (UNSIGNED_INTEGER_BITS * (i + m) + j) = arr[m].getMsbD j) →
    Found.words arr i s = scan bit (UNSIGNED_INTEGER_BITS * arr.length) (UNSIGNED_INTEGER_BITS * i) s := by
  intro arr
  induction arr with
  | nil => exact fun i s _ => rfl
  | cons x arr ih =>
    intro i s hbits
    have hword : s.word x i = scan bit UNSIGNED_INTEGER_BITS (UNSIGNED_INTEGER_BITS * i) s := by
      rw [Found.word, List.range_eq_range']
      exact word_scan (hbits 0 (Nat.succ_pos _)) _ 0 s (Nat.le_refl _)
    rw [Found.words, hword, List.length_cons, Nat.mul_succ, Nat.add_comm (UNSIGNED_INTEGER_BITS * arr.length), scan_add]
    congr 1
    funext s'
    refine ih (i + 1) s' fun m hm j hj => ?_
    rw [Nat.add_assoc, Nat.add_comm 1 m]
    exact hbits (m + 1) (Nat.succ_lt_succ hm) j hj

theorem flagBit_word (arr : List Flag) {m j : Nat} (hm : m < arr.length) (hj : j < UNSIGNED_INTEGER_BITS) :
    flagBit arr (UNSIGNED_INTEGER_BITS * m + j) = arr[m].getMsbD j := by
  have hdiv : (UNSIGNED_INTEGER_BITS * m + j) / UNSIGNED_INTEGER_BITS = m := by
    rw [Nat.mul_add_div (by decide), Nat.div_eq_of_lt hj, Nat.add_zero]
  rw [flagBit, hdiv, Nat.mul_add_mod, Nat.mod_eq_of_lt hj, List.getD_eq_getElem?_getD, List.getElem?_eq_getElem hm]
  rfl

/-- The number of flags. -/
def flags (arr : List Flag) : Nat := UNSIGNED_INTEGER_BITS * arr.length

private theorem words_flags (arr : List Flag) (s : Found) : Found.words arr 0 s = scan (flagBit arr) (flags arr) 0 s :=
  words_scan arr 0 s fun m hm j hj => by rw [Nat.zero_add, flagBit_word arr hm hj]

-- The law of FindFlagPos

/-- The set bits form one run, from first to before last. -/
def IsRun (arr : List Flag) (first last : Nat) : Prop :=
  first < last ∧ last ≤ flags arr ∧ ∀ k < flags arr, flagBit arr k = true ↔ first ≤ k ∧ k < last

/-- FindFlagPos succeeds iff there is one run, and delimits it. -/
def FindFlagLaw (arr : List Flag) : Prop :=
  ((findFlagPos arr).1 = ENOERR ↔ ∃ first last, IsRun arr first last) ∧
    ∀ first last, IsRun arr first last → (findFlagPos arr).2 = (first,last)

/-- All the runs start where the magic number stands for no start, except the last. -/
def OnlyLast (arr : List Flag) : Prop :=
  ∃ k, LastBelow (Starts (flagBit arr)) (flags arr) k ∧ k % 2^32 ≠ BCACHE_MAGIC_NUM ∧
    ∀ i < k, Starts (flagBit arr) i → i % 2^32 = BCACHE_MAGIC_NUM

/-- A single run does not start at the magic number and ends below 2^32; of several runs another than the last starts at a place that is not
taken for none, or the last one at a place that is. -/
def FindFlagOk (arr : List Flag) : Prop :=
  (∀ first last, IsRun arr first last → first ≠ BCACHE_MAGIC_NUM ∧ last < 2^32) ∧
    ((¬∃ first last, IsRun arr first last) → ¬OnlyLast arr)

/-- The search fails, or what it has found in all the bits is the result. -/
private theorem findFlagPos_cases (arr : List Flag) :
    ((findFlagPos arr).1 = VFS_ERROR ∧ ¬OnlyLast arr) ∨
      ∃ s, FoundIn (flagBit arr) (flags arr) s ∧ s.start ≠ BCACHE_MAGIC_NUM ∧ OnlyLast arr ∧
        findFlagPos arr = (ENOERR,s.start,if s.stop = 0 then flags arr % 2^32 else s.stop) := by
  have hrun := FoundIn.scan (flags arr) 0 _ (foundIn_init (flagBit arr))
  rw [Nat.zero_add] at hrun
  rw [findFlagPos, words_flags]
  cases hs : scan (flagBit arr) (flags arr) 0 ⟨BCACHE_MAGIC_NUM,0,1⟩ with
  | error s =>
    rw [hs] at hrun
    obtain ⟨i,j,hij,hj,hi,hne,hstart⟩ := hrun
    refine .inl ⟨rfl,?_⟩
    rintro ⟨k,hk,_,hrest⟩
    have hjk : j ≤ k := Nat.not_lt.mp fun hlt => hk.2.2 j hlt hj hstart
    exact hne (hrest i (hij.trans_le hjk) hi)
  | ok s =>
    rw [hs] at hrun
    rcases hrun.start with ⟨hmagic,hall⟩ | ⟨hne,k,hk,hstart,hrest⟩
    · refine .inl ⟨by simp only [if_pos hmagic],?_⟩
      rintro ⟨k,hk,hne,_⟩
      exact hne (hall k hk.1 hk.2.1)
    · refine .inr ⟨s,hrun,hne,⟨k,hk,hstart ▸ hne,hrest⟩,?_⟩
      simp only [if_neg hne]
      rw [firstBit, Word.shl, UNINT_LOG2_SHIFT, Nat.shiftLeft_eq, flags, Nat.mul_comm]
      rfl

private theorem findFlagPos_ok_iff (arr : List Flag) : (findFlagPos arr).1 = ENOERR ↔ OnlyLast arr := by
  rcases findFlagPos_cases arr with ⟨hret,hno⟩ | ⟨s,_,_,hyes,hret⟩
  · rw [hret]
    exact iff_of_false (by decide) hno
  · rw [hret]
    exact iff_of_true rfl hyes

variable {first last : Nat}

private theorem IsRun.starts_iff (h : IsRun arr first last) (hk : k < flags arr) : Starts (flagBit arr) k ↔ k = first := by
  obtain ⟨hlt,hlast,hbits⟩ := h
  rw [Starts, hbits k hk, ← Bool.not_eq_true, hbits (k - 1) (by omega)]
  omega

private theorem IsRun.ends_iff (h : IsRun arr first last) (hk : k < flags arr) : Ends (flagBit arr) k ↔ k = last := by
  obtain ⟨hlt,hlast,hbits⟩ := h
  rw [Ends, ← Bool.not_eq_true, hbits k hk, hbits (k - 1) (by omega)]
  omega

private theorem IsRun.lastStart (h : IsRun arr first last) : LastBelow (Starts (flagBit arr)) (flags arr) first := by
  have hfirst : first < flags arr := h.1.trans_le h.2.1
  refine ⟨hfirst,(h.starts_iff hfirst).mpr rfl,fun i hi hlt hs => ?_⟩
  rw [h.starts_iff hlt] at hs
  omega

/-- A single run is found unless its start is taken for none. -/
private theorem IsRun.onlyLast_iff (h : IsRun arr first last) : OnlyLast arr ↔ first % 2^32 ≠ BCACHE_MAGIC_NUM := by
  constructor
  · rintro ⟨k,hk,hne,_⟩
    rwa [hk.unique h.lastStart] at hne
  · intro hne
    refine ⟨first,h.lastStart,hne,fun i hi hs => ?_⟩
    rw [h.starts_iff (hi.trans (h.1.trans_le h.2.1))] at hs
    omega

/-- The places of a single run, as UINT32. -/
theorem IsRun.found (h : IsRun arr first last) (hne : first % 2^32 ≠ BCACHE_MAGIC_NUM) :
    (findFlagPos arr).2 = (first % 2^32,if last % 2^32 = 0 then flags arr % 2^32 else last % 2^32) := by
  rcases findFlagPos_cases arr with ⟨_,hno⟩ | ⟨s,hs,hstart,_,hret⟩
  · exact absurd (h.onlyLast_iff.mpr hne) hno
  · rw [hret]
    refine Prod.ext ?_ ?_
    · rcases hs.start with hmagic | ⟨_,k,hk,hk',_⟩
      · exact absurd hmagic.1 hstart
      · rw [hk', hk.unique h.lastStart]
    · rcases hs.stop with ⟨hstop,hnone⟩ | ⟨k,hk,hstop⟩
      · -- the run reaches the end of the flags
        have hlast : last = flags arr := by
          refine h.2.1.antisymm (Nat.not_lt.mp fun hlt => hnone last hlt ((h.ends_iff hlt).mpr rfl))
        simp only [hstop, hlast, if_true]
        split_ifs <;> rfl
      · simp only [hstop, (h.ends_iff hk.1).mp hk.2.1]

theorem findFlagLaw_iff (arr : List Flag) : FindFlagLaw arr ↔ FindFlagOk arr := by
  rw [FindFlagLaw, findFlagPos_ok_iff]
  constructor
  · rintro ⟨hret,hplaces⟩
    refine ⟨fun first last h => ?_,fun hno hyes => hno (hret.mp hyes)⟩
    have hne := h.onlyLast_iff.mp (hret.mpr ⟨first,last,h⟩)
    have hfound := h.found hne
    rw [hplaces first last h, Prod.mk.injEq] at hfound
    obtain ⟨hfirst,hlast⟩ := hfound
    refine ⟨fun hmagic => hne ?_,?_⟩
    · rw [← hfirst, hmagic]
    · rw [hlast]
      split_ifs <;> exact Nat.mod_lt _ (by decide)
  · rintro ⟨hruns,hmany⟩
    refine ⟨⟨fun hyes => by_contra fun hno => hmany hno hyes,?_⟩,fun first last h => ?_⟩
    · rintro ⟨first,last,h⟩
      obtain ⟨hne,hlast⟩ := hruns first last h
      rwa [h.onlyLast_iff, Nat.mod_eq_of_lt (h.1.trans hlast)]
    · obtain ⟨hne,hlast⟩ := hruns first last h
      have hfirst : first % 2^32 = first := Nat.mod_eq_of_lt (h.1.trans hlast)
      rw [h.found (by rwa [hfirst]), hfirst, Nat.mod_eq_of_lt hlast, if_neg (Nat.ne_zero_of_lt h.1)]

/-- A run that starts at the magic number is not found. -/
theorem not_findFlagOk_magic {arr : List Flag} {last : Nat} (h : IsRun arr BCACHE_MAGIC_NUM last) : ¬FindFlagOk arr :=
  fun hok => (hok.1 _ _ h).1 rfl

end LiteOsKernel.Bcache
