import LiteOsKernel.Mem.TlsfRealloc

/-! The representation invariant of a TLSF pool as its clients see it, the pointers they hold,
and the effect of one call on both. -/
namespace LiteOsKernel.Mem.Tlsf
open LiteOsKernel Links Lib

variable {p p' : MemPool} {E E' : List Area} {N N' F F' D U : Set Nat} {L L' : Nat → List Nat} {a b c k q r : Nat}
  {x : Option Area}

/-- The node is free when its used flag is clear. -/
def Free (p : MemPool) (a : Nat) : Prop := getUsedFlag (p.sizeAndFlag a) = 0

/-- The representation invariant. The nodes ns tile the area from the pool head to the end
sentinel, each names the one before it, no two neighbours are free, and the lists L and the
bitmap hold exactly the free nodes, each in the list of its size class. -/
def PoolInvariant (p : MemPool) : Prop :=
  ∃ (ns : List Nat) (L : Nat → List Nat),
    Tiling.Path p.size (osMemFirstNode p) ns (osMemEndNode p.pool p.totalSize) ∧ (∀ a ∈ ns, 20 ≤ p.size a) ∧
    ns.IsChain (fun a b => p.ptr b = a ∧ ¬(Free p a ∧ Free p b)) ∧
    (∀ i a, a ∈ L i ↔ a ∈ ns ∧ Free p a ∧ osMemFreeListIndexGet (p.size a) = i) ∧
    (∀ i, (L i).Nodup ∧ Linked p.prev p.next (L i)) ∧
    ∀ i < OS_MEM_FREE_LIST_COUNT, p.freeList i = (L i).headD 0 ∧ (bitSet p i = true ↔ L i ≠ [])

theorem Inv.poolInvariant (h : Inv p [] N F ∅ ∅ L) : PoolInvariant p := by
  have hpool : (⟨osMemFirstNode p,endAddr p,0⟩ : Extent) ∈ extents p [] := pool_mem_extents
  obtain ⟨ns,hpath,hmem,hchain⟩ := h.nodes.tiling.exists_path hpool
  have hmemN : ∀ a, a ∈ ns ↔ a ∈ N := by
    intro a
    rw [hmem]
    refine ⟨fun ha => ha.1,fun ha => ⟨ha,?_⟩⟩
    obtain ⟨e,he,h1,h2⟩ := h.nodes.tiling.home a ha
    obtain rfl : e = ⟨osMemFirstNode p,endAddr p,0⟩ := by simpa [extents] using he
    have := h.inside ha
    exact ⟨h1,by omega⟩
  have hfree : ∀ a ∈ N, Free p a ↔ a ∈ F := by
    intro a ha
    rw [Free, h.used_zero_iff ha]
    exact ⟨fun hf => (h.full a ha hf).resolve_right (Set.notMem_empty a),fun hm => (h.sub a hm).2⟩
  refine ⟨ns,L,by rw [h.endNode_eq]; exact hpath,fun a ha => (h.inside ((hmemN a).mp ha)).2.1,?_,?_,
    fun i => ⟨h.lists.nodup i,h.lists.linked i⟩,?_⟩
  · apply hchain.imp_of_mem_imp
    intro a b ha hb hab
    have haN := (hmemN a).mp ha
    have hbN := (hmemN b).mp hb
    refine ⟨hab ▸ h.nodes.tiling.prev_next a haN (hab ▸ hbN),?_⟩
    rw [hfree a haN, hfree b hbN, ← hab]
    exact fun hc => h.coalesced a hc.1 hc.2
  · intro i a
    rw [h.lists.mem_iff, hmemN]
    constructor
    · rintro ⟨ha,he⟩
      obtain ⟨haN,haf⟩ := h.sub a ha
      exact ⟨haN,(hfree a haN).mpr ha,by rw [← h.free_eq haN haf, he]⟩
    · rintro ⟨haN,hf,he⟩
      have ha := (hfree a haN).mp hf
      exact ⟨ha,by rw [h.free_eq haN (h.sub a ha).2, he]⟩
  · intro i hi
    exact ⟨h.lists.head i hi,h.lists.bit i (by simp only [OS_MEM_FREE_LIST_COUNT] at hi; omega)⟩

-- Pointers

/-- The node a owns the client pointer q: its payload starts there, or the word before q
holds the gap from the payload's start. -/
def Owns (p : MemPool) (a q : Nat) : Prop :=
  (q = a + 12 ∧ Plain p a) ∨ ∃ g, 4 ≤ g ∧ g%4 = 0 ∧ g + 12 ≤ p.size a ∧ q = a + 12 + g ∧
    p.sizeAndFlag a = p.size a + 2^31 + 2^30 ∧ p.mem (q - 4) = 2^30 + g

theorem Owns.used (h : Owns p a q) : 2^31 ≤ p.sizeAndFlag a := by
  rcases h with ⟨-,h⟩ | ⟨g,-,-,-,-,h,-⟩
  · rw [h]
    omega
  · omega

theorem Owns.le (h : Owns p a q) : a + 12 ≤ q := by
  rcases h with ⟨h,-⟩ | ⟨g,-,-,-,h,-,-⟩ <;> omega

theorem Owns.kept {X : Set Nat} (h : Owns p a q) (ha : a ∈ N) (hX : a ∉ X) (hk : UsedKept p N p' N' X) :
    a ∈ N' ∧ Owns p' a q := by
  obtain ⟨h1,h2,h3⟩ := hk.keep a ha hX h.used
  refine ⟨h1,?_⟩
  have hsz : p'.size a = p.size a := by rw [MemPool.size, h2, MemPool.size]
  rcases h with ⟨hq,hp⟩ | ⟨g,hg4,hgm,hgs,hq,hsf,hw⟩
  · exact .inl ⟨hq,hp.congr h2⟩
  · exact .inr ⟨g,hg4,hgm,by omega,hq,by omega,by rw [h3 _ (by omega) (by omega), hw]⟩

section Decode
variable (h : Inv p E N F D U L) (ha : a ∈ N) (ho : Owns p a q)
include h ha ho

private theorem gap_word : (p.mem (Word.sub q 4) = p.size a + 2^31 ∧ q = a + 12) ∨
    ∃ g, p.mem (Word.sub q 4) = 2^30 + g ∧ g < 2^29 ∧ g%4 = 0 ∧ q = a + 12 + g := by
  have hb := h.inside ha
  have hs := h.size_lt ha
  rw [Word.sub_eq (by rcases ho with ⟨h1,-⟩ | ⟨g,-,-,-,h1,-⟩ <;> omega)]
  rcases ho with ⟨h1,h2⟩ | ⟨g,h3,h4,h5,h1,h6,h7⟩
  · refine .inl ⟨?_,h1⟩
    rw [h1, show a + 12 - 4 = a + 8 by omega]
    exact h2
  · exact .inr ⟨g,h7,by omega,h4,h1⟩

theorem getRealPtr_eq : osGetRealPtr p q = a + 12 := by
  have hs := h.size_lt ha
  have htop := h.fixed.top
  rcases gap_word h ha ho with ⟨hw,hq⟩ | ⟨g,hw,hg,hg4,hq⟩
  · have hal : getAlignedFlag (p.size a + 2^31) = 0 := by
      rw [getAlignedFlag_eq_zero]
      omega
    simp only [osGetRealPtr, hw, hal, ne_eq, not_true_eq_false, false_and, if_false]
    exact hq
  · have hal : getAlignedFlag (2^30 + g) ≠ 0 := by
      rw [ne_eq, getAlignedFlag_eq_zero]
      omega
    have hus : getUsedFlag (2^30 + g) = 0 := (getUsedFlag_eq_zero (by omega)).mpr (by omega)
    have hlow : g &&& (OS_MEM_ALIGN_SIZE - 1) = 0 := by
      rw [show OS_MEM_ALIGN_SIZE - 1 = 2^2 - 1 from rfl, Nat.and_two_pow_sub_one_eq_mod]
      exact hg4
    -- below the pool the distance from the pool head wraps round
    have hsub : ¬Word.sub (Word.sub q OS_MEM_NODE_HEAD_SIZE) p.pool < g := by
      rw [OS_MEM_NODE_HEAD_SIZE, Word.sub_eq (x := q) (by omega)]
      rcases Nat.lt_or_ge (q - 12) p.pool with hlt | hge
      · rw [Word.sub_eq_of_lt hlt]
        omega
      · rw [Word.sub_eq hge]
        obtain ⟨e,he,h1,h2⟩ := h.nodes.tiling.home a ha
        rcases mem_extents.mp he with rfl | ⟨x,hx,rfl⟩
        · simp only [Inv.first_eq] at h1
          omega
        · have h3 := (h.fixed.areas x hx).outside
          have h4 := h.fixed.total_ge
          simp only [sizeofPoolHead] at h4
          simp only [Area.extent, Area.sentinel] at h1 h2
          rcases ho with ⟨h7,-⟩ | ⟨g',-,-,h7,h8,-⟩ <;> omega
    simp only [osGetRealPtr, hw, hus, ne_eq, not_true_eq_false, and_false, if_false, getAlignedGapsize_eq
      (show g < 2^30 by omega), hlow, false_or]
    rw [if_pos hal, if_neg hsub, Word.sub_eq (by omega)]
    omega

theorem losMemFree_eq (lf : Nat → Bool) : losMemFree lf p q = osMemFree lf p a := by
  have hb := h.bounds ha
  have hs := h.size_lt ha
  have hcheck : ¬(q = 0 ∨ !osMemIsAligned p.pool 4 ∨ !osMemIsAligned q 4) := by
    have h1 : osMemIsAligned p.pool 4 = true := (osMemIsAligned_four _).mpr h.fixed.pool_mod
    have h2 : osMemIsAligned q 4 = true := by
      rw [osMemIsAligned_four]
      rcases ho with ⟨hq,-⟩ | ⟨g,-,hg,-,hq,-⟩ <;> omega
    have h3 : q ≠ 0 := by rcases ho with ⟨hq,-⟩ | ⟨g,-,hg,-,hq,-⟩ <;> omega
    simp [h1, h2, h3]
  simp only [losMemFree, hcheck, if_false]
  rcases gap_word h ha ho with ⟨hw,hq⟩ | ⟨g,hw,hg,hg4,hq⟩
  · have hal : getAlignedFlag (p.size a + 2^31) = 0 := by
      rw [getAlignedFlag_eq_zero]
      omega
    simp only [hw, hal, ne_eq, not_true_eq_false, false_and, if_false]
    rw [OS_MEM_NODE_HEAD_SIZE, Word.sub_eq (by omega), show q - 12 = a by omega]
  · have hal : getAlignedFlag (2^30 + g) ≠ 0 := by
      rw [ne_eq, getAlignedFlag_eq_zero]
      omega
    have hus : getUsedFlag (2^30 + g) = 0 := (getUsedFlag_eq_zero (by omega)).mpr (by omega)
    have hlow : g &&& (OS_MEM_ALIGN_SIZE - 1) = 0 := by
      rw [show OS_MEM_ALIGN_SIZE - 1 = 2^2 - 1 from rfl, Nat.and_two_pow_sub_one_eq_mod]
      exact hg4
    simp only [hw, hus, ne_eq, not_true_eq_false, and_false, if_false, getAlignedGapsize_eq
      (show g < 2^30 by omega), hlow, false_or]
    rw [if_pos hal, OS_MEM_NODE_HEAD_SIZE, Word.sub_eq (by omega), if_neg (by omega), Word.sub_eq (x := q) (by omega),
      Word.sub_eq (by omega), show q - g - 12 = a by omega]

end Decode

-- The calls

/-- The requested size with the minimum that the allocating calls apply. -/
def minSize (size : Nat) : Nat := if size < OS_MEM_MIN_ALLOC_SIZE then OS_MEM_MIN_ALLOC_SIZE else size

/-- The size that LOS_MemAlloc asks OsMemAlloc for, unless it refuses the request. -/
def allocUse (size : Nat) : Option Nat :=
  if size = 0 ∨ getUsedFlag (minSize size) ≠ 0 ∨ getAlignedFlag (minSize size) ≠ 0 then none else some (minSize size)

theorem losMemAlloc_eq (p : MemPool) (size : Nat) : losMemAlloc p size =
    match allocUse size with
    | none => (p, 0)
    | some s => osMemAlloc p s := by
  rw [losMemAlloc, allocUse]
  by_cases h0 : size = 0
  · simp [h0]
  rw [if_neg h0]
  change (if getUsedFlag (minSize size) ≠ 0 ∨ getAlignedFlag (minSize size) ≠ 0 then (p, 0)
    else osMemAlloc p (minSize size)) = _
  by_cases hf : getUsedFlag (minSize size) ≠ 0 ∨ getAlignedFlag (minSize size) ≠ 0
  · rw [if_pos hf, if_pos (.inr hf)]
  · rw [if_neg hf, if_neg (not_or.mpr ⟨h0,hf⟩)]

/-- The size that LOS_MemAllocAlign asks OsMemAlloc for, unless it refuses the request. -/
def alignUse (size boundary : Nat) : Option Nat :=
  let useSize := Word.sub (Word.add (minSize size) boundary) 4
  if (size = 0 ∨ boundary = 0 ∨ !osMemIsPowTwo boundary ∨ !osMemIsAligned boundary 4) ∨
      Word.sub 0xFFFFFFFF (minSize size) < Word.sub boundary 4 ∨ getUsedFlag useSize ≠ 0 ∨ getAlignedFlag useSize ≠ 0
  then none else some useSize

/-- What LOS_MemAllocAlign does with the pointer from OsMemAlloc. -/
def alignPtr (boundary : Nat) : MemPool × Nat → MemPool × Nat
  | (p, ptr) =>
    let alignedPtr := osMemAlign ptr boundary
    if ptr = alignedPtr then (p, ptr)
    else
      let gapSize := Word.sub alignedPtr ptr
      let allocNode := Word.sub ptr OS_MEM_NODE_HEAD_SIZE
      let p := p.setSizeAndFlag allocNode (p.sizeAndFlag allocNode ||| OS_MEM_NODE_ALIGNED_FLAG)
      (p.setWord (Word.sub alignedPtr 4) (gapSize ||| OS_MEM_NODE_ALIGNED_FLAG), alignedPtr)

theorem losMemAllocAlign_eq (p : MemPool) (size boundary : Nat) : losMemAllocAlign p size boundary =
    match alignUse size boundary with
    | none => (p, 0)
    | some s => alignPtr boundary (osMemAlloc p s) := by
  rw [losMemAllocAlign]
  by_cases h1 : size = 0 ∨ boundary = 0 ∨ !osMemIsPowTwo boundary ∨ !osMemIsAligned boundary 4
  · simp only [h1, alignUse, if_true, true_or]
  rw [if_neg h1]
  change (if Word.sub 0xFFFFFFFF (minSize size) < Word.sub boundary 4 then (p, 0)
    else if getUsedFlag (Word.sub (Word.add (minSize size) boundary) 4) ≠ 0 ∨
      getAlignedFlag (Word.sub (Word.add (minSize size) boundary) 4) ≠ 0 then (p, 0)
    else alignPtr boundary (osMemAlloc p (Word.sub (Word.add (minSize size) boundary) 4))) = _
  by_cases h2 : Word.sub 0xFFFFFFFF (minSize size) < Word.sub boundary 4
  · simp only [h2, alignUse, if_true, true_or, or_true]
  by_cases h3 : getUsedFlag (Word.sub (Word.add (minSize size) boundary) 4) ≠ 0 ∨
      getAlignedFlag (Word.sub (Word.add (minSize size) boundary) 4) ≠ 0
  · simp only [h3, alignUse, if_true, or_true, ite_self]
  · simp only [h1, h2, h3, alignUse, if_false, or_self]

theorem size_ok {size : Nat} (h : size < 2^32) (hf : ¬(getUsedFlag size ≠ 0 ∨ getAlignedFlag size ≠ 0)) :
    size < 2^30 := by
  simp only [ne_eq, not_or, not_not] at hf
  have h1 := (getUsedFlag_eq_zero h).mp hf.1
  have h2 := (getAlignedFlag_eq_zero size).mp hf.2
  omega

theorem minSize_bounds {size : Nat} (h : size < 2^32) : 8 ≤ minSize size ∧ minSize size < 2^32 ∧ size ≤ minSize size := by
  rw [minSize]
  split <;> simp only [OS_MEM_MIN_ALLOC_SIZE] at * <;> omega

theorem allocUse_spec {size s : Nat} (h : size < 2^32) (hs : allocUse size = some s) : 8 ≤ s ∧ s < 2^30 ∧ size ≤ s := by
  rw [allocUse] at hs
  split at hs
  case isTrue => cases hs
  case isFalse hf =>
    obtain rfl := Option.some.inj hs
    have hb := minSize_bounds h
    exact ⟨hb.1,size_ok hb.2.1 (not_or.mp hf).2,hb.2.2⟩

theorem alignUse_spec {size boundary s : Nat} (h : size < 2^32) (hb : boundary < 2^32) (hs : alignUse size boundary = some s) :
    s < 2^30 ∧ s = minSize size + boundary - 4 ∧ ∃ i, 2 ≤ i ∧ i < 30 ∧ boundary = 2^i := by
  have hm := minSize_bounds h
  rw [alignUse] at hs
  split at hs
  case isTrue => cases hs
  case isFalse hf =>
  obtain rfl := Option.some.inj hs
  simp only [not_or, Bool.not_eq_true', Bool.not_eq_false] at hf
  obtain ⟨⟨-,hb0,hpow,hb4⟩,hov,hfl⟩ := hf
  obtain ⟨i,-,rfl⟩ := (osMemIsPowTwo_iff hb0 hb).mp hpow
  have hi2 : 2 ≤ i := by
    by_contra hlt
    have := (osMemIsAligned_four _).mp hb4
    have hcase : i = 0 ∨ i = 1 := by omega
    rcases hcase with rfl | rfl <;> norm_num at this
  have hp4 : 2^2 ≤ 2^i := Nat.pow_le_pow_right (by norm_num) hi2
  rw [Word.sub_eq (x := 0xFFFFFFFF) (by omega), Word.sub_eq (by omega)] at hov
  have huse : Word.sub (Word.add (minSize size) (2^i)) 4 = minSize size + 2^i - 4 := by
    rcases Nat.lt_or_ge (minSize size + 2^i) (2^32) with hlt | hge
    · rw [Word.add_eq hlt, Word.sub_eq (by omega)]
    · rw [Word.add, show (minSize size + 2^i)%2^32 = minSize size + 2^i - 2^32 by omega, Word.sub_eq_of_lt (by omega)]
      omega
  rw [huse] at hfl ⊢
  have h30 : minSize size + 2^i - 4 < 2^30 := size_ok (by omega) (not_or.mpr hfl)
  refine ⟨h30,rfl,i,hi2,?_,rfl⟩
  by_contra hlt
  have := Nat.pow_le_pow_right (show 0 < 2 by norm_num) (show 30 ≤ i by omega)
  omega

/-- A pool in which p has handed out the pointer q in the node a of r bytes, after it obtained the area x
if it had to. -/
structure Granted (p p' : MemPool) (x : Option Area) (E : List Area) (N F N' F' : Set Nat) (L' : Nat → List Nat)
    (a r q : Nat) : Prop where
  inv : Inv p' (E ++ x.toList) N' F' ∅ ∅ L'
  mem : a ∈ N'
  owns : Owns p' a q
  new : a ∈ N → p.sizeAndFlag a < 2^31
  room : r < 2^29 → r ≤ p'.size a
  huge : 2^29 ≤ r → a ∈ F ∧ hugeBound r ≤ p.size a ∧ p'.size a = p.size a
  used : UsedKept p N p' N' {a}
  attr : p'.attr = p.attr
  recorded : Recorded (countArea p x) p' (p'.size a)

theorem Granted.lt (h : Granted p p' x E N F N' F' L' a r q) (hr : r < 2^29 ∨ ∀ b ∈ F, p.size b < hugeBound r) :
    r < 2^29 := by
  by_contra hge
  obtain ⟨g1,g2,-⟩ := h.huge (by omega)
  rcases hr with hr | hr
  · exact hge hr
  · have := hr a g1
    omega

theorem Allocated.granted (h : Allocated p p' x E N F N' F' L' a r) : Granted p p' x E N F N' F' L' a r (a + 12) :=
  ⟨h.inv,h.mem,.inl ⟨rfl,h.plain⟩,h.new,h.room,h.huge,h.used,h.attr,h.recorded⟩

namespace Inv

theorem losMemAlloc (h : Inv p E N F ∅ ∅ L) {size s : Nat} (hsz : size < 2^32) (hs : allocUse size = some s)
    (hx : ∀ x, grownArea p (allocSizeOf s) = some x → x.Fresh p E) (he : Tlsf.losMemAlloc p size = (p', r)) :
    (NoRoom p (allocSizeOf s) ∧ r = 0 ∧ ∃ pages, p' = { p with pages := pages }) ∨
      ¬NoRoom p (allocSizeOf s) ∧ ∃ a N' F' L', r = a + 12 ∧ Granted p p' (grownArea p (allocSizeOf s)) E N F N' F' L' a (allocSizeOf s) r := by
  obtain ⟨h8,h30,-⟩ := allocUse_spec hsz hs
  rw [losMemAlloc_eq, hs] at he
  rcases h.osMemAlloc h8 h30 hx he with h1 | ⟨hn,a,N',F',L',rfl,hA⟩
  · exact .inl h1
  · exact .inr ⟨hn,a,N',F',L',rfl,hA.granted⟩

/-- The aligned pointer lies in the node, unless a request of 2^29 bytes for that boundary was served by
a smaller one. -/
theorem losMemAllocAlign (h : Inv p E N F ∅ ∅ L) {size boundary s : Nat} (hsz : size < 2^32) (hbd : boundary < 2^32)
    (hs : alignUse size boundary = some s) (hx : ∀ x, grownArea p (allocSizeOf s) = some x → x.Fresh p E)
    (hfit : boundary ≠ 2^29 ∨ ∀ c ∈ F, p.size c < hugeBound (allocSizeOf s))
    (he : Tlsf.losMemAllocAlign p size boundary = (p', r)) :
    (NoRoom p (allocSizeOf s) ∧ r = 0 ∧ ∃ pages, p' = { p with pages := pages }) ∨
      ¬NoRoom p (allocSizeOf s) ∧ ∃ a N' F' L', r%boundary = 0 ∧ r < a + 12 + boundary ∧
        Granted p p' (grownArea p (allocSizeOf s)) E N F N' F' L' a (allocSizeOf s) r := by
  obtain ⟨h30,hsm,i,hi2,hi30,rfl⟩ := alignUse_spec hsz hbd hs
  have hm := minSize_bounds hsz
  have hp4 : 2^2 ≤ 2^i := Nat.pow_le_pow_right (by norm_num) hi2
  have h4i : 2^i%4 = 0 := Nat.mod_eq_zero_of_dvd (pow_dvd_pow 2 hi2)
  have h29 : 2^i ≤ 2^29 := Nat.pow_le_pow_right (by norm_num) (by omega)
  rw [losMemAllocAlign_eq, hs] at he
  dsimp only at he
  rcases halloc : Tlsf.osMemAlloc p s with ⟨p₁,ptr⟩
  rw [halloc, alignPtr] at he
  dsimp only at he
  rcases h.osMemAlloc (by omega) h30 hx halloc with ⟨hn,rfl,hq⟩ | ⟨hn,a,N',F',L',rfl,hA⟩
  · rw [osMemAlign_two_pow (by omega) (by omega), show Word.alignUp 0 (2^i) = 0 by
      rw [Word.alignUp, Nat.zero_add, Nat.div_eq_of_lt (by omega), Nat.zero_mul], if_pos rfl] at he
    obtain ⟨rfl,rfl⟩ := Prod.mk.inj he
    exact .inl ⟨hn,rfl,hq⟩
  have h' := hA.inv
  have ha := hA.mem
  have hpl := hA.plain
  have hb := h'.bounds ha
  have hsla := h'.size_lt ha
  -- the node has room for every gap below the boundary
  have hroom : 2^i + 12 ≤ p₁.size a := by
    by_cases h5 : allocSizeOf s < 2^29
    · have := hA.room h5
      rw [allocSizeOf] at this
      omega
    · obtain ⟨g1,g2,g3⟩ := hA.huge (by omega)
      rcases hfit with hne | hno
      · have h28 : 2^i ≤ 2^28 := by
          apply Nat.pow_le_pow_right (by norm_num)
          by_contra hlt
          exact hne (by rw [show i = 29 by omega])
        rw [hugeBound] at g2
        omega
      · have := hno a g1
        omega
  rw [osMemAlign_two_pow (by omega) (by omega)] at he
  have hal := Word.le_alignUp (a + 12) (show 0 < 2^i by omega)
  have hal2 := Word.alignUp_lt (a + 12) (show 0 < 2^i by omega)
  have hdvd := Word.dvd_alignUp (a + 12) (2^i)
  have hal4 : Word.alignUp (a + 12) (2^i)%4 = 0 :=
    Nat.mod_eq_zero_of_dvd ((Nat.dvd_of_mod_eq_zero h4i).trans hdvd)
  set q := Word.alignUp (a + 12) (2^i)
  split at he
  case isTrue heq =>
    obtain ⟨rfl,rfl⟩ := Prod.mk.inj he
    refine .inr ⟨hn,a,N',F',L',?_,by omega,hA.granted⟩
    rw [heq]
    exact Nat.mod_eq_zero_of_dvd hdvd
  case isFalse hne =>
  have haF : a ∉ F' := fun hm => by
    have := (h'.sub a hm).2
    rw [hpl] at this
    omega
  have hgap : Word.sub q (a + 12) ||| OS_MEM_NODE_ALIGNED_FLAG = 2^30 + (q - (a + 12)) := by
    rw [Word.sub_eq hal]
    have := Word.or_two_pow_of_clear (x := q - (a + 12)) (k := 30) (by omega)
    rw [show OS_MEM_NODE_ALIGNED_FLAG = 2^30 from rfl, this]
    omega
  have hflag : p₁.sizeAndFlag a ||| OS_MEM_NODE_ALIGNED_FLAG = p₁.size a + 2^31 + 2^30 := by
    rw [hpl]
    exact Word.or_two_pow_of_clear (k := 30) (by omega)
  have hnode : Word.sub (a + 12) OS_MEM_NODE_HEAD_SIZE = a := by
    rw [OS_MEM_NODE_HEAD_SIZE, Word.sub_eq (by omega)]
    omega
  rw [hnode, hgap, hflag, Word.sub_eq (x := q) (by omega)] at he
  obtain ⟨rfl,rfl⟩ := Prod.mk.inj he
  obtain ⟨h₂,hk₂⟩ := h'.setFlags ∅ ha haF (v := p₁.size a + 2^31 + 2^30) (.inr (.inr rfl))
    (fun b hb => absurd hb (Set.notMem_empty b)) (fun hlt => by omega) (fun b hb => absurd hb (Set.notMem_empty b))
  have hh₂ := (sameHead_setWord p₁ (a + 8) (p₁.size a + 2^31 + 2^30))
  rw [← MemPool.setSizeAndFlag] at hh₂
  set p₂ := p₁.setSizeAndFlag a (p₁.size a + 2^31 + 2^30)
  have hsf₂ : p₂.sizeAndFlag a = p₁.size a + 2^31 + 2^30 := by rw [sizeAndFlag_setSizeAndFlag, if_pos rfl]
  have hsz₂ : p₂.size a = p₁.size a := by
    rw [MemPool.size, hsf₂]
    omega
  obtain ⟨h₃,hk₃,hp₃⟩ := h₂.setPayload (x := q - 4) (v := 2^30 + (q - (a + 12))) ha (by omega) (by omega) (by omega)
  have hh₃ := hh₂.trans (sameHead_setWord p₂ (q - 4) (2^30 + (q - (a + 12))))
  have hgapAt : (p₂.setWord (q - 4) (2^30 + (q - (a + 12)))).mem (q - 4) = 2^30 + (q - (a + 12)) := by
    rw [MemPool.mem_setWord, if_pos rfl]
  set p₃ := p₂.setWord (q - 4) (2^30 + (q - (a + 12)))
  have hsz₃ : p₃.size a = p₁.size a := (congrArg (· % 2^29) (hk₃.sizeAndFlag a ha)).trans hsz₂
  have hkeep₃ : UsedKept p₂ N' p₃ N' {a} :=
    ⟨fun b hb hba _ => ⟨hb,hk₃.sizeAndFlag b hb,hp₃ b hb hba⟩,fun b hb _ hub => ⟨hb,hk₃.sizeAndFlag b hb ▸ hub⟩⟩
  refine .inr ⟨hn,a,N',F',L',Nat.mod_eq_zero_of_dvd hdvd,by omega,h₃,ha,.inr ⟨q - (a + 12),?_,?_,?_,?_,?_,hgapAt⟩,hA.new,
    ?_,?_,(hA.used.trans hk₂).trans hkeep₃,hh₃.attr.trans hA.attr,?_⟩
  · omega
  · omega
  · omega
  · omega
  · rw [hk₃.sizeAndFlag a ha, hsz₃, hsf₂]
  · rw [hsz₃]
    exact hA.room
  · rw [hsz₃]
    exact hA.huge
  · rw [hsz₃]
    exact ⟨hh₃.curUsedSize.trans hA.recorded.curUsedSize,by
      rw [hh₃.waterLine, hA.recorded.waterLine, hh₃.curUsedSize]⟩

end Inv

end LiteOsKernel.Mem.Tlsf
