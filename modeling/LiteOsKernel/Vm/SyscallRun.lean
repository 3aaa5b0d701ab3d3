import LiteOsKernel.Vm.MapRemove

/-! The region invariant over runs of the memory system calls. -/
namespace LiteOsKernel.Vm
open Rbtree RbZipper LosVmSpace LosVmMapRegion

variable {s s' : LosVmSpace} {l l' : List Nat} {p q addr a b n x y : Nat} {r r' : LosVmMapRegion}

private theorem roundup_spec (x : Nat) : PAGE_SIZE ∣ roundup x PAGE_SIZE ∧ roundup x PAGE_SIZE < 2^32 := by
  have hlt := word_add_lt x (Word.sub PAGE_SIZE 1)
  rw [roundup]
  exact ⟨(page_dvd_and_not hlt).1,Nat.lt_of_le_of_lt (page_dvd_and_not hlt).2 hlt⟩

theorem page_dvd_of_isAligned (h : isAligned x PAGE_SIZE = true) : PAGE_SIZE ∣ x := by
  rw [isAligned, decide_eq_true_eq, show PAGE_SIZE - 1 = 2^12 - 1 from rfl, Nat.and_two_pow_sub_one_eq_mod] at h
  exact Nat.dvd_of_mod_eq_zero h

private theorem checkMMapParams_ok {mask flags len pgoff v : Nat} (hx : x < 2^32)
    (h : osCheckMMapParams mask s x flags len pgoff = .ok v) : PAGE_SIZE ∣ v ∧ v < 2^32 ∧ 0 < len := by
  rw [osCheckMMapParams] at h
  simp only at h
  by_cases h1 : len = 0 ∨ USER_ASPACE_SIZE < len
  · rw [if_pos h1] at h
    cases h
  rw [if_neg h1] at h
  have hlen : 0 < len := by omega
  by_cases h2 : s.mapSize < len
  · rw [if_pos h2] at h
    cases h
  rw [if_neg h2] at h
  by_cases h3 : (flags &&& MAP_FIXED ≠ 0 ∨ flags &&& MAP_FIXED_NOREPLACE ≠ 0) ∧
      (losIsUserAddressRange x len = false ∨ isAligned x PAGE_SIZE = false)
  · rw [if_pos h3] at h
    cases h
  rw [if_neg h3] at h
  split_ifs at h with h4 h5 h6 h7 h8
  · cases h
    rw [not_and] at h3
    have := h3 h7
    rw [not_or, Bool.not_eq_false, Bool.not_eq_false] at this
    exact ⟨page_dvd_of_isAligned this.2,hx,hlen⟩
  · cases h
    exact ⟨Nat.dvd_zero _,by omega,hlen⟩
  · cases h
    exact ⟨(roundup_spec x).1,(roundup_spec x).2,hlen⟩

private theorem mmapRegion_range {filep : Option File} {flags : Nat} (h : mmapRegion filep flags r = some r') : r'.range = r.range := by
  rw [mmapRegion] at h
  split_ifs at h
  · cases filep with
    | none => cases h
    | some f =>
      simp only [Option.bind_some, osNamedMMap] at h
      split at h
      · split_ifs at h <;> (cases h; rfl)
      · cases h
  · cases h
    rfl

/-- The second deletion of the failing path of LOS_MMap finds the node reset and changes nothing. -/
private theorem regionFree_again (h : SpaceInv s l) (hp : p ∈ l) :
    losRegionFree { s with regionRbTree := losRbDelNode s.regionRbTree p } p = losRegionFree s p := by
  have hp0 := h.ne_zero hp
  have hlen := h.length_eq
  obtain ⟨T,hr,hrb,rfl⟩ := h.tree
  have hagain := deleteNode_again hr hrb hlen hp
  rw [losRegionFree, losRegionFree, if_neg hp0, if_neg hp0]
  simp only [losRbDelNode, hagain]

private theorem mmap_inv (mask depth : Nat) (h : SpaceInv s l) (ha : a < 2^32) (n prot flags : Nat)
    (filep : Option File) (pgoff : Nat) : ∃ l', SpaceInv (losMMap mask depth s a n prot flags filep pgoff).1 l' := by
  obtain ⟨hnd,hnlt⟩ := roundup_spec n
  unfold losMMap
  simp only
  cases hc : osCheckMMapParams mask s a flags (roundup n PAGE_SIZE) pgoff with
  | error e => exact ⟨l,h⟩
  | ok v =>
    obtain ⟨hvd,hvlt,hpos⟩ := checkMMapParams_ok ha hc
    obtain ⟨s₁,p,he,l₁,h₁,hss,hp⟩ := regionAlloc_spec (losUnMMap_spec depth) h hvlt hvd hnlt hnd hpos
      (osCvtProtFlagsToRegionFlags prot flags) pgoff
    simp only [he]
    split_ifs with h1 h2 hp0
    · exact ⟨l,h⟩
    · exact ⟨l,h⟩
    · exact ⟨l₁,h₁⟩
    · obtain ⟨-,hpl,-⟩ := hp.resolve_left fun hc => hp0 hc.1
      split
      · next r' hr' => exact ⟨l₁,h₁.setRegion_range ((mmapRegion_range hr').trans rfl)⟩
      · obtain ⟨s₂,hf,h₂,-⟩ := h₁.regionFree hpl
        rw [regionFree_again h₁ hpl, hf]
        exact ⟨_,h₂⟩

private theorem unMMap_inv (depth : Nat) (h : SpaceInv s l) (ha : a < 2^32) (hn : n < 2^32) :
    ∃ l', SpaceInv (losUnMMap depth s a n).1 l' := by
  obtain ⟨s',st,l',he,h',-⟩ := losUnMMap_spec depth h ha hn
  rw [he]
  exact ⟨l',h'⟩

private theorem mprotect_inv (depth : Nat) (h : SpaceInv s l) (ha : a < 2^32) (hn : n < 2^32) (prot : Nat) (changeProt : Int) :
    ∃ l', SpaceInv (losDoMprotect depth s a n prot changeProt).1 l' := by
  obtain ⟨hnd,hnlt⟩ := losAlign_spec hn
  rw [losDoMprotect]
  simp only
  by_cases h1 : isAligned a PAGE_SIZE = false ∨ losRegionFind s a = 0 ∨ Word.add a n < a
  · rw [if_pos h1]
    exact ⟨l,h⟩
  rw [if_neg h1]
  rw [not_or, Bool.not_eq_false] at h1
  have had := page_dvd_of_isAligned h1.1
  have hadjust : ∃ l₁, SpaceInv (if losAlign n PAGE_SIZE < (s.region (losRegionFind s a)).range.size then
      (osVmRegionAdjust (losUnMMap depth) s a (losAlign n PAGE_SIZE)).1 else s) l₁ := by
    split_ifs
    · have hsum : PAGE_SIZE ∣ Word.add a (losAlign n PAGE_SIZE) := by
        rw [Word.add]
        exact (Nat.dvd_mod_iff (by decide)).mpr (Nat.dvd_add had hnd)
      obtain ⟨s₁,st,l₁,he,h₁,-⟩ := regionAdjust_spec (losUnMMap depth) h had ha hsum (word_add_lt _ _)
      rw [he]
      exact ⟨l₁,h₁⟩
    · exact ⟨l,h⟩
  obtain ⟨l₁,h₁⟩ := hadjust
  generalize (if losAlign n PAGE_SIZE < (s.region (losRegionFind s a)).range.size then
      (osVmRegionAdjust (losUnMMap depth) s a (losAlign n PAGE_SIZE)).1 else s) = s₁ at h₁ ⊢
  split_ifs
  all_goals first
    | exact ⟨l,h⟩
    | exact ⟨l₁,h₁⟩
    | exact ⟨l₁,h₁.setRegion_range rfl⟩

/-- LOS_DoBrk(addr) does not grow the heap over another region or out of the space, and the first call does not
set up a heap of no pages: either the call fails before it allocates, or the heap region stays apart from all others. -/
def BrkOk (s : LosVmSpace) (addr : Nat) : Prop :=
  addr = 0 ∨ addr < s.heapBase ∨ addr < s.heapNow ∨ s.mapBase ≤ Word.add s.heapBase (brkSize s addr) ∨
  (s.heapBase = s.heapNow ∧
    (addr ≠ s.heapBase ∨ losRegionFind s s.heapBase ≠ 0 ∨ losRegionFind s (Word.sub s.heapBase 1) ≠ 0)) ∨
  (s.heapBase ≠ s.heapNow ∧ s.heap ∈ scan s.regionRbTree ∧ 0 < brkSize s addr ∧
    (s.region s.heap).range.base + brkSize s addr ≤ s.base + s.size ∧
    ∀ q ∈ scan s.regionRbTree, q ≠ s.heap →
      (s.region q).range.base + (s.region q).range.size ≤ (s.region s.heap).range.base ∨
      (s.region s.heap).range.base + brkSize s addr ≤ (s.region q).range.base)

instance (s : LosVmSpace) (addr : Nat) : Decidable (BrkOk s addr) := by
  unfold BrkOk
  infer_instance

theorem brkSize_spec (s : LosVmSpace) (addr : Nat) : PAGE_SIZE ∣ brkSize s addr ∧ brkSize s addr < 2^32 := roundup_spec _

theorem brkSize_pos (h : SpaceInv s l) (ha : addr < 2^32) (hlt : s.heapBase < addr) : 0 < brkSize s addr := by
  have hb := h.layout.heapBase_pos
  have hd : addr - s.heapBase + 2^12 ≤ 2^32 := by
    rw [PAGE_SIZE] at hb
    omega
  rw [brkSize, Word.sub_eq (Nat.le_of_lt hlt), show PAGE_SIZE = 2^12 from rfl, roundup_two_pow (by omega) hd]
  omega

theorem brkSize_heapBase (s : LosVmSpace) : brkSize s s.heapBase = 0 := by
  rw [brkSize, Word.sub_eq (Nat.le_refl _), Nat.sub_self]
  decide +kernel

/-- The allocation of no bytes at an address that is in use, or right after one, fails. -/
theorem regionAlloc_zero (depth flags pgoff : Nat) (ha : a ≠ 0) (ha' : a < 2^32) (hf : flags &&& VM_MAP_REGION_FLAG_FIXED ≠ 0)
    (hc : losRegionFind s a ≠ 0 ∨ losRegionFind s (Word.sub a 1) ≠ 0) :
    losRegionAlloc (losUnMMap depth) s a 0 flags pgoff = (s,0) := by
  have hadd : Word.add a 0 = a := Word.add_eq ha'
  have hun : ∃ st, losUnMMap depth s a 0 = (s,st) ∧ st ≠ 0 := by
    cases depth with
    | zero => exact ⟨_,rfl,by decide⟩
    | succ depth =>
      refine ⟨-EINVAL,?_,by decide⟩
      rw [losUnMMap, if_pos (.inr rfl)]
  obtain ⟨st,he,hst⟩ := hun
  have hspec : osAllocSpecificRange (losUnMMap depth) s a 0 flags = (s,0) := by
    rw [osAllocSpecificRange, hadd]
    split_ifs with h1 h2 h3
    · rfl
    · rfl
    · simp only [he, if_pos hst]
    · exact absurd (hc.elim .inl fun hc => .inr (.inl hc)) h2
  rw [losRegionAlloc, if_neg ha, hspec]
  rfl

private theorem brk_inv (depth : Nat) (h : SpaceInv s l) (ha : addr < 2^32) (hok : BrkOk s addr) :
    ∃ l', SpaceInv (losDoBrk depth s addr).1 l' := by
  obtain ⟨hsd,hslt⟩ := brkSize_spec s addr
  have hlay := h.layout
  rw [losDoBrk]
  by_cases h1 : addr = 0
  · rw [if_pos h1]
    exact ⟨l,h⟩
  rw [if_neg h1]
  by_cases h2 : addr < s.heapBase
  · rw [if_pos h2]
    exact ⟨l,h⟩
  rw [if_neg h2]
  simp only
  by_cases h3 : addr < s.heapNow
  · -- the heap shrinks
    rw [if_pos h3, osShrinkHeap]
    simp only
    obtain ⟨s',st,l',he,h',-⟩ := losUnMMap_spec depth h (losAlign_spec ha).2
      (word_sub_lt (losAlign_spec h.heapNow_lt).2 (losAlign_spec ha).2)
    simp only [he]
    split_ifs
    · exact ⟨l',h'⟩
    · exact ⟨l',h'.congr rfl rfl rfl rfl ha rfl rfl fun _ hp => hp⟩
  rw [if_neg h3]
  by_cases h4 : s.mapBase ≤ Word.add s.heapBase (brkSize s addr)
  · rw [if_pos h4]
    exact ⟨l,h⟩
  rw [if_neg h4]
  have hok' := ((((hok.resolve_left h1).resolve_left h2).resolve_left h3).resolve_left h4)
  rcases hok' with ⟨hnow,hfirst⟩ | ⟨hnow,hheap,hpos,htop,hapart⟩
  · -- the heap region is set up
    rw [if_pos hnow]
    set flags := VM_MAP_REGION_FLAG_PERM_READ ||| VM_MAP_REGION_FLAG_PERM_WRITE ||| VM_MAP_REGION_FLAG_FIXED |||
      VM_MAP_REGION_FLAG_PERM_USER with hflags
    have hfix : flags &&& VM_MAP_REGION_FLAG_FIXED ≠ 0 := by
      rw [hflags]
      decide
    have hh0 : s.heapBase ≠ 0 := by
      have := hlay.heapBase_pos
      rw [PAGE_SIZE] at this
      omega
    by_cases hzero : addr = s.heapBase
    · have hc := hfirst.resolve_left fun hne => hne hzero
      have halloc := regionAlloc_zero depth flags 0 hh0 hlay.heapBase_lt hfix hc
      rw [hzero, brkSize_heapBase]
      simp only [halloc, if_true]
      exact ⟨l,h⟩
    · have hpos := brkSize_pos h ha (show s.heapBase < addr by omega)
      obtain ⟨s₁,p,he,l₁,h₁,hss,hp⟩ := regionAlloc_spec (losUnMMap_spec depth) h hlay.heapBase_lt hlay.heapBase_dvd
        hslt hsd hpos flags 0
      simp only [he]
      by_cases hp0 : p = 0
      · simp only [if_pos hp0]
        exact ⟨l₁,h₁⟩
      · simp only [if_neg hp0]
        obtain ⟨-,hpl,b,hrange,-⟩ := hp.resolve_left fun hc => hp0 hc.1
        refine ⟨l₁,?_⟩
        have h₂ := h₁.setRegion_range (p := p) (r := { s₁.region p with
          regionFlags := (s₁.region p).regionFlags ||| VM_MAP_REGION_FLAG_HEAP }) rfl
        have h₃ : SpaceInv { s₁.setRegion p { s₁.region p with
            regionFlags := (s₁.region p).regionFlags ||| VM_MAP_REGION_FLAG_HEAP } with
            heap := p, heapNow := Word.add s.heapBase (brkSize s addr) } l₁ :=
          h₂.congr rfl rfl rfl rfl (word_add_lt _ _) rfl rfl fun _ hm => hm
        have hsize : (s₁.region p).range.size = brkSize s addr := by rw [hrange]
        apply h₃.setRegion_range
        simp [LosVmSpace.region, LosVmSpace.setRegion] at hsize ⊢
        rw [← hsize]
  · -- the heap grows
    rw [if_neg hnow]
    rw [h.scan_eq] at hheap hapart
    have h₁ : SpaceInv { s with heapNow := Word.add s.heapBase (brkSize s addr) } l :=
      h.congr rfl rfl rfl rfl (word_add_lt _ _) rfl rfl fun _ hm => hm
    refine ⟨l,h₁.setRegion ⟨hpos,(h.ok _ hheap).base_dvd,hsd,(h.ok _ hheap).base_le,htop⟩ rfl fun q hq hlt => ?_⟩
    have hq0 := (h.ok q hq).size_pos
    change (s.region s.heap).range.base < (s.region q).range.base at hlt
    have hne : q ≠ s.heap := by
      rintro rfl
      omega
    rcases hapart q hq hne with hd | hd
    · omega
    · exact hd

private theorem finishMove_inv (h : SpaceInv s l) (hp : p ∈ l) (hq : q ∈ l) (mmuMove : Int) (ret : Nat) :
    ∃ l', SpaceInv (finishMove s p q mmuMove ret).1 l' := by
  rw [finishMove]
  split_ifs
  · obtain ⟨s',he,h',-⟩ := h.regionFree hq
    rw [he]
    exact ⟨_,h'⟩
  · obtain ⟨s',he,h',-⟩ := h.regionFree hp
    rw [he]
    exact ⟨_,h'⟩

/-- What OsMremapCheck makes sure of. -/
private theorem mremapCheck_ok {oldLen newAddr newLen flags : Nat} (h : SpaceInv s l) (ha : a < 2^32)
    (hc : osMremapCheck s a oldLen newAddr newLen flags = 0) :
    PAGE_SIZE ∣ a ∧ 0 < newLen ∧ losRegionFind s a ∈ l ∧
      (flags &&& MREMAP_FIXED ≠ 0 → PAGE_SIZE ∣ newAddr ∧
        ((s.region (losRegionFind s a)).fin ≤ newAddr ∨ Word.add newAddr newLen ≤ (s.region (losRegionFind s a)).range.base)) := by
  rw [osMremapCheck] at hc
  split_ifs at hc with h1 h2 h3 h4 h5 h6 h7 h8
  all_goals try exact absurd hc (by decide)
  rw [not_or, not_or] at h1
  have hm : losRegionFind s a ∈ l := by
    rcases regionFind_spec h.regionMap ha with ⟨hm,-⟩ | ⟨h0,-⟩
    · exact hm
    · exact absurd h0 h1.1
  rw [Bool.not_eq_false] at h4
  refine ⟨page_dvd_of_isAligned h4,by omega,hm,fun hf => ⟨?_,?_⟩⟩
  · rw [not_and, Bool.not_eq_false] at h8
    exact page_dvd_of_isAligned (h8 hf)
  · rw [h.add_base_size hm] at h7
    omega

/-- A region that grows up to the next one at most. -/
private theorem grow_inv (h : SpaceInv s l) {regionOld newLen : Nat} (hm : regionOld ∈ l) (hnd : PAGE_SIZE ∣ newLen) (hpos : 0 < newLen)
    (hex : osIsRegionCanExpand s regionOld newLen = 0) :
    SpaceInv (s.setRegion regionOld { s.region regionOld with range := ⟨(s.region regionOld).range.base,newLen⟩ }) l := by
  rw [osIsRegionCanExpand] at hex
  split_ifs at hex with hnext
  swap
  · exact absurd hex Int.one_ne_zero
  obtain ⟨hn0,hgap⟩ := hnext
  obtain ⟨done,rest,hl⟩ := List.append_of_mem hm
  have hsucc := h.successor hl
  have hsort := h.sorted
  rw [hl] at hsort
  cases hrest : rest with
  | nil =>
    rw [hrest] at hsucc
    exact absurd hsucc hn0
  | cons y rest' =>
    rw [hrest] at hsucc hsort hl
    rw [show losRbSuccessorNode s.regionRbTree regionOld = y from hsucc] at hgap
    have hyl : y ∈ l := by simp [hl]
    have hold_y := List.rel_of_pairwise_cons (List.pairwise_append.mp hsort).2.1 (List.mem_cons_self)
    have hyok := h.ok y hyl
    have hyfin := hyok.fin_le
    have hy0 := hyok.size_pos
    rw [fin] at hyfin hold_y
    have hokr := h.ok regionOld hm
    have hr0 := hokr.size_pos
    rw [Word.sub_eq (by omega)] at hgap
    refine h.setRegion ⟨hpos,hokr.base_dvd,hnd,hokr.base_le,?_⟩ rfl fun q hq hlt => ?_
    · show (s.region regionOld).range.base + newLen ≤ _
      omega
    · show (s.region regionOld).range.base + newLen ≤ _
      -- q is y or comes after y
      rw [hl] at hq
      rcases List.mem_append.mp hq with hq | hq
      · have := (List.pairwise_append.mp hsort).2.2 q hq regionOld List.mem_cons_self
        rw [fin] at this
        omega
      · rcases List.mem_cons.mp hq with rfl | hq
        · omega
        · rcases List.mem_cons.mp hq with rfl | hq
          · omega
          · have hyq := List.rel_of_pairwise_cons (List.pairwise_cons.mp (List.pairwise_append.mp hsort).2.1).2 hq
            rw [fin] at hyq
            omega

private theorem mremap_inv (depth : Nat) (h : SpaceInv s l) (ha : a < 2^32) {oldSize newSize newAddr : Nat} (ho : oldSize < 2^32)
    (hn : newSize < 2^32) (hna : newAddr < 2^32) (flags : Nat) (mmuMove : Int) :
    ∃ l', SpaceInv (losDoMremap depth s a oldSize newSize flags newAddr mmuMove).1 l' := by
  obtain ⟨hod,holt⟩ := losAlign_spec ho
  obtain ⟨hnd,hnlt⟩ := losAlign_spec hn
  rw [losDoMremap]
  simp only
  set oldLen := losAlign oldSize PAGE_SIZE
  set newLen := losAlign newSize PAGE_SIZE
  by_cases hc : osMremapCheck s a oldLen newAddr newLen flags ≠ 0
  · rw [if_pos hc]
    exact ⟨l,h⟩
  rw [if_neg hc]
  obtain ⟨had,hpos,hfind,hfixed⟩ := mremapCheck_ok h ha (not_not.mp hc)
  have hsum : PAGE_SIZE ∣ Word.add a oldLen := by
    rw [Word.add]
    exact (Nat.dvd_mod_iff (by decide)).mpr (Nat.dvd_add had hod)
  obtain ⟨s₁,st,l₁,he₁,h₁,-,href₁,hcut⟩ := regionAdjust_spec (losUnMMap depth) h had ha hsum (word_add_lt _ _)
  simp only [he₁]
  by_cases hst : st ≠ 0
  · rw [if_pos hst]
    exact ⟨l₁,h₁⟩
  rw [if_neg hst]
  have hcut₁ := (hcut (not_not.mp hst)).1
  by_cases hold : losRegionFind s₁ a = 0
  · rw [if_pos hold]
    exact ⟨l₁,h₁⟩
  rw [if_neg hold]
  -- the old region starts at a and lies in the region that was checked
  have hold₁ : losRegionFind s₁ a ∈ l₁ ∧ (s₁.region (losRegionFind s₁ a)).range.base = a ∧
      a < (s₁.region (losRegionFind s₁ a)).fin := by
    rcases regionFind_spec h₁.regionMap ha with ⟨hm,h2,h3⟩ | ⟨h0,-⟩
    · have := hcut₁ _ hm
      exact ⟨hm,by omega,h3⟩
    · exact absurd h0 hold
  set regionOld := losRegionFind s₁ a
  obtain ⟨hm,hbase,hfin⟩ := hold₁
  have hinside : (s.region (losRegionFind s a)).range.base ≤ a ∧ (s₁.region regionOld).fin ≤ (s.region (losRegionFind s a)).fin := by
    obtain ⟨w,hw,hw1,hw2⟩ := href₁ regionOld hm
    have hwe : losRegionFind s a = w := regionFind_eq h hw (by omega) (by omega)
    rw [hwe]
    omega
  by_cases hf : flags &&& MREMAP_FIXED ≠ 0
  · -- the region moves to newAddr
    rw [if_pos hf]
    obtain ⟨hnad,hapart⟩ := hfixed hf
    obtain ⟨s₂,p,he₂,l₂,h₂,-,hp⟩ := regionDup_spec (losUnMMap_spec depth) h₁ regionOld hna hnad hnlt hnd hpos
    simp only [he₂]
    by_cases hp0 : p = 0
    · rw [if_pos hp0]
      exact ⟨l₂,h₂⟩
    rw [if_neg hp0]
    obtain ⟨-,hpl,b,hrange,hkeep,⟨hb,hfree⟩,-⟩ := hp.resolve_left fun hc => hp0 hc.1
    have hdis : (s₁.region regionOld).fin ≤ b ∨ b + newLen ≤ (s₁.region regionOld).range.base := by
      by_cases hz : newAddr = 0
      · exact hfree hz regionOld hm
      · obtain rfl := hb hz
        have hlt := h₂.fin_lt hpl
        rw [fin, hrange] at hlt
        change b + newLen < 2^32 at hlt
        rw [Word.add_eq hlt] at hapart
        cases hapart with
        | inl hd => exact Or.inl (hinside.2.trans hd)
        | inr hd => exact Or.inr ((hd.trans hinside.1).trans hbase.ge)
    exact finishMove_inv h₂ (hkeep regionOld hm hdis).1 hpl _ _
  rw [if_neg hf]
  by_cases hsh : newLen < oldLen
  · rw [if_pos hsh]
    exact unMMap_inv depth h₁ (word_add_lt _ _) (by omega)
  rw [if_neg hsh]
  by_cases hex : osIsRegionCanExpand s₁ regionOld newLen = 0
  · rw [if_pos hex]
    exact ⟨l₁,grow_inv h₁ hm hnd hpos hex⟩
  rw [if_neg hex]
  by_cases hmv : flags &&& MREMAP_MAYMOVE ≠ 0
  · rw [if_pos hmv]
    obtain ⟨s₂,p,he₂,l₂,h₂,-,hp⟩ := regionDup_spec (losUnMMap_spec depth) h₁ regionOld (show 0 < 2^32 by omega)
      (Nat.dvd_zero _) hnlt hnd hpos
    simp only [he₂]
    by_cases hp0 : p = 0
    · rw [if_pos hp0]
      exact ⟨l₂,h₂⟩
    rw [if_neg hp0]
    obtain ⟨-,hpl,b,-,hkeep,⟨-,hfree⟩,-⟩ := hp.resolve_left fun hc => hp0 hc.1
    exact finishMove_inv h₂ (hkeep regionOld hm (hfree rfl regionOld hm)).1 hpl _ _
  · rw [if_neg hmv]
    exact ⟨l₁,h₁⟩

/-- The system calls with their arguments; filep, changeProt and mmuMove are what the rest of the kernel answers. -/
inductive VmCall where
  | mmap (vaddr len prot flags : Nat) (filep : Option File) (pgoff : Nat)
  | unMMap (addr size : Nat)
  | brk (addr : Nat)
  | mremap (oldAddress oldSize newSize flags newAddr : Nat) (mmuMove : Int)
  | mprotect (vaddr len prot : Nat) (changeProt : Int)

/-- The arguments are words. -/
def VmCall.Words : VmCall → Prop
  | mmap vaddr len _ _ _ _ => vaddr < 2^32 ∧ len < 2^32
  | unMMap addr size => addr < 2^32 ∧ size < 2^32
  | brk addr => addr < 2^32
  | mremap oldAddress oldSize newSize _ newAddr _ => oldAddress < 2^32 ∧ oldSize < 2^32 ∧ newSize < 2^32 ∧ newAddr < 2^32
  | mprotect vaddr len _ _ => vaddr < 2^32 ∧ len < 2^32

instance : (c : VmCall) → Decidable c.Words
  | .mmap vaddr len _ _ _ _ => inferInstanceAs (Decidable (vaddr < 2^32 ∧ len < 2^32))
  | .unMMap addr size => inferInstanceAs (Decidable (addr < 2^32 ∧ size < 2^32))
  | .brk addr => inferInstanceAs (Decidable (addr < 2^32))
  | .mremap oldAddress oldSize newSize _ newAddr _ =>
    inferInstanceAs (Decidable (oldAddress < 2^32 ∧ oldSize < 2^32 ∧ newSize < 2^32 ∧ newAddr < 2^32))
  | .mprotect vaddr len _ _ => inferInstanceAs (Decidable (vaddr < 2^32 ∧ len < 2^32))

def VmCall.run (mask depth : Nat) (s : LosVmSpace) : VmCall → LosVmSpace
  | mmap vaddr len prot flags filep pgoff => (losMMap mask depth s vaddr len prot flags filep pgoff).1
  | unMMap addr size => (losUnMMap depth s addr size).1
  | brk addr => (losDoBrk depth s addr).1
  | mremap oldAddress oldSize newSize flags newAddr mmuMove =>
    (losDoMremap depth s oldAddress oldSize newSize flags newAddr mmuMove).1
  | mprotect vaddr len prot changeProt => (losDoMprotect depth s vaddr len prot changeProt).1

/-- The condition on a call: only LOS_DoBrk has one. -/
def VmCall.Ok (s : LosVmSpace) : VmCall → Prop
  | brk addr => BrkOk s addr
  | _ => True

instance (s : LosVmSpace) : (c : VmCall) → Decidable (c.Ok s)
  | .brk addr => inferInstanceAs (Decidable (BrkOk s addr))
  | .mmap .. | .unMMap .. | .mremap .. | .mprotect .. => inferInstanceAs (Decidable True)

theorem VmCall.run_inv (mask depth : Nat) (h : SpaceInv s l) (c : VmCall) (hw : c.Words) (hc : c.Ok s) :
    ∃ l', SpaceInv (c.run mask depth s) l' := by
  cases c with
  | mmap vaddr len prot flags filep pgoff => exact mmap_inv mask depth h hw.1 len prot flags filep pgoff
  | unMMap addr size => exact unMMap_inv depth h hw.1 hw.2
  | brk addr => exact brk_inv depth h hw hc
  | mremap oldAddress oldSize newSize flags newAddr mmuMove =>
    exact mremap_inv depth h hw.1 hw.2.1 hw.2.2.1 hw.2.2.2 flags mmuMove
  | mprotect vaddr len prot changeProt => exact mprotect_inv depth h hw.1 hw.2 prot changeProt

/-- The regions of the tree are non-empty, page-aligned, pairwise disjoint and in the space. -/
structure RegionInvariant (s : LosVmSpace) : Prop where
  nonempty : ∀ p ∈ scan s.regionRbTree, 0 < (s.region p).range.size
  aligned : ∀ p ∈ scan s.regionRbTree, PAGE_SIZE ∣ (s.region p).range.base ∧ PAGE_SIZE ∣ (s.region p).range.size
  disjoint : ∀ p ∈ scan s.regionRbTree, ∀ q ∈ scan s.regionRbTree, p ≠ q →
    (s.region p).range.base + (s.region p).range.size ≤ (s.region q).range.base ∨
    (s.region q).range.base + (s.region q).range.size ≤ (s.region p).range.base
  contained : ∀ p ∈ scan s.regionRbTree, s.base ≤ (s.region p).range.base ∧
    (s.region p).range.base + (s.region p).range.size ≤ s.base + s.size

private theorem SpaceInv.regionInvariant (h : SpaceInv s l) : RegionInvariant s := by
  refine ⟨?_,?_,?_,?_⟩
  · rw [h.scan_eq]
    exact fun p hp => (h.ok p hp).size_pos
  · rw [h.scan_eq]
    exact fun p hp => ⟨(h.ok p hp).base_dvd,(h.ok p hp).size_dvd⟩
  · rw [h.scan_eq]
    exact fun p hp q hq hne => h.disjoint hp hq hne
  · rw [h.scan_eq]
    exact fun p hp => ⟨(h.ok p hp).base_le,(h.ok p hp).fin_le⟩

/-- A new user space has no regions. -/
theorem spaceInv_init {nilT : Nat} (hn : nilT ≠ 0) (node : Nat → LosRbNode) (key : Nat → LosVmMapRegion) (memAlloc : List Nat) :
    SpaceInv (osUserVmSpaceInit nilT node key memAlloc) [] := by
  refine ⟨⟨?_,?_,?_,?_,?_,?_,?_,?_⟩,?_,⟨.nil,⟨rfl,trivial,List.nodup_nil,List.not_mem_nil,List.not_mem_nil,hn,?_⟩,⟨rfl,0,rfl⟩,rfl⟩,
    rfl,by simp,List.Pairwise.nil,by simp,List.mem_singleton.mpr rfl⟩
  all_goals first
    | (simp only [osUserVmSpaceInit]; decide)
    | simp [LosRbTree.color, osUserVmSpaceInit, losRbInitTree]

/-- The spaces that the system calls reach from a new one when each call meets ok in the state it finds. The kernel
itself allocates regions as well, of whole pages: the stack, the images of the loader, the VDSO. -/
inductive SpaceReachable (ok : LosVmSpace → VmCall → Prop) (mask depth : Nat) : LosVmSpace → Prop
  | init {nilT : Nat} (hn : nilT ≠ 0) (node : Nat → LosRbNode) (key : Nat → LosVmMapRegion) (memAlloc : List Nat) :
    SpaceReachable ok mask depth (osUserVmSpaceInit nilT node key memAlloc)
  | regionAlloc {s : LosVmSpace} (h : SpaceReachable ok mask depth s) {vaddr len : Nat} (ha : vaddr < 2^32) (had : PAGE_SIZE ∣ vaddr)
    (hl : len < 2^32) (hld : PAGE_SIZE ∣ len) (hl0 : 0 < len) (flags pgoff : Nat) :
    SpaceReachable ok mask depth (losRegionAlloc (losUnMMap depth) s vaddr len flags pgoff).1
  | call {s : LosVmSpace} (h : SpaceReachable ok mask depth s) (c : VmCall) (hw : c.Words) (hc : ok s c) :
    SpaceReachable ok mask depth (c.run mask depth s)

theorem SpaceReachable.inv {mask depth : Nat} (h : SpaceReachable (fun s c => c.Ok s) mask depth s) : ∃ l, SpaceInv s l := by
  induction h with
  | init hn node key memAlloc => exact ⟨[],spaceInv_init hn node key memAlloc⟩
  | regionAlloc _ ha had hl hld hl0 flags pgoff ih =>
    obtain ⟨l,h⟩ := ih
    obtain ⟨s',p,he,l',h',-⟩ := regionAlloc_spec (losUnMMap_spec depth) h ha had hl hld hl0 flags pgoff
    rw [he]
    exact ⟨l',h'⟩
  | call _ c hw hc ih =>
    obtain ⟨l,h⟩ := ih
    exact c.run_inv mask depth h hw hc

/-- Along every run whose calls meet the condition, the regions keep their invariant. -/
theorem regionInvariant_of_reachable (mask depth : Nat) (s : LosVmSpace) (h : SpaceReachable (fun s c => c.Ok s) mask depth s) :
    RegionInvariant s := by
  obtain ⟨l,hl⟩ := h.inv
  exact hl.regionInvariant

/-- A small space for the examples: the sentinel is at 1 and descriptors are taken from 2 on. -/
def smallSpace : LosVmSpace := osUserVmSpaceInit 1 (fun _ => ⟨0,0,0,.red⟩) (fun _ => default) (List.range' 2 6)

/-- The heap grows to two pages, a page is mapped at a free address, and the second page of the heap is unmapped. -/
theorem regionInvariant_after_unMMap :
    RegionInvariant (VmCall.run 0xff 3 (VmCall.run 0xff 3 (VmCall.run 0xff 3 smallSpace (.brk (USER_HEAP_BASE + 8192)))
      (.mmap 0 4096 3 0x22 none 0)) (.unMMap (USER_HEAP_BASE + 4096) 4096)) :=
  regionInvariant_of_reachable 0xff 3 _ (.call (.call (.call (.init (by decide) _ _ _) (.brk (USER_HEAP_BASE + 8192)) (by decide)
    (by decide +kernel)) (.mmap 0 4096 3 0x22 none 0) (by decide) trivial) (.unMMap (USER_HEAP_BASE + 4096) 4096) (by decide) trivial)

/-- A page mapped right above the heap with MAP_FIXED is overlapped when LOS_DoBrk grows the heap. -/
theorem regionInvariant_fails_after_brk :
    ¬ ∀ mask depth s, SpaceReachable (fun _ _ => True) mask depth s → RegionInvariant s := by
  intro hall
  have h := hall 0xff 3 _ (.call (.call (.call (.init (by decide : 1 ≠ 0) (fun _ => ⟨0,0,0,.red⟩) (fun _ => default) (List.range' 2 6))
    (.brk (USER_HEAP_BASE + 4096)) (by decide) trivial) (.mmap (USER_HEAP_BASE + 4096) 4096 3 0x32 none 0) (by decide) trivial)
    (.brk (USER_HEAP_BASE + 8192)) (by decide) trivial)
  have hd := h.disjoint 2 (by decide +kernel) 3 (by decide +kernel) (by decide)
  revert hd
  decide +kernel

end LiteOsKernel.Vm
