import LiteOsKernel.Mem.KernelRun

/-! What LOS_KernelRealloc does with the bytes and the storage of a block, be it of the heap or of pages. -/
namespace LiteOsKernel.Mem.Kernel
open LiteOsKernel Tlsf Run

variable {k : KernelMem} {N F : Set Nat} {L : Nat → List Nat} {own : Nat → Nat} {b d : Block} {x y : Area} {c : Call}
  {pages : List Nat} {a n ptr size answer : Nat}

/-- A block of n bytes at r: it lies in a used node of the heap, or in whole pages outside of it. -/
def Usable (k : KernelMem) (r n : Nat) : Prop :=
  ∃ d : Block, d.ptr = r ∧ d.size = n ∧
    ((d ∈ k.heap.live ∧ ∃ a, Within k.heap d a) ∨ (d ∈ k.large ∧ Paged k d ∧ d.size ≤ (span d).size))

/-- The storage of the block b is given back once: its node and no other leaves the heap while the node of the
block at r comes, or its pages and no others go back to the page allocator. -/
structure Released (k k' : KernelMem) (b : Block) (r n : Nat) : Prop where
  node : b ∈ k.heap.live → ∃ c, Within k'.heap ⟨r,n,OS_MEM_ALIGN_SIZE⟩ c ∧
    ∀ a, UsedNode k'.heap a ↔ (UsedNode k.heap a ∧ ¬Within k.heap b a) ∨ a = c
  pages : b ∈ k.large → k'.freed = (b.ptr,roundup b.size PAGE_SIZE >>> PAGE_SHIFT) :: k.freed ∧
    k'.osVmVaddrToPage b.ptr = some 0 ∧ ∀ d ∈ k'.large, d.ptr ≠ b.ptr

/-- LOS_KernelRealloc of the block b to n bytes returns a block wherever LOS_KernelMalloc would, with the contents of b,
whose storage it releases once; or it returns NULL and b is live as it was. -/
structure ReallocLaw (k : KernelMem) (b : Block) (n answer : Nat) (pages : List Nat) : Prop where
  served : (k.losKernelMalloc n answer pages).2 ≠ 0 → (k.losKernelRealloc b.ptr n answer pages).2 ≠ 0
  usable : (k.losKernelRealloc b.ptr n answer pages).2 ≠ 0 →
    Usable (k.losKernelRealloc b.ptr n answer pages).1 (k.losKernelRealloc b.ptr n answer pages).2 n
  contents : (k.losKernelRealloc b.ptr n answer pages).2 ≠ 0 → ∀ i < min b.size n,
    byteAt (k.losKernelRealloc b.ptr n answer pages).1.heap.pool ((k.losKernelRealloc b.ptr n answer pages).2 + i) =
      byteAt k.heap.pool (b.ptr + i)
  released : (k.losKernelRealloc b.ptr n answer pages).2 ≠ 0 →
    Released k (k.losKernelRealloc b.ptr n answer pages).1 b (k.losKernelRealloc b.ptr n answer pages).2 n
  kept : (k.losKernelRealloc b.ptr n answer pages).2 = 0 →
    (b ∈ k.large → b ∈ (k.losKernelRealloc b.ptr n answer pages).1.large) ∧
    (b ∈ k.heap.live → b ∈ (k.losKernelRealloc b.ptr n answer pages).1.heap.live) ∧
    ∀ i < b.size, byteAt (k.losKernelRealloc b.ptr n answer pages).1.heap.pool (b.ptr + i) = byteAt k.heap.pool (b.ptr + i)

/-- A block of the heap is resized by the heap, also to a size for pages; a page-backed one of fewer than 65536
pages is copied whole into the new block. -/
def Resizable (k : KernelMem) (b : Block) (n : Nat) (pages : List Nat) : Prop :=
  if osMemIsHeapNode k.heap.pool b.ptr then
    k.osMemLargeAlloc n → ∃ s, reallocUse n = some s ∧ ¬(Moves k.heap.pool (blockNode k.heap.pool b.ptr) (allocSizeOf s) ∧
      NoRoom { k.heap.pool with pages := pages } (allocSizeOf s))
  else roundup b.size PAGE_SIZE < 2^28 ∧ roundup b.size PAGE_SIZE ≤ n ∧ n ≤ SECUREC_MEM_MAX_LEN

-- Blocks of the heap

private theorem allocUse_eq_reallocUse (h0 : n ≠ 0) : allocUse n = reallocUse n := by
  have hm : (getUsedFlag (minSize n) ≠ 0 ∨ getAlignedFlag (minSize n) ≠ 0) ↔ getUsedFlag n ≠ 0 ∨ getAlignedFlag n ≠ 0 := by
    rw [minSize]
    split
    case isFalse => rfl
    case isTrue hlt =>
      have hsmall : ∀ m, m ≤ 8 → ¬(getUsedFlag m ≠ 0 ∨ getAlignedFlag m ≠ 0) := by
        intro m hm
        have h1 : getUsedFlag m = 0 := (getUsedFlag_eq_zero (by omega)).mpr (by omega)
        have h2 : getAlignedFlag m = 0 := by
          rw [getAlignedFlag_eq_zero]
          omega
        simp [h1, h2]
      rw [OS_MEM_MIN_ALLOC_SIZE] at hlt ⊢
      exact iff_of_false (hsmall 8 le_rfl) (hsmall n (by omega))
  simp only [allocUse, reallocUse, h0, false_or, hm]

/-- Reallocation in the heap returns a block unless the request is refused or finds no room where it has to. -/
private theorem reallocPtr_ne_zero {h : Arena} (hS : Sound h N F L own) (hb : b ∈ h.live) (hp : h.Pre (.call (.realloc b.ptr n) pages))
    (hf : h.Fits (.call (.realloc b.ptr n) pages)) : reallocPtr h b n pages ≠ 0 ↔
      ∃ s, reallocUse n = some s ∧ ¬(Moves h.pool (blockNode h.pool b.ptr) (allocSizeOf s) ∧
        NoRoom { h.pool with pages := pages } (allocSizeOf s)) := by
  obtain ⟨hx,hfit⟩ := hS.within hp hf
  have hnode := (hS.blockNode_eq (Sound.ptr_mem hb)).2
  rcases he : losMemRealloc (h.largeNodeFree { h.pool with pages := pages } (.realloc b.ptr n)) { h.pool with pages := pages }
    b.ptr n with ⟨q,r⟩
  have hr : reallocPtr h b n pages = r := congrArg Prod.snd he
  rw [hr, hnode]
  rcases (hS.setPages pages).realloc_spec (Sound.ptr_mem hb) hp.1.2 hx hfit hf.2.2 he with ⟨hs,-,rfl⟩ |
    ⟨s,hs,-,⟨hm,rfl,-⟩ | ⟨hm,hno,rfl,-⟩ | ⟨hm,hroom,-,c,-,-,-,rfl,-⟩⟩
  · simp [hs]
  · exact iff_of_true (by omega) ⟨s,hs,fun hc => hm hc.1⟩
  · refine iff_of_false (fun h0 => h0 rfl) ?_
    rintro ⟨t,ht,hno'⟩
    obtain rfl := Option.some.inj (hs.symm.trans ht)
    exact hno' ⟨hm,hno⟩
  · exact iff_of_true (by omega) ⟨s,hs,fun hc => hroom hc.2⟩

namespace KernelInv

/-- Where LOS_MemAlloc has room for the request, a block of the heap can be resized to it. -/
private theorem malloc_served (hI : KernelInv k N F L own) (hb : b ∈ k.heap.live) (hn : 0 < n) (hp : k.HeapPre (.realloc b.ptr n) pages)
    (hf : k.heap.Fits (.call (.realloc b.ptr n) pages)) (h0 : k.heapResult (.alloc n) pages ≠ 0) :
    ∃ s, reallocUse n = some s ∧ ¬(Moves k.heap.pool (blockNode k.heap.pool b.ptr) (allocSizeOf s) ∧
      NoRoom { k.heap.pool with pages := pages } (allocSizeOf s)) := by
  have hS := hI.heap.setPages pages
  have hnode := (hI.heap.blockNode_eq (Sound.ptr_mem hb)).2
  obtain ⟨hx,hfit⟩ := hI.heap.within (hI.pre hp) hf
  have hasks : (Call.realloc b.ptr n).asks { k.heap.pool with pages := pages } = _ := hS.asks_realloc (Sound.ptr_mem hb)
  rcases he : losMemAlloc { k.heap.pool with pages := pages } n with ⟨q,r⟩
  have hr : k.heapResult (.alloc n) pages = r := congrArg Prod.snd he
  rw [hr] at h0
  rcases hs : allocUse n with _ | s
  · rw [losMemAlloc_eq, hs] at he
    exact absurd (Prod.mk.inj he).2.symm h0
  refine ⟨s,by rw [← allocUse_eq_reallocUse (by omega), hs],fun hc => ?_⟩
  have hask : (Call.realloc b.ptr n).asks { k.heap.pool with pages := pages } = some (allocSizeOf s) := by
    rw [hasks, ← allocUse_eq_reallocUse (by omega), hs]
    simp only [Option.map_some, Option.filter_some]
    exact if_pos (decide_eq_true (hnode ▸ hc.1))
  have hfresh : ∀ x, grownArea { k.heap.pool with pages := pages } (allocSizeOf s) = some x →
      x.Fresh { k.heap.pool with pages := pages } k.heap.areas := fun x hg => hx x (by simp only [Call.grown, hask]; exact hg)
  rcases hS.held.inv.losMemAlloc hp.1.2 hs hfresh he with ⟨-,rfl,-⟩ | ⟨hroom,-⟩
  · exact h0 rfl
  · exact hroom hc.2

/-- Reallocation of a heap block keeps the law where it returns a block whenever LOS_KernelMalloc would. -/
private theorem reallocLaw_heap (hI : KernelInv k N F L own) (hb : b ∈ k.heap.live) (h4 : b.boundary = OS_MEM_ALIGN_SIZE) (hn : 0 < n)
    (hp : k.HeapPre (.realloc b.ptr n) pages) (hf : k.heap.Fits (.call (.realloc b.ptr n) pages)) :
    ReallocLaw k b n answer pages ↔ ((k.losKernelMalloc n answer pages).2 ≠ 0 → Resizable k b n pages) := by
  have hnode := hI.heapNode_live hb
  have h0 := hI.heap.ptr_ne_zero hb
  have heq : k.losKernelRealloc b.ptr n answer pages =
      (k.heapCall (.realloc b.ptr n) pages, reallocPtr k.heap b n pages) := by
    rw [KernelMem.losKernelRealloc, if_neg h0, if_neg (by rw [hnode]; exact Bool.noConfusion)]
    rfl
  have hne := reallocPtr_ne_zero hI.heap hb (hI.pre hp) hf
  have hkeep := (hI.heap.reallocKeeps_iff hb (hI.pre hp) hf).mpr (.inr (.inr fun i _ => by rw [hI.straight b hb h4]))
  have hlarge := (k.heapCall_large (.realloc b.ptr n) pages).1
  obtain ⟨hx,hfit⟩ := hI.heap.within (hI.pre hp) hf
  constructor
  · intro hL hm
    rw [Resizable, if_pos hnode]
    have h1 := hL.served hm
    rw [heq] at h1
    exact fun _ => hne.mp h1
  · intro hR
    refine ⟨fun hm => ?_,?_,?_,?_,?_⟩ <;> rw [heq]
    · refine hne.mpr ?_
      have h1 := hR hm
      rw [Resizable, if_pos hnode] at h1
      by_cases hl : k.osMemLargeAlloc n = true
      · exact h1 hl
      · rw [KernelMem.losKernelMalloc, if_neg hl] at hm
        exact hI.malloc_served hb hn hp hf hm
    · intro hr
      obtain ⟨d,hd,h1,h2,h3⟩ := hkeep.usable hr
      exact ⟨d,h1,h2,.inl ⟨hd,h3⟩⟩
    · exact hkeep.contents
    · intro hr
      refine ⟨fun _ => ?_,fun hm => ?_⟩
      · rcases he : losMemRealloc (k.heap.largeNodeFree { k.heap.pool with pages := pages } (.realloc b.ptr n))
          { k.heap.pool with pages := pages } b.ptr n with ⟨q,r⟩
        have hq : reallocPtr k.heap b n pages = r := congrArg Prod.snd he
        rw [hq] at hr ⊢
        have hS := hI.heap.setPages pages
        obtain ⟨c,hc,hu⟩ := hS.realloc_used hb hp.1.2 hx hfit hf.2.2 he hr
        refine ⟨c,hc,fun a => ?_⟩
        have hua := hu a
        rw [hS.usedNode_iff, hS.within_iff hb] at hua
        rw [hI.heap.usedNode_iff, hI.heap.within_iff hb]
        exact hua
      · have h1 := hI.heapNode_paged hm
        rw [hnode] at h1
        cases h1
    · intro hr
      have h1 := hkeep.failed hr b hb
      exact ⟨fun hm => hlarge.symm ▸ hm,fun _ => h1.1,h1.2⟩

-- Page-backed blocks

private theorem malloc_freed (k : KernelMem) (n answer : Nat) (pages : List Nat) :
    (k.losKernelMalloc n answer pages).1.freed = k.freed := by
  rw [KernelMem.losKernelMalloc]
  split
  · rcases k.allocPages_eq n answer with he | ⟨-,-,he⟩ <;> rw [he]
    rfl
  · have hr : (Call.alloc n).returned { k.heap.pool with pages := pages } = none := rfl
    rcases hg : (Call.alloc n).grown { k.heap.pool with pages := pages } with _ | x <;> simp only [KernelMem.heapCall, hr, hg]
    rfl

/-- LOS_KernelMalloc leaves the page-backed blocks and their bytes alone. -/
private theorem malloc_kept (hI : KernelInv k N F L own) (hp : k.MallocPre n answer pages) (hf : k.MallocFits n pages)
    (hb : b ∈ k.large) : b ∈ (k.losKernelMalloc n answer pages).1.large ∧
      ∀ y, b.ptr ≤ y → y < b.ptr + (span b).size → (k.losKernelMalloc n answer pages).1.heap.pool.mem y = k.heap.pool.mem y := by
  rw [KernelMem.MallocPre] at hp
  rw [KernelMem.losKernelMalloc]
  by_cases hl : k.osMemLargeAlloc n = true
  · rw [if_pos hl]
    rcases k.allocPages_eq n answer with he | ⟨-,-,he⟩ <;> rw [he]
    · exact ⟨hb,fun _ _ _ => rfl⟩
    · exact ⟨List.mem_cons_of_mem _ hb,fun _ _ _ => rfl⟩
  · rw [if_neg hl] at hp ⊢
    have hk := hI.call_kept hp (hf (eq_false_of_ne_true hl))
    refine ⟨(k.heapCall_large _ _).1.symm ▸ hb,fun y hl hr => hk.confined.mem y (hI.beyond hb (fun x hx => ?_) hl hr)⟩
    obtain ⟨h1,-,h2⟩ := hI.apart_area hp hb hx
    exact ⟨h1,h2⟩

/-- A block of the heap lies apart from the pages of a block. -/
private theorem live_apart (hI : KernelInv k N F L own) (hd : d ∈ k.heap.live) (hb : b ∈ k.large) :
    d.ptr + d.size ≤ b.ptr ∨ b.ptr + (span b).size ≤ d.ptr := by
  have hinv := hI.heap.held.inv
  obtain ⟨h1,h2⟩ := hI.heap.held.owns d.ptr (Sound.ptr_mem hd)
  have hroom := hI.heap.room d hd
  have hle := h2.le
  have hP := (hI.paged b hb).pages
  obtain ⟨e,he,h3,h4⟩ := hinv.nodes.tiling.home _ h1
  rcases mem_extents.mp he with rfl | ⟨x,hx,rfl⟩
  · have hge := hinv.fixed.total_ge
    have hout := hP.outside
    simp only [Inv.first_eq, endAddr, sizeofPoolHead] at h3 h4 hge
    simp only [span] at hout ⊢
    omega
  · have hout := hP.apart x hx
    have hpos := (hinv.fixed.areas x hx).size_pos
    have hmod := (hinv.fixed.areas x hx).size_mod
    simp only [Area.extent, Area.sentinel] at h3 h4
    simp only [span] at hout ⊢
    omega

/-- The recorded page count of a block, in bytes. -/
private theorem shl_count (h : Paged k b) : Word.shl (span b).nPages PAGE_SHIFT = (span b).size%2^28 := by
  have h1 := h.pages.size_mod
  rw [Area.nPages, Word.shl, PAGE_SHIFT, Nat.shiftRight_eq_div_pow, Nat.shiftLeft_eq]
  omega

/-- The recorded count is the number of pages of a block that has fewer than 65536. -/
private theorem nPages_eq_iff (h : Paged k b) : (span b).nPages = (span b).size >>> PAGE_SHIFT ↔ (span b).size < 2^28 := by
  have h1 := h.pages.size_mod
  rw [Area.nPages, PAGE_SHIFT, Nat.shiftRight_eq_div_pow]
  omega

/-- LOS_KernelRealloc of a page-backed block allocates, copies the pages counted, and frees the one or the other block. -/
private theorem realloc_paged_eq (hI : KernelInv k N F L own) (hb : b ∈ k.large) (hp : k.MallocPre n answer pages)
    (hf : k.MallocFits n pages) {k₁ : KernelMem} {r : Nat} (hm : k.losKernelMalloc n answer pages = (k₁, r)) :
    k.losKernelRealloc b.ptr n answer pages = if r = 0 then (k₁, 0)
      else if (Kernel.memcpyS k₁.heap.pool.mem r n b.ptr ((span b).size%2^28)).2 then
        (((k₁.setMem (Kernel.memcpyS k₁.heap.pool.mem r n b.ptr ((span b).size%2^28)).1).freePages b.ptr).1, r)
      else ((k₁.setMem (Kernel.memcpyS k₁.heap.pool.mem r n b.ptr ((span b).size%2^28)).1).losKernelFree r, 0) := by
  obtain ⟨N₁,F₁,L₁,own₁,h₁⟩ := hI.malloc hp hf
  have hb₁ := (hI.malloc_kept hp hf hb).1
  rw [hm] at h₁ hb₁
  have hP := h₁.paged b hb₁
  have h0 : b.ptr ≠ 0 := Nat.pos_iff_ne_zero.mp (hI.paged b hb).pages.node_pos
  rw [KernelMem.losKernelRealloc, if_neg h0, if_pos (hI.heapNode_paged hb)]
  simp only [(hI.paged b hb).count, hm, hP.count, Option.getD_some, shl_count hP]

/-- The block that LOS_KernelMalloc returns lies apart from the pages of a block. -/
private theorem malloc_new (hI : KernelInv k N F L own) (hb : b ∈ k.large) (hp : k.MallocPre n answer pages) (hf : k.MallocFits n pages)
    {k₁ : KernelMem} {r : Nat} (hm : k.losKernelMalloc n answer pages = (k₁,r)) (hr : r ≠ 0) :
    ∃ boundary, ((⟨r,n,boundary⟩ : Block) ∈ k₁.large ∨ (⟨r,n,boundary⟩ : Block) ∈ k₁.heap.live) ∧
      r%4 = 0 ∧ (r + n ≤ b.ptr ∨ b.ptr + (span b).size ≤ r) := by
  obtain ⟨N₁,F₁,L₁,own₁,h₁⟩ := hI.malloc hp hf
  have hb₁ := (hI.malloc_kept hp hf hb).1
  have hblock := malloc_block k n answer pages
  rw [hm] at h₁ hb₁ hblock
  obtain ⟨boundary,hcase⟩ := hblock hr
  refine ⟨boundary,?_⟩
  rcases hcase with ⟨-,-,hlarge⟩ | ⟨-,-,hlarge⟩
  · have hd : (⟨r,n,boundary⟩ : Block) ∈ k₁.large := hlarge ▸ List.mem_cons_self
    have hD := h₁.paged _ hd
    have hpw := h₁.apart
    rw [hlarge] at hpw
    have hmod : r%4096 = 0 := hD.pages.node_mod
    have hle : n ≤ (span ⟨r,n,boundary⟩).size := hD.size_eq.2
    refine ⟨.inl hd,by omega,((List.pairwise_cons.mp hpw).1 b hb).imp (fun h2 => ?_) id⟩
    exact (Nat.add_le_add_left hle r).trans h2
  · have hd : (⟨r,n,boundary⟩ : Block) ∈ k₁.heap.live := hlarge ▸ List.mem_cons_self
    exact ⟨.inr hd,h₁.heap.ptr_mod hd,h₁.live_apart hd hb₁⟩

/-- Where there is no block to copy to, nothing is lost. -/
private theorem reallocLaw_paged_null (hI : KernelInv k N F L own) (hb : b ∈ k.large) (hp : k.MallocPre n answer pages)
    (hf : k.MallocFits n pages) (hr : (k.losKernelMalloc n answer pages).2 = 0) : ReallocLaw k b n answer pages := by
  have hlive : b ∉ k.heap.live := fun hm => by cases (hI.heapNode_paged hb).symm.trans (hI.heapNode_live hm)
  obtain ⟨hb₁,hmem⟩ := hI.malloc_kept hp hf hb
  rcases hm : k.losKernelMalloc n answer pages with ⟨k₁,r⟩
  have heq := hI.realloc_paged_eq hb hp hf hm
  rw [hm] at hb₁ hmem hr
  dsimp only at hb₁ hmem hr
  have hle := (hI.paged b hb).size_eq
  have hmod : b.ptr%4096 = 0 := (hI.paged b hb).pages.node_mod
  rw [if_pos hr] at heq
  refine ⟨?_,?_,?_,?_,?_⟩ <;> rw [heq]
  · rw [hm]
    exact fun h0 => absurd hr h0
  · exact fun h0 => absurd rfl h0
  · exact fun h0 => absurd rfl h0
  · exact fun h0 => absurd rfl h0
  · exact fun _ => ⟨fun _ => hb₁,fun hb' => absurd hb' hlive,fun i hi => byteAt_congr (hmem _ (by omega) (by omega)) rfl⟩

/-- A block whose pages do not all fit the new one is kept beside a new one that is given up, or released in part. -/
private theorem not_reallocLaw_paged (hI : KernelInv k N F L own) (hb : b ∈ k.large) (hp : k.MallocPre n answer pages)
    (hf : k.MallocFits n pages) (hr : (k.losKernelMalloc n answer pages).2 ≠ 0)
    (hfits : ¬((span b).size < 2^28 ∧ (span b).size ≤ n ∧ n ≤ SECUREC_MEM_MAX_LEN)) : ¬ReallocLaw k b n answer pages := by
  intro hL
  obtain ⟨N₁,F₁,L₁,own₁,h₁⟩ := hI.malloc hp hf
  have hb₁ := (hI.malloc_kept hp hf hb).1
  have hfreed := malloc_freed k n answer pages
  have h2 := hL.served hr
  rcases hm : k.losKernelMalloc n answer pages with ⟨k₁,r⟩
  have heq := hI.realloc_paged_eq hb hp hf hm
  rw [hm] at h₁ hb₁ hfreed hr
  dsimp only at h₁ hb₁ hfreed hr
  obtain ⟨boundary,hnew,-⟩ := hI.malloc_new hb hp hf hm hr
  rw [if_neg hr] at heq
  rcases hc : Kernel.memcpyS k₁.heap.pool.mem r n b.ptr ((span b).size%2^28) with ⟨mem,ok⟩
  simp only [hc] at heq
  cases ok with
  | false =>
    -- memcpy_s refuses, and the new block is given up
    rw [heq] at h2
    exact h2 rfl
  | true =>
    -- the count of 65536 pages or more is too low, and the block is not released whole
    have hcopy : (span b).size%2^28 ≤ n ∧ n ≤ SECUREC_MEM_MAX_LEN := by
      rw [Kernel.memcpyS] at hc
      split_ifs at hc with h3 h4
      · cases hc
      · cases hc
      · omega
    have hcount : (span b).nPages ≠ (span b).size >>> PAGE_SHIFT := fun he => hfits (by
      have h3 := (nPages_eq_iff (h₁.paged b hb₁)).mp he
      rw [Nat.mod_eq_of_lt h3] at hcopy
      exact ⟨h3,hcopy⟩)
    rw [if_pos rfl] at heq
    have h₂ := h₁.memcpyS hnew b.ptr ((span b).size%2^28)
    rw [hc] at h₂
    have hrel := ((hL.released h2).pages hb).1
    rw [heq, h₂.freePages_eq hb₁] at hrel
    split at hrel
    · exact List.cons_ne_self _ _ (hrel.symm.trans hfreed)
    · exact hcount (Prod.mk.inj (List.cons.inj hrel).1).2

/-- A block whose pages fit the new one is copied, and all its pages are released. -/
private theorem reallocLaw_paged_fits (hI : KernelInv k N F L own) (hb : b ∈ k.large) (hp : k.MallocPre n answer pages)
    (hf : k.MallocFits n pages) (hr : (k.losKernelMalloc n answer pages).2 ≠ 0)
    (hfits : (span b).size < 2^28 ∧ (span b).size ≤ n ∧ n ≤ SECUREC_MEM_MAX_LEN) : ReallocLaw k b n answer pages := by
  have hlive : b ∉ k.heap.live := fun hm => by cases (hI.heapNode_paged hb).symm.trans (hI.heapNode_live hm)
  obtain ⟨N₁,F₁,L₁,own₁,h₁⟩ := hI.malloc hp hf
  obtain ⟨hb₁,hmem⟩ := hI.malloc_kept hp hf hb
  have hfreed := malloc_freed k n answer pages
  rcases hm : k.losKernelMalloc n answer pages with ⟨k₁,r⟩
  have heq := hI.realloc_paged_eq hb hp hf hm
  rw [hm] at h₁ hb₁ hmem hfreed hr
  dsimp only at h₁ hb₁ hmem hfreed hr
  obtain ⟨boundary,hnew,hplace⟩ := hI.malloc_new hb hp hf hm hr
  have hP := h₁.paged b hb₁
  have hsize := hP.size_eq
  have hmod : b.ptr%4096 = 0 := hP.pages.node_mod
  have hpos : 0 < (span b).size := hP.pages.size_pos
  have hne : r ≠ b.ptr := by omega
  rw [if_neg hr, Nat.mod_eq_of_lt hfits.1] at heq
  have hc : Kernel.memcpyS k₁.heap.pool.mem r n b.ptr (span b).size =
      (Tlsf.copyWords k₁.heap.pool.mem r b.ptr ((span b).size/4), true) := by
    rw [Kernel.memcpyS, if_neg (by omega), if_neg (by omega)]
  have h₂ := h₁.memcpyS hnew b.ptr (span b).size
  rw [hc] at h₂ heq
  rw [if_pos rfl] at heq
  have hcount := (nPages_eq_iff hP).mpr hfits.1
  have hfree := h₂.freePages_eq hb₁
  rw [if_neg (by rw [hcount, PAGE_SHIFT, Nat.shiftRight_eq_div_pow]; have := hP.pages.size_mod; omega), hcount] at hfree
  have h₃ := h₂.freePages hb₁
  rw [hfree] at heq h₃
  refine ⟨?_,?_,?_,?_,?_⟩ <;> rw [heq]
  · exact fun _ => hr
  · intro _
    refine ⟨⟨r,n,boundary⟩,rfl,rfl,?_⟩
    rcases hnew with hd | hd
    · right
      have hd₃ : (⟨r,n,boundary⟩ : Block) ∈ k₁.large.filter (·.ptr ≠ b.ptr) := List.mem_filter.mpr ⟨hd,decide_eq_true hne⟩
      have hD := h₃.paged _ hd₃
      exact ⟨hd₃,hD,hD.size_eq.2⟩
    · exact .inl ⟨hd,(h₂.heap.blockLaw hd).node.exists⟩
  · intro _ i hi
    have h4 : (r + i)/4*4 = r + 4*(i/4) := by omega
    have h5 : (b.ptr + i)/4*4 = b.ptr + 4*(i/4) := by omega
    have hbyte : byteAt k₁.heap.pool (b.ptr + i) = byteAt k.heap.pool (b.ptr + i) := byteAt_congr (hmem _ (by omega) (by omega)) rfl
    refine (byteAt_congr ?_ (by omega)).trans hbyte
    rw [h4, h5]
    exact copyWords_at (by omega)
  · refine fun _ => ⟨fun hm' => absurd hm' hlive,fun _ => ⟨?_,?_,?_⟩⟩
    · exact congrArg _ hfreed
    · exact ((k₁.setMem _).setNPages_page _ _ _).trans (if_pos rfl)
    · exact fun d hd => (Sound.mem_filter hd).2
  · exact fun h0 => absurd h0 hr

/-- Reallocation of a page-backed block keeps the law where the copy of its pages fits the new block. -/
private theorem reallocLaw_paged (hI : KernelInv k N F L own) (hb : b ∈ k.large) (hp : k.MallocPre n answer pages)
    (hf : k.MallocFits n pages) :
    ReallocLaw k b n answer pages ↔ ((k.losKernelMalloc n answer pages).2 ≠ 0 → Resizable k b n pages) := by
  have hres : Resizable k b n pages ↔ (span b).size < 2^28 ∧ (span b).size ≤ n ∧ n ≤ SECUREC_MEM_MAX_LEN := by
    rw [Resizable, hI.heapNode_paged hb]
    rfl
  rw [hres]
  by_cases hr : (k.losKernelMalloc n answer pages).2 = 0
  · exact iff_of_true (hI.reallocLaw_paged_null hb hp hf hr) fun h0 => absurd hr h0
  by_cases hfits : (span b).size < 2^28 ∧ (span b).size ≤ n ∧ n ≤ SECUREC_MEM_MAX_LEN
  · exact iff_of_true (hI.reallocLaw_paged_fits hb hp hf hr hfits) fun _ => hfits
  · exact iff_of_false (hI.not_reallocLaw_paged hb hp hf hr hfits) fun hall => hfits (hall hr)

end KernelInv

/-- In every run whose heap calls fit, reallocation of a block from LOS_KernelMalloc returns one with its contents, or
NULL and leaves it as it was, exactly where the block can be resized or LOS_KernelMalloc has no memory either. -/
theorem reallocLaw_iff_of_reachable (k : KernelMem) (hr : Run.Reachable (kernelSystem PoolBelow) KernelMem.Fits k) :
    ∀ b, (b ∈ k.large ∨ b ∈ k.heap.live ∧ b.boundary = OS_MEM_ALIGN_SIZE) → ∀ n, 0 < n → ∀ answer pages,
      k.Pre (.realloc b.ptr n answer pages) → k.Fits (.realloc b.ptr n answer pages) →
      (ReallocLaw k b n answer pages ↔ ((k.losKernelMalloc n answer pages).2 ≠ 0 → Resizable k b n pages)) := by
  obtain ⟨N,F,L,own,hI⟩ := kernelInv_of_reachable hr
  intro b hb n hn answer pages hp hf
  rw [KernelMem.Pre] at hp
  rw [KernelMem.Fits] at hf
  rcases hb with hb | ⟨hb,h4⟩
  · have hnode := hI.heapNode_paged hb
    have h0 : b.ptr ≠ 0 := Nat.pos_iff_ne_zero.mp (hI.paged b hb).pages.node_pos
    rw [if_neg h0] at hp
    rw [if_neg h0, if_pos hnode] at hf
    rcases hp with ⟨d,-,-,hp⟩ | hp
    · exact hI.reallocLaw_paged hb hp hf.1
    · obtain ⟨d,hd,he⟩ := hp.1.1.resolve_left h0
      cases hnode.symm.trans (he ▸ hI.heapNode_live hd)
  · have hnode := hI.heapNode_live hb
    have h0 := hI.heap.ptr_ne_zero hb
    rw [if_neg h0] at hp
    rw [if_neg h0, if_neg (by rw [hnode]; exact Bool.noConfusion)] at hf
    rcases hp with ⟨d,hd,he,-⟩ | hp
    · cases hnode.symm.trans (he ▸ hI.heapNode_paged hd)
    · exact hI.reallocLaw_heap hb h4 hn hp hf

/-- A kernel with the small arena for its heap, ready for large requests. -/
def readyMem : KernelMem := KernelMem.run ⟨smallArena,fun _ => some 0,[],[],false⟩ .heapInited

/-- The ready kernel after an allocation of four pages. -/
def pagedMem : KernelMem := readyMem.run (.malloc 16384 0x100000 [])

private theorem pagedMem_large : pagedMem.large = [⟨0x100000,16384,4096⟩] := by decide +kernel

private theorem pagedMem_reachable {within : Nat → Prop} {ok : KernelMem → Request → Prop} (hw : within 0x1000)
    (hinit : ok ⟨smallArena,fun _ => some 0,[],[],false⟩ .heapInited) (hok : ok readyMem (.malloc 16384 0x100000 [])) :
    Run.Reachable (kernelSystem within) ok pagedMem := by
  have h0 : Run.Reachable (kernelSystem within) ok ⟨smallArena,fun _ => some 0,[],[],false⟩ :=
    .init ⟨smallArena_init hw,rfl,rfl,rfl⟩
  have h1 : Run.Reachable (kernelSystem within) ok readyMem := h0.call .heapInited trivial hinit
  have hl : readyMem.osMemLargeAlloc 16384 = true := by decide +kernel
  have hs : roundup 16384 PAGE_SIZE = 16384 := by decide +kernel
  refine h1.call (.malloc 16384 0x100000 []) ?_ hok
  simp only [KernelMem.Pre, KernelMem.MallocPre, hl, if_true, KernelMem.PagesPre, hs]
  exact ⟨by norm_num,fun _ _ => ⟨⟨by norm_num,by norm_num,by norm_num,by norm_num,by norm_num,.inr (by decide +kernel),
    by simp [readyMem, KernelMem.run, smallArena]⟩,by simp [readyMem, KernelMem.run]⟩⟩

example : (pagedMem.losKernelRealloc 0x100000 20000 0x200000 []).2 = 0x200000 := by decide +kernel

/-- Growing four pages to 20000 bytes, for which the page allocator finds five more. -/
theorem reallocLaw_paged_grown : ReallocLaw pagedMem ⟨0x100000,16384,4096⟩ 20000 0x200000 [] := by
  have hl : readyMem.osMemLargeAlloc 16384 = true := by decide +kernel
  have hl' : pagedMem.osMemLargeAlloc 20000 = true := by decide +kernel
  have hnode : osMemIsHeapNode pagedMem.heap.pool 0x100000 = false := by decide +kernel
  have hs : roundup 20000 PAGE_SIZE = 20480 := by decide +kernel
  have hs' : roundup 16384 PAGE_SIZE = 16384 := by decide +kernel
  have hareas : pagedMem.heap.areas = [] := by decide +kernel
  have hcopied : osMemIsHeapNode (pagedMem.reallocCopied 0x100000 20000 0x200000 []).1.heap.pool
      (pagedMem.reallocCopied 0x100000 20000 0x200000 []).2 = false := by decide +kernel
  refine (reallocLaw_iff_of_reachable pagedMem (pagedMem_reachable (by norm_num [PoolBelow]) trivial fun h0 => ?_)
    ⟨0x100000,16384,4096⟩ (.inl ?_) 20000 (by norm_num) 0x200000 [] ?_ ?_).mpr fun _ => ?_
  · cases hl.symm.trans h0
  · rw [pagedMem_large]
    exact List.mem_singleton_self _
  · simp only [KernelMem.Pre, KernelMem.MallocPre, hl', if_true, KernelMem.PagesPre, hs]
    refine .inl ⟨⟨0x100000,16384,4096⟩,by rw [pagedMem_large]; exact List.mem_singleton_self _,rfl,by norm_num,fun _ _ =>
      ⟨⟨by norm_num,by norm_num,by norm_num,by norm_num,by norm_num,.inr (by decide +kernel),by simp [hareas]⟩,fun d hd => ?_⟩⟩
    rw [pagedMem_large, List.mem_singleton] at hd
    subst hd
    rw [Apart, span, hs']
    norm_num
  · rw [KernelMem.Fits, if_neg (by norm_num), if_pos hnode, KernelMem.MallocFits, KernelMem.FreeFits, hl', hcopied]
    exact ⟨fun h0 => (Bool.noConfusion h0),fun h0 => (Bool.noConfusion h0)⟩
  · rw [Resizable, hnode, hs']
    norm_num [SECUREC_MEM_MAX_LEN]

/-- Four pages cannot be shrunk: the copy is bounded by the old block's pages, which exceed the new one. -/
theorem reallocLaw_fails_shrink : ¬∀ k, Run.Reachable (kernelSystem fun _ => True) (fun _ _ => True) k →
    ∀ b, (b ∈ k.large ∨ b ∈ k.heap.live ∧ b.boundary = OS_MEM_ALIGN_SIZE) → ∀ n, 0 < n → ∀ answer pages,
      k.Pre (.realloc b.ptr n answer pages) → ReallocLaw k b n answer pages := by
  intro hall
  have hg : (Call.alloc 100).grown { pagedMem.heap.pool with pages := [] } = none := by decide +kernel
  have hl : pagedMem.osMemLargeAlloc 100 = false := by decide +kernel
  have hmem : (⟨0x100000,16384,4096⟩ : Block) ∈ pagedMem.large := by
    rw [pagedMem_large]
    exact List.mem_singleton_self _
  have hL := hall pagedMem (pagedMem_reachable trivial trivial trivial) ⟨0x100000,16384,4096⟩ (.inl hmem) 100 (by norm_num) 0 [] (by
    simp only [KernelMem.Pre, KernelMem.MallocPre, hl, KernelMem.HeapPre, Bool.false_eq_true, if_false]
    exact .inl ⟨_,hmem,rfl,by norm_num [Arena.Legal],fun x hx => by cases hg.symm.trans hx⟩)
  have hm : (pagedMem.losKernelMalloc 100 0 []).2 ≠ 0 := by decide +kernel
  have hr : (pagedMem.losKernelRealloc 0x100000 100 0 []).2 = 0 := by decide +kernel
  exact hL.served hm hr

end LiteOsKernel.Mem.Kernel
