import LiteOsKernel.Mem.TlsfHeap

/-! The chain of sentinels over whole runs: it lists the areas the pool owns, the walks along it agree
with it, and an area goes back to the page allocator only when it is free as a whole. -/
namespace LiteOsKernel.Mem.Tlsf
open LiteOsKernel Links Lib Run

variable {p q v : MemPool} {E : List Area} {N N' F D U : Set Nat} {L : Nat → List Nat} {a n : Nat} {x : Option Area}

-- OsMemIsHeapNode

def heapNodeFrom (p : MemPool) (ptr : Nat) : Nat → Nat → Bool
  | 0, _ => false
  | fuel+1, endNode =>
    if osMemIsLastSentinelNode p endNode then false
    else
      let size := getSize (p.sizeAndFlag endNode)
      let firstNode := p.ptr endNode
      let endNode := osMemEndNode firstNode size
      if firstNode ≤ ptr ∧ ptr ≤ endNode then true else heapNodeFrom p ptr fuel endNode

def osMemIsHeapNode (p : MemPool) (ptr : Nat) : Bool :=
  let firstNode := osMemFirstNode p
  let endNode := osMemEndNode p.pool p.totalSize
  if firstNode ≤ ptr ∧ ptr ≤ endNode then true else heapNodeFrom p ptr chainFuel endNode

private theorem SentinelChain.heapNodeFrom_iff : ∀ {E : List Area} {s : Nat} (fuel ptr : Nat), SentinelChain p s E → (∀ x ∈ E, x.Ok p) →
    E.length < fuel → (heapNodeFrom p ptr fuel s = true ↔ ∃ x ∈ E, x.node ≤ ptr ∧ ptr ≤ x.sentinel)
  | _, _, 0, _, _, _, hf => absurd hf (Nat.not_lt_zero _)
  | [], s, fuel+1, ptr, h, _, _ => by
    rw [heapNodeFrom, h.last, if_pos rfl]
    simp
  | x :: E, s, fuel+1, ptr, h, hok, hf => by
    have hx := hok x List.mem_cons_self
    simp only [heapNodeFrom, h.not_last hx, Bool.false_eq_true, if_false, h.getSize_eq hx, h.2.2.1, hx.endNode_eq]
    rw [List.length_cons] at hf
    have ih := h.2.2.2.heapNodeFrom_iff fuel ptr (fun y hy => hok y (List.mem_cons_of_mem _ hy)) (by omega)
    by_cases hc : x.node ≤ ptr ∧ ptr ≤ x.sentinel
    · rw [if_pos hc]
      exact ⟨fun _ => ⟨x,List.mem_cons_self,hc⟩,fun _ => rfl⟩
    · rw [if_neg hc, ih]
      simp [hc]

theorem Inv.heapNode_iff (h : Inv p E N F D U L) (ptr : Nat) : osMemIsHeapNode p ptr = true ↔
    (osMemFirstNode p ≤ ptr ∧ ptr ≤ osMemEndNode p.pool p.totalSize) ∨ ∃ x ∈ E, x.node ≤ ptr ∧ ptr ≤ x.sentinel := by
  have hchain := h.fixed.chain.heapNodeFrom_iff chainFuel ptr h.fixed.areas h.length_lt
  rw [osMemIsHeapNode, h.endNode_eq]
  split_ifs with h1
  · simp [h1]
  · rw [hchain]
    simp [h1]

-- The law

/-- A node that OsMemFree hands to OsMemLargeNodeFree is an area of the pool, free as a whole. -/
theorem Change.whole (hI : Inv p E N F ∅ ∅ L) {g : Prop} (hc : Change p q E N N' x (some (v, a)) g)
    (hb : handedBack v a = some n) : ∃ y ∈ E ++ x.toList, y.node = n ∧ Whole (freeMerged v a).1 y := by
  cases hc with
  | freed mem used _ =>
    rw [Option.toList_none, List.append_nil]
    exact hI.handedBack_whole mem used hb
  | moved _ used moved =>
    obtain ⟨N₁,F₁,L₁,hC,-⟩ := moved.copied
    exact hC.inv.handedBack_whole hC.old (by rw [hC.kept]; exact used) hb

/-- The sentinels from the pool's end on list the areas it owns, the walks agree with them, and whatever the
next call gives back is one of them, free as a whole and in no list. -/
structure ChainLaw (h : Arena) : Prop where
  chain : SentinelChain h.pool (osMemEndNode h.pool.pool h.pool.totalSize) h.areas
  addrValid : ∀ addr, osMemAddrValidCheck h.pool addr = true ↔ addr = 0 ∨
    (osMemFirstNode h.pool ≤ addr ∧ addr < h.pool.pool + h.pool.totalSize) ∨
      ∃ x ∈ h.areas, x.node ≤ addr ∧ addr < x.node + x.size
  heapNode : ∀ ptr, osMemIsHeapNode h.pool ptr = true ↔
    (osMemFirstNode h.pool ≤ ptr ∧ ptr ≤ osMemEndNode h.pool.pool h.pool.totalSize) ∨
      ∃ x ∈ h.areas, x.node ≤ ptr ∧ ptr ≤ x.sentinel
  poolSize : losMemPoolSizeGet h.pool = h.pool.totalSize + (h.areas.map Area.size).sum
  whole : ∀ c pages, h.Pre (.call c pages) → h.Fits (.call c pages) →
    ∀ v a n, c.released { h.pool with pages := pages } = some (v, a) → handedBack v a = some n →
      ∃ x ∈ h.areas ++ (c.grown { h.pool with pages := pages }).toList, x.node = n ∧ Whole (freeMerged v a).1 x

private theorem Sound.chainLaw {h : Arena} {own : Nat → Nat} (hS : Sound h N F L own) : ChainLaw h := by
  have hI := hS.held.inv
  refine ⟨?_,hI.addrValid_iff,hI.heapNode_iff,hI.poolSizeGet_eq,?_⟩
  · rw [hI.endNode_eq]
    exact hI.fixed.chain
  · intro c pages hp hf v a n hrel hb
    obtain ⟨N',F',L',own',-,hc⟩ := hS.callWithin hp hf
    rw [hrel] at hc
    exact hc.whole (hI.setPages pages) hb

/-- The chain is sound in every run of a pool below 2^29 bytes whose calls fit. -/
theorem chainLaw_of_reachable (h : Arena) (hr : Run.Reachable (arenaSystem PoolBelow) Arena.Fits h) : ChainLaw h := by
  obtain ⟨N,F,L,own,hS⟩ := sound_of_reachable hr
  exact hS.chainLaw

/-- The small arena, expandable, after an allocation of two pages. -/
def grownArena : Arena := (smallArena.run .expandEnable).run (.call (.alloc 0x2000) [0x100000])

/-- The chain of a pool that has obtained one area. -/
theorem chainLaw_grown : ChainLaw grownArena := by
  have hg : (Call.alloc 0x2000).grown { (smallArena.run .expandEnable).pool with pages := [0x100000] } =
      some ⟨0x100000,0x3000⟩ := by decide +kernel
  have hr : (Call.alloc 0x2000).asks { (smallArena.run .expandEnable).pool with pages := [0x100000] } = some 8204 := by
    decide +kernel
  have h1 : Run.Reachable (arenaSystem PoolBelow) Arena.Fits (smallArena.run .expandEnable) :=
    .call (.init (smallArena_init (by norm_num [PoolBelow]))) .expandEnable trivial trivial
  refine chainLaw_of_reachable grownArena (h1.call (.call (.alloc 0x2000) [0x100000]) ⟨?_,?_⟩ ⟨?_,?_,?_⟩)
  · norm_num [Arena.Legal]
  · intro x hx
    obtain rfl := Option.some.inj (hg.symm.trans hx)
    exact ⟨by norm_num,by norm_num,by norm_num,by norm_num,by norm_num,.inr (by decide +kernel),by simp [smallArena, Arena.run]⟩
  · intro r hr'
    obtain rfl := Option.some.inj (hr.symm.trans hr')
    exact .inl (by norm_num)
  · intro x hx
    obtain rfl := Option.some.inj (hg.symm.trans hx)
    norm_num
  · rintro x - hx
    cases hx

/-- The small arena, expandable, after an allocation for which it obtains an area of 2^29 bytes. -/
def hugeArena : Arena := (smallArena.run .expandEnable).run (.call (.alloc 536870000) [0x10000000])

/-- The size of an area of 2^29 bytes falls on the flag bit of the sentinel that lists it. -/
theorem chainLaw_fails_huge : ¬∀ h, Run.Reachable (arenaSystem fun _ => True) (fun _ _ => True) h → ChainLaw h := by
  intro hall
  have hg : (Call.alloc 536870000).grown { (smallArena.run .expandEnable).pool with pages := [0x10000000] } =
      some ⟨0x10000000,0x20000000⟩ := by decide +kernel
  have h1 : Run.Reachable (arenaSystem fun _ => True) (fun _ _ => True) (smallArena.run .expandEnable) :=
    .call (.init (smallArena_init trivial)) .expandEnable trivial trivial
  have hreach : Run.Reachable (arenaSystem fun _ => True) (fun _ _ => True) hugeArena := by
    refine h1.call (.call (.alloc 536870000) [0x10000000]) ⟨?_,?_⟩ trivial
    · norm_num [Arena.Legal]
    · intro x hx
      obtain rfl := Option.some.inj (hg.symm.trans hx)
      exact ⟨by norm_num,by norm_num,by norm_num,by norm_num,by norm_num,.inr (by decide +kernel),
        by simp [smallArena, Arena.run]⟩
  have hareas : hugeArena.areas = [⟨0x10000000,0x20000000⟩] := by decide +kernel
  have hword : hugeArena.pool.sizeAndFlag (osMemEndNode hugeArena.pool.pool hugeArena.pool.totalSize) = 2^31 + 2^29 := by
    decide +kernel
  have hchain := (hall _ hreach).chain
  rw [hareas] at hchain
  have := hchain.1.symm.trans hword
  norm_num at this

end LiteOsKernel.Mem.Tlsf
