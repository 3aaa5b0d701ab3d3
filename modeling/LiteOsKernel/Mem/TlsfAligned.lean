import LiteOsKernel.Mem.TlsfHeap

/-! The blocks of a heap and the nodes they lie in: where an aligned pointer points, what stands before it,
and which node LOS_MemFree takes it for. -/
namespace LiteOsKernel.Mem.Tlsf
open LiteOsKernel Links Lib Run

variable {p q : MemPool} {E : List Area} {N N' F D U : Set Nat} {L : Nat → List Nat} {a c n ptr : Nat} {own : Nat → Nat}
  {h : Arena} {b : Block}

/-- The nodes that the walk from the first node of the pool or of an area to its sentinel visits. -/
inductive IsNode (p : MemPool) (E : List Area) : Nat → Prop
  | first {e : Extent} (he : e ∈ extents p E) : IsNode p E e.first
  | next {a : Nat} (ha : IsNode p E a) (hend : ∀ e ∈ extents p E, osMemNextNode p a ≠ e.last) : IsNode p E (osMemNextNode p a)

namespace Inv

private theorem mem_of_isNode (h : Inv p E N F D U L) (ha : IsNode p E a) : a ∈ N := by
  induction ha with
  | first he => exact h.nodes.tiling.first_mem _ he
  | next _ hend ih =>
    rw [h.nextNode_eq ih] at hend ⊢
    exact (h.nodes.tiling.next _ ih).resolve_left fun ⟨e,he,hl⟩ => hend e he hl

private theorem isNode_of_mem (h : Inv p E N F D U L) : ∀ a ∈ N, IsNode p E a := by
  intro a
  induction a using Nat.strong_induction_on with
  | _ a ih =>
    intro ha
    by_cases hf : ∀ e ∈ extents p E, a ≠ e.first
    · obtain ⟨b,hb,rfl⟩ := h.nodes.tiling.pred a ha hf
      have hlt := h.inside hb
      have hnx := h.nextNode_eq hb
      have hnode := IsNode.next (ih b (by omega) hb) (fun e he hl => h.nodes.tiling.last_not_mem he (by
        rw [← hl, hnx]
        exact ha))
      rwa [hnx] at hnode
    · simp only [ne_eq, not_forall, not_not] at hf
      obtain ⟨e,he,rfl⟩ := hf
      exact .first he

theorem isNode_iff (h : Inv p E N F D U L) : IsNode p E a ↔ a ∈ N := ⟨h.mem_of_isNode,h.isNode_of_mem a⟩

end Inv

/-- A node that is in use. -/
def UsedNode (h : Arena) (a : Nat) : Prop := IsNode h.pool h.areas a ∧ getUsedFlag (h.pool.sizeAndFlag a) ≠ 0

theorem Sound.usedNode_iff (hS : Sound h N F L own) : UsedNode h a ↔ a ∈ N ∧ 2^31 ≤ h.pool.sizeAndFlag a := by
  rw [UsedNode, hS.held.inv.isNode_iff]
  refine and_congr_right fun ha => ?_
  rw [ne_eq, hS.held.inv.used_zero_iff ha, Nat.not_lt]

/-- The block lies in the payload of the node. -/
def Within (h : Arena) (b : Block) (a : Nat) : Prop :=
  UsedNode h a ∧ a + OS_MEM_NODE_HEAD_SIZE ≤ b.ptr ∧ b.ptr + b.size ≤ osMemNextNode h.pool a

/-- A block is aligned as asked and lies in one used node; the word before it is the gap from the payload's start
unless it starts there; and where a call of LOS_MemFree fits, it releases that node and no other. -/
structure BlockLaw (h : Arena) (b : Block) : Prop where
  aligned : b.ptr%b.boundary = 0
  node : ∃! a, Within h b a
  gap : ∀ a, Within h b a → b.ptr ≠ a + OS_MEM_NODE_HEAD_SIZE → a + OS_MEM_NODE_HEAD_SIZE ≤ b.ptr - 4 ∧
    getUsedFlag (h.pool.mem (b.ptr - 4)) = 0 ∧ getAlignedFlag (h.pool.mem (b.ptr - 4)) ≠ 0 ∧
      getAlignedGapsize (h.pool.mem (b.ptr - 4)) = b.ptr - (a + OS_MEM_NODE_HEAD_SIZE)
  freed : ∀ a, Within h b a → ∀ pages, h.Fits (.call (.free b.ptr) pages) → let k := h.run (.call (.free b.ptr) pages)
    k.live = h.live.filter (·.ptr ≠ b.ptr) ∧ ∀ c, UsedNode k c ↔ UsedNode h c ∧ c ≠ a

namespace Sound

theorem within_iff (hS : Sound h N F L own) (hb : b ∈ h.live) : Within h b a ↔ a = own b.ptr := by
  obtain ⟨h1,h2⟩ := hS.held.owns b.ptr (ptr_mem hb)
  have hroom := hS.room b hb
  have hle := h2.le
  rw [Within, hS.usedNode_iff, OS_MEM_NODE_HEAD_SIZE]
  constructor
  · rintro ⟨⟨ha,-⟩,hl,hr⟩
    rw [hS.held.inv.nextNode_eq ha] at hr
    by_contra hne
    have h3 := hS.held.inv.inside ha
    rcases hS.held.inv.nodes.tiling.apart ha h1 hne with h4 | h4 <;> omega
  · rintro rfl
    rw [hS.held.inv.nextNode_eq h1]
    exact ⟨⟨h1,h2.used⟩,hle,hroom⟩

private theorem freed_iff (hS : Sound h N F L own) (hb : b ∈ h.live) (hback : h.Returnable h.pool (.free b.ptr)) :
    (h.call h.pool (.free b.ptr)).live = h.live.filter (·.ptr ≠ b.ptr) ∧
      ∀ c, UsedNode (h.call h.pool (.free b.ptr)) c ↔ UsedNode h c ∧ c ≠ own b.ptr := by
  have hp := ptr_mem hb
  obtain ⟨q,N',F',L',he,hareas,hf⟩ := hS.free_eq hp hback
  have hsound : Sound ⟨q,(h.call h.pool (.free b.ptr)).areas,h.live.filter (·.ptr ≠ b.ptr),
      (h.call h.pool (.free b.ptr)).values⟩ N' F' L' own := hareas ▸ hS.release hp hf
  rw [he] at hsound ⊢
  have hsound' : Sound (h.called h.pool (.free b.ptr) q (h.live.filter (·.ptr ≠ b.ptr))) N' F' L' own := hsound
  refine ⟨rfl,fun c => ?_⟩
  rw [hS.usedNode_iff, hsound'.usedNode_iff]
  constructor
  · rintro ⟨hc,hu⟩
    have hne : c ≠ own b.ptr := by
      rintro rfl
      exact absurd (hf.gone hc) (Nat.not_lt.mpr hu)
    exact ⟨hf.used.only c hc hne hu,hne⟩
  · rintro ⟨⟨hc,hu⟩,hne⟩
    obtain ⟨h1,h2,-⟩ := hf.used.keep c hc hne hu
    exact ⟨h1,h2.symm ▸ hu⟩

theorem blockLaw (hS : Sound h N F L own) (hb : b ∈ h.live) : BlockLaw h b := by
  obtain ⟨h1,h2⟩ := hS.held.owns b.ptr (ptr_mem hb)
  have hbd := hS.held.inv.inside h1
  refine ⟨Nat.mod_eq_zero_of_dvd (hS.dvd b hb),⟨own b.ptr,(hS.within_iff hb).mpr rfl,fun a ha => (hS.within_iff hb).mp ha⟩,?_,?_⟩
  · intro a ha hne
    obtain rfl := (hS.within_iff hb).mp ha
    rw [OS_MEM_NODE_HEAD_SIZE] at hne ⊢
    rcases h2 with ⟨h3,-⟩ | ⟨g,hg4,hgm,hgs,hq,hsf,hw⟩
    · exact absurd h3 hne
    · have hs := hS.held.inv.size_lt h1
      refine ⟨by omega,?_,?_,?_⟩
      · rw [hw, getUsedFlag_eq_zero (by omega)]
        omega
      · rw [hw, ne_eq, getAlignedFlag_eq_zero]
        omega
      · rw [hw, getAlignedGapsize_eq (by omega)]
        omega
  · intro a ha pages hfits
    obtain rfl := (hS.within_iff hb).mp ha
    obtain ⟨h3,h4⟩ := (hS.setPages pages).freed_iff hb hfits.2.2
    refine ⟨h3,fun c => (h4 c).trans ?_⟩
    rw [(hS.setPages pages).usedNode_iff, hS.usedNode_iff]
    exact Iff.rfl

end Sound

/-- In every run of a pool below 2^29 bytes whose calls fit every live block is where LOS_MemFree finds it. -/
theorem blockLaw_of_reachable (h : Arena) (hr : Run.Reachable (arenaSystem PoolBelow) Arena.Fits h) :
    ∀ b ∈ h.live, BlockLaw h b := by
  obtain ⟨N,F,L,own,hS⟩ := sound_of_reachable hr
  exact fun b hb => hS.blockLaw hb

/-- The small arena after an allocation of 100 bytes to the boundary 64. -/
def alignedArena : Arena := smallArena.run (.call (.allocAlign 100 64) [])

/-- The aligned block of the small arena. -/
theorem blockLaw_aligned : BlockLaw alignedArena ⟨0x1400,100,64⟩ := by
  have hlive : alignedArena.live = [⟨0x1400,100,64⟩] := by decide +kernel
  have hg : (Call.allocAlign 100 64).grown { smallArena.pool with pages := [] } = none := by decide +kernel
  have hr : (Call.allocAlign 100 64).asks { smallArena.pool with pages := [] } = some 172 := by decide +kernel
  have h0 : Run.Reachable (arenaSystem PoolBelow) Arena.Fits smallArena := .init (smallArena_init (by norm_num [PoolBelow]))
  refine blockLaw_of_reachable alignedArena (h0.call (.call (.allocAlign 100 64) []) ⟨?_,?_⟩
    ⟨?_,?_,Arena.returnable_of_no_area rfl hg⟩) _
    (by rw [hlive]; exact List.mem_cons_self)
  · norm_num [Arena.Legal]
  · intro x hx
    cases hg.symm.trans hx
  · intro r hr'
    obtain rfl := Option.some.inj (hr.symm.trans hr')
    exact .inl (by norm_num)
  · intro x hx
    cases hg.symm.trans hx

/-- A pool of 402653184 bytes. -/
def wideArena : Arena := ⟨osMemPoolInit (fun _ => 0) [] 0x1000 0x18000000,[],[],[972]⟩

/-- The wide arena after a request of 536870900 bytes. -/
def shortArena : Arena := wideArena.run (.call (.alloc 536870900) [])

/-- A block of more bytes than its pool has lies in no node. -/
theorem blockLaw_fails_short :
    ¬∀ h, Run.Reachable (arenaSystem fun _ => True) (fun _ _ => True) h → ∀ b ∈ h.live, BlockLaw h b := by
  intro hall
  have hal : osMemAlign 0x18000000 OS_MEM_ALIGN_SIZE = 0x18000000 := by decide +kernel
  have hg : (Call.alloc 536870900).grown { wideArena.pool with pages := [] } = none := by decide +kernel
  have h0 : Run.Reachable (arenaSystem fun _ => True) (fun _ _ => True) wideArena := by
    refine .init ⟨fun _ => 0,[],0x1000,0x18000000,_,by norm_num,by norm_num,?_,?_,trivial,?_,rfl⟩
    · rw [hal]
      decide
    · rw [hal]
      norm_num
    · rw [losMemInit, if_neg (by decide), hal]
  have hreach : Run.Reachable (arenaSystem fun _ => True) (fun _ _ => True) shortArena := by
    refine h0.call (.call (.alloc 536870900) []) ⟨?_,?_⟩ trivial
    · norm_num [Arena.Legal]
    · intro x hx
      cases hg.symm.trans hx
  have hlive : shortArena.live = [⟨5068,536870900,4⟩] := by decide +kernel
  obtain ⟨a,⟨-,hl,hr⟩,-⟩ := (hall _ hreach ⟨5068,536870900,4⟩ (by rw [hlive]; exact List.mem_cons_self)).node
  have hsize : getSize (shortArena.pool.sizeAndFlag a) < 2^29 := by
    rw [Tlsf.getSize_eq]
    exact Nat.mod_lt _ (by norm_num)
  have hnext : osMemNextNode shortArena.pool a ≤ a + getSize (shortArena.pool.sizeAndFlag a) := by
    rw [osMemNextNode, Word.add]
    exact Nat.mod_le _ _
  simp only [OS_MEM_NODE_HEAD_SIZE] at hl hr
  omega

end LiteOsKernel.Mem.Tlsf
