import LiteOsKernel.Mem.TlsfExpand
import LiteOsKernel.Mem.TlsfSearch

/-! Allocation keeps the pool invariant and the used nodes, also where it expands the pool. -/
namespace LiteOsKernel.Mem.Tlsf
open LiteOsKernel Links Lib

variable {p p' q : MemPool} {E : List Area} {N N' F F' D U : Set Nat} {L L' : Nat → List Nat} {a b r : Nat} {x : Area}

/-- A node in use whose block starts at its head, without the alignment gap. -/
def Plain (p : MemPool) (a : Nat) : Prop := p.sizeAndFlag a = p.size a + 2^31

theorem Plain.congr (h : Plain p a) (hs : p'.sizeAndFlag a = p.sizeAndFlag a) : Plain p' a := by
  rw [Plain, MemPool.size, hs]
  exact h

/-- The area that an allocation of a node of r bytes obtains, if it has to. -/
def grownArea (p : MemPool) (r : Nat) : Option Area :=
  if (osMemFreeNodeGet p r).2 ≠ 0 ∨ p.attr &&& OS_MEM_POOL_EXPAND_ENABLE = 0 then none else expandArea p r

/-- No free node is found for r bytes and no area is obtained. -/
def NoRoom (p : MemPool) (r : Nat) : Prop := (osMemFreeNodeGet p r).2 = 0 ∧ grownArea p r = none

instance (p : MemPool) (r : Nat) : Decidable (NoRoom p r) := inferInstanceAs (Decidable (_ ∧ _))

/-- The usage counted for a new area is that of its sentinel. -/
def countArea (p : MemPool) : Option Area → MemPool
  | none => p
  | some _ => osMemWaterUsedRecord p OS_MEM_NODE_HEAD_SIZE

namespace Inv

/-- Marking the detached node used ends an allocation. -/
theorem setUsed (h : Inv p E N F {a} ∅ L) (ha : a ∈ N) (haf : p.sizeAndFlag a < 2^31) :
    let q := p.setSizeAndFlag a (p.sizeAndFlag a ||| OS_MEM_NODE_USED_FLAG)
    Inv q E N F ∅ ∅ L ∧ Plain q a ∧ q.size a = p.size a ∧ UsedKept p N q N {a} := by
  intro q
  have hv : p.sizeAndFlag a ||| OS_MEM_NODE_USED_FLAG = p.size a + 2^31 := by
    rw [or_used haf, h.free_eq ha haf]
  obtain ⟨h1,h2⟩ := h.setFlags ∅ ha (h.apart a rfl) (.inr (.inl hv)) (fun b hb hne => absurd hb hne)
    (fun hlt => by omega) (fun b hb => absurd hb (Set.notMem_empty b))
  have hla := h.size_lt ha
  have hsf : q.sizeAndFlag a = p.size a + 2^31 := by rw [sizeAndFlag_setSizeAndFlag, if_pos rfl, hv]
  have hsz : q.size a = p.size a := by
    rw [MemPool.size, hsf]
    omega
  exact ⟨h1,by rw [Plain, hsf, hsz],hsz,h2⟩

/-- Clearing the flags of a used node starts its release or reallocation. -/
theorem clearFlags (h : Inv p E N F ∅ U L) (ha : a ∈ N) (hu : 2^31 ≤ p.sizeAndFlag a) :
    Inv (p.setSizeAndFlag a (p.size a)) E N F {a} U L ∧
      (p.setSizeAndFlag a (p.size a)).sizeAndFlag a = p.size a ∧
      UsedKept p N (p.setSizeAndFlag a (p.size a)) N {a} := by
  have haF : a ∉ F := fun hm => by
    have := (h.sub a hm).2
    omega
  obtain ⟨h1,h2⟩ := h.setFlags {a} ha haF (.inl rfl) (fun b hb => absurd hb (Set.notMem_empty b))
    (fun _ => rfl) (by rintro b rfl; exact haF)
  exact ⟨h1,by rw [sizeAndFlag_setSizeAndFlag, if_pos rfl],h2⟩

end Inv

/-- A pool q that has taken the free node a of r bytes off the lists of p, after it obtained the area x
if it had to. A request of 2^29 bytes or more gets a node smaller than it. -/
structure Detached (p q : MemPool) (x : Option Area) (E : List Area) (N F N' F' : Set Nat) (L' : Nat → List Nat)
    (a r : Nat) : Prop where
  inv : Inv q (E ++ x.toList) N' F' {a} ∅ L'
  mem : a ∈ N'
  free : q.sizeAndFlag a < 2^31
  room : r < 2^29 → r ≤ q.size a
  huge : 2^29 ≤ r → a ∈ F ∧ hugeBound r ≤ p.size a ∧ q.size a = p.size a
  found : (osMemFreeNodeGet p r).2 ≠ 0 → a = (osMemFreeNodeGet p r).2
  used : UsedKept p N q N' ∅
  attr : q.attr = p.attr
  curUsedSize : q.curUsedSize = (countArea p x).curUsedSize
  waterLine : q.waterLine = (countArea p x).waterLine

theorem Detached.ne_zero {y : Option Area} (h : Detached p q y E N F N' F' L' a r) : a ≠ 0 := by
  have := h.inv.inside h.mem
  omega

namespace Inv

theorem freeNodeGet (h : Inv p E N F ∅ ∅ L) (hr : 20 ≤ r) (hr4 : r%4 = 0) (hr' : r < 2^30 + 2^26)
    (hg : osMemFreeNodeGet p r = (q, a)) :
    (a = 0 ∧ q = p) ∨ ∃ F' L', Detached p q none E N F N F' L' a r := by
  rw [osMemFreeNodeGet] at hg
  rcases hf : osMemFindNextSuitableBlock p r with ⟨f,i⟩
  simp only [hf] at hg
  split at hg
  case isTrue =>
    obtain ⟨rfl,rfl⟩ := Prod.mk.inj hg
    exact .inl ⟨rfl,rfl⟩
  case isFalse h0 =>
    obtain ⟨rfl,rfl⟩ := Prod.mk.inj hg
    obtain ⟨h1,h2,h3,h3'⟩ := h.freeLists.find_sound hr hr4 hr' hf h0
    obtain ⟨L',h4,h5,h6⟩ := h.listDelete h1 h2
    obtain ⟨hN,hfr⟩ := h.sub _ h1
    have hhead := sameHead_listDelete p i f
    have hsz : (osMemListDelete p i f).size f = p.sizeAndFlag f := by
      rw [MemPool.size, h5.sizeAndFlag f hN, ← MemPool.size, h.free_eq hN hfr]
    refine .inr ⟨F \ {f},L',?_,hN,(h5.sizeAndFlag f hN).symm ▸ hfr,fun hlt => hsz.symm ▸ h3 hlt,fun hge => ?_,
      fun _ => by simp only [osMemFreeNodeGet, hf, if_neg h0],h6,hhead.attr,hhead.curUsedSize,hhead.waterLine⟩
    · rw [Option.toList_none, List.append_nil]
      refine h4.weaken ?_ ?_ ?_
      · rintro b (rfl | hb)
        · rfl
        · exact absurd hb (Set.notMem_empty b)
      · rintro b rfl hm
        exact hm.2 rfl
      · rintro b ⟨hb,-⟩
        exact hb
    · rw [hsz, ← h.free_eq hN hfr]
      exact ⟨h1,h3' hge,rfl⟩

/-- A free node that is large enough is not overlooked. -/
theorem freeNodeGet_ne (h : Inv p E N F ∅ ∅ L) (hr : 20 ≤ r) (ha : a ∈ F) (hle : r ≤ p.sizeAndFlag a) :
    (osMemFreeNodeGet p r).2 ≠ 0 := by
  have h1 := h.freeLists.find_complete hr ha hle (h.free_lt ha)
  rcases hf : osMemFindNextSuitableBlock p r with ⟨f,i⟩
  rw [hf] at h1
  simp only [osMemFreeNodeGet, hf, if_neg h1]
  exact h1

end Inv

private theorem expandPages_nil (h : p.pages = []) (k : Nat) : expandPages p k = (p, 0) := by
  cases k <;> rw [expandPages] <;> simp [h]

theorem expandArea_nil (h : p.pages = []) : expandArea p r = none := by
  simp only [expandArea, expandPages_nil h]
  split_ifs <;> first | rfl | contradiction

namespace Inv

/-- The search with the retry after an expansion finds nothing, or detaches a node. -/
theorem allocNode (h : Inv p E N F ∅ ∅ L) (hr : 20 ≤ r) (hr4 : r%4 = 0) (hr' : r < 2^30 + 2^26)
    (hx : ∀ x, grownArea p r = some x → x.Fresh p E) {fuel : Nat} (hf : p.pages.length < fuel)
    (he : osMemAllocNode p r fuel = (q, a)) :
    (NoRoom p r ∧ a = 0 ∧ ∃ pages, q = { p with pages := pages }) ∨
      ¬NoRoom p r ∧ ∃ N' F' L', Detached p q (grownArea p r) E N F N' F' L' a r := by
  obtain ⟨n,rfl⟩ : ∃ n, fuel = n + 1 := ⟨fuel - 1,by omega⟩
  rcases hg : osMemFreeNodeGet p r with ⟨p₁,c⟩
  simp only [osMemAllocNode, hg] at he
  rcases h.freeNodeGet hr hr4 hr' hg with ⟨rfl,rfl⟩ | ⟨F',L',hd⟩
  swap
  · have h0 := hd.ne_zero
    have hget : (osMemFreeNodeGet p r).2 ≠ 0 := by rw [hg]; exact h0
    rw [if_pos h0] at he
    obtain ⟨rfl,rfl⟩ := Prod.mk.inj he
    rw [show grownArea p r = none from if_pos (.inl hget)]
    exact .inr ⟨fun hn => hget hn.1,N,F',L',hd⟩
  have hget₁ : (osMemFreeNodeGet p₁ r).2 = 0 := by rw [hg]
  have hgrown : grownArea p₁ r = if p₁.attr &&& OS_MEM_POOL_EXPAND_ENABLE = 0 then none else expandArea p₁ r := by
    simp only [grownArea, hget₁, ne_eq, not_true_eq_false, false_or]
  rw [NoRoom]
  rw [hgrown] at hx ⊢
  simp only [ne_eq, not_true_eq_false, if_false] at he
  by_cases hattr : p₁.attr &&& OS_MEM_POOL_EXPAND_ENABLE = 0
  · rw [if_pos hattr] at he ⊢
    obtain ⟨rfl,rfl⟩ := Prod.mk.inj he
    exact .inl ⟨⟨hget₁,rfl⟩,rfl,p₁.pages,rfl⟩
  rw [if_neg hattr] at he hx ⊢
  rcases h.poolExpand hx (by omega) with ⟨hn,pages,hp⟩ | ⟨x,p₂,L₂,hn,hp,hroom,hex⟩
  · simp only [hp, Bool.false_eq_true, if_false] at he
    obtain ⟨rfl,rfl⟩ := Prod.mk.inj he
    exact .inl ⟨⟨hget₁,hn⟩,rfl,pages,rfl⟩
  · -- the new node is large enough, so the retry succeeds
    have hlt := (hx x hn).ok.size_lt
    have hne : p₁.pages ≠ [] := by
      intro hnil
      rw [expandArea_nil hnil] at hn
      cases hn
    have hlen := List.length_pos_of_ne_nil hne
    obtain ⟨m,rfl⟩ : ∃ m, n = m + 1 := ⟨n - 1,by omega⟩
    have hget := hex.inv.freeNodeGet_ne hr (a := x.node) (.inl rfl) (by rw [hex.sizeAndFlag]; omega)
    rcases hg₂ : osMemFreeNodeGet p₂ r with ⟨p₃,d⟩
    rw [hg₂] at hget
    simp only [hp, if_true, osMemAllocNode, hg₂, if_pos hget] at he
    obtain ⟨rfl,rfl⟩ := Prod.mk.inj he
    rcases hex.inv.freeNodeGet hr hr4 hr' hg₂ with ⟨h0,-⟩ | ⟨F',L',hd⟩
    · exact absurd h0 hget
    · rw [hn]
      have hrec := recorded_waterUsedRecord p₁ OS_MEM_NODE_HEAD_SIZE
      have hcur : p₂.curUsedSize = (osMemWaterUsedRecord p₁ OS_MEM_NODE_HEAD_SIZE).curUsedSize :=
        hex.recorded.curUsedSize.trans hrec.curUsedSize.symm
      refine .inr ⟨fun hno => (nomatch hno.2),_,F',L',?_,hd.mem,hd.free,hd.room,fun hge => by omega,fun h0 => absurd hget₁ h0,
        hex.used.trans hd.used,hd.attr.trans hex.attr,
        hd.curUsedSize.trans hcur,?_⟩
      · have := hd.inv
        rwa [Option.toList_none, List.append_nil] at this
      · refine hd.waterLine.trans ?_
        rw [countArea, countArea, hrec.waterLine, ← hcur]
        exact hex.recorded.waterLine

end Inv

/-- The node size for a request of the given payload size. -/
def allocSizeOf (size : Nat) : Nat := (size + 15)/4*4

theorem allocSize_eq {size : Nat} (h : size < 2^31) :
    osMemAlign (Word.add size OS_MEM_NODE_HEAD_SIZE) OS_MEM_ALIGN_SIZE = allocSizeOf size := by
  have h1 : Word.add size OS_MEM_NODE_HEAD_SIZE = size + 12 := Word.add_eq (by simp only [OS_MEM_NODE_HEAD_SIZE]; omega)
  have h2 : osMemAlign (size + 12) 4 = (size + 12 + 3)/4*4 := osMemAlign_four (by omega)
  rw [h1, OS_MEM_ALIGN_SIZE, h2, allocSizeOf]

theorem splitBound_eq {k : Nat} (h : k < 2^31) :
    Word.add (Word.add k OS_MEM_NODE_HEAD_SIZE) OS_MEM_MIN_ALLOC_SIZE = k + 20 := by
  have h1 : Word.add k OS_MEM_NODE_HEAD_SIZE = k + 12 := Word.add_eq (by simp only [OS_MEM_NODE_HEAD_SIZE]; omega)
  rw [h1]
  exact Word.add_eq (by simp only [OS_MEM_MIN_ALLOC_SIZE]; omega)

/-- A pool q in which p has handed out the node a for r bytes, after it obtained the area x if it had to. -/
structure Allocated (p q : MemPool) (x : Option Area) (E : List Area) (N F N' F' : Set Nat) (L' : Nat → List Nat)
    (a r : Nat) : Prop where
  inv : Inv q (E ++ x.toList) N' F' ∅ ∅ L'
  mem : a ∈ N'
  plain : Plain q a
  new : a ∈ N → p.sizeAndFlag a < 2^31
  room : r < 2^29 → r ≤ q.size a
  huge : 2^29 ≤ r → a ∈ F ∧ hugeBound r ≤ p.size a ∧ q.size a = p.size a
  found : (osMemFreeNodeGet p r).2 ≠ 0 → a = (osMemFreeNodeGet p r).2
  used : UsedKept p N q N' {a}
  attr : q.attr = p.attr
  recorded : Recorded (countArea p x) q (q.size a)

namespace Inv

/-- Splitting off the surplus of the detached node when it is large enough, as every
allocating path does. -/
theorem trim (h : Inv p E N F {a} ∅ L) {k : Nat} (ha : a ∈ N) (haf : p.sizeAndFlag a < 2^31) (hk : 20 ≤ k)
    (hk4 : k%4 = 0) (hq : q = if k + 20 ≤ p.sizeAndFlag a then osMemSplitNode p a k else p) :
    ∃ N' F' L', Inv q E N' F' {a} ∅ L' ∧ a ∈ N' ∧ q.sizeAndFlag a < 2^31 ∧ (q.size a = k ∨ q.size a = p.size a) ∧
      (k ≤ p.size a → k ≤ q.size a) ∧ UsedKept p N q N' ∅ ∧ SameHead p q ∧
      ∀ y, a + 12 ≤ y → y < a + k → y < a + p.size a → q.mem y = p.mem y := by
  split at hq
  case isTrue hs =>
    rw [h.free_eq ha haf] at hs
    have hla := h.size_lt ha
    obtain ⟨N',F',L',h1,h2,h3,h4,h6⟩ := h.splitNode ha haf hk hk4 hs
    rw [← hq] at h1 h3 h4 h6
    have h5 : q.size a = k := by rw [MemPool.size, h3, Nat.mod_eq_of_lt (by omega)]
    exact ⟨N',F',L',h1,h2,by omega,.inl h5,fun _ => h5.ge,h4,hq ▸ sameHead_splitNode p a k,fun y hl hr _ => h6 y hl hr⟩
  case isFalse =>
    subst hq
    exact ⟨N,F,L,h,ha,haf,.inr rfl,id,UsedKept.refl,SameHead.refl _,fun _ _ _ _ => rfl⟩

/-- OsMemAlloc fails without effect on the pool, or hands out a node that was free or is new. -/
theorem osMemAlloc (h : Inv p E N F ∅ ∅ L) {size : Nat} (h8 : 8 ≤ size) (hs : size < 2^30)
    (hx : ∀ x, grownArea p (allocSizeOf size) = some x → x.Fresh p E) {ptr : Nat}
    (he : Tlsf.osMemAlloc p size = (q, ptr)) :
    (NoRoom p (allocSizeOf size) ∧ ptr = 0 ∧ ∃ pages, q = { p with pages := pages }) ∨
      ¬NoRoom p (allocSizeOf size) ∧ ∃ a N' F' L', ptr = a + 12 ∧
        Allocated p q (grownArea p (allocSizeOf size)) E N F N' F' L' a (allocSizeOf size) := by
  simp only [Tlsf.osMemAlloc, allocSize_eq (show size < 2^31 by omega)] at he
  have hk : 20 ≤ allocSizeOf size ∧ allocSizeOf size%4 = 0 ∧ allocSizeOf size < 2^30 + 2^26 := by
    rw [allocSizeOf]
    omega
  set k := allocSizeOf size
  rcases hg : osMemAllocNode p k (p.pages.length + 1) with ⟨p₁,a⟩
  rw [splitBound_eq (by omega)] at he
  simp only [hg] at he
  rcases h.allocNode hk.1 hk.2.1 hk.2.2 hx (Nat.lt_succ_self _) hg with ⟨hn,rfl,hq⟩ | ⟨hn,N₁,F₁,L₁,hd⟩
  · simp only [if_true] at he
    obtain ⟨rfl,rfl⟩ := Prod.mk.inj he
    exact .inl ⟨hn,rfl,hq⟩
  rw [if_neg hd.ne_zero] at he
  set p₂ := if k + 20 ≤ p₁.sizeAndFlag a then osMemSplitNode p₁ a k else p₁ with hp₂
  obtain ⟨N₂,F₂,L₂,h₂,ha₂,haf₂,hsz₂,hle₂,hu₂,hh₂,-⟩ := hd.inv.trim hd.mem hd.free hk.1 hk.2.1 hp₂
  obtain ⟨h₃,hs₃,hsz₃,hu₃⟩ := h₂.setUsed ha₂ haf₂
  have hh₃ := hh₂.trans (sameHead_setWord p₂ (a + 8) (p₂.sizeAndFlag a ||| OS_MEM_NODE_USED_FLAG))
  rw [← MemPool.setSizeAndFlag] at hh₃
  set p₃ := p₂.setSizeAndFlag a (p₂.sizeAndFlag a ||| OS_MEM_NODE_USED_FLAG)
  have hgs : getSize (p₃.sizeAndFlag a) = p₃.size a := Tlsf.getSize_eq _
  rw [hgs] at he
  obtain ⟨rfl,rfl⟩ := Prod.mk.inj he
  have hmem := mem_waterUsedRecord p₃ (p₃.size a)
  have hsf₃ : (osMemWaterUsedRecord p₃ (p₃.size a)).sizeAndFlag a = p₃.sizeAndFlag a := congrFun hmem (a + 8)
  have hsize : (osMemWaterUsedRecord p₃ (p₃.size a)).size a = p₃.size a := by
    rw [MemPool.size, hsf₃, MemPool.size]
  have hattr := (attr_waterUsedRecord p₃ (p₃.size a)).trans hh₃.attr
  have hrec := recorded_waterUsedRecord p₃ (p₃.size a)
  refine .inr ⟨hn,a,N₂,F₂,L₂,rfl,h₃.waterUsedRecord _,ha₂,hs₃.congr hsf₃,?_,?_,?_,hd.found,?_,hattr.trans hd.attr,?_⟩
  · intro haN
    by_contra hge
    have h1 := (hd.used.keep a haN (Set.notMem_empty a) (Nat.le_of_not_lt hge)).2.1
    have h2 := hd.free
    omega
  · rw [hsize, hsz₃]
    exact fun hlt => hle₂ (hd.room hlt)
  · rw [hsize, hsz₃]
    intro hge
    rcases hsz₂ with h5 | h5
    · have := h₂.size_lt ha₂
      omega
    · rw [h5]
      exact hd.huge hge
  · exact (((hd.used.trans hu₂).mono (Set.empty_subset _)).trans hu₃).congr_mem hmem
  · rw [hsize]
    exact hrec.congr_left (hh₃.curUsedSize.trans hd.curUsedSize) (hh₃.waterLine.trans hd.waterLine)

end Inv

end LiteOsKernel.Mem.Tlsf
