import LiteOsKernel.Mem.TlsfSentinels

/-! A pool fresh from LOS_MemInit satisfies the pool invariant with one free node. -/
namespace LiteOsKernel.Mem.Tlsf
open LiteOsKernel Links Lib

variable {p : MemPool}

/-- The pool head before its first node is linked. -/
def headInit (mem : Nat → Nat) (pages : List Nat) (pool size : Nat) : MemPool :=
  let p : MemPool := ⟨pool,size,OS_MEM_POOL_LOCK_ENABLE,0,0,fun _ => 0,fun _ => 0,mem,pages,false⟩
  let p := p.setSizeAndFlag (pool + 960) (size - 972)
  (p.setPtr (pool + 960) 0).setMagic (pool + 960) OS_MEM_NODE_MAGIC

theorem headInit_mem (mem : Nat → Nat) (pages : List Nat) (pool size x : Nat) :
    (headInit mem pages pool size).mem x = if x = pool + 960 then OS_MEM_NODE_MAGIC else if x = pool + 964 then 0
      else if x = pool + 968 then size - 972 else mem x := by
  simp [headInit, MemPool.setSizeAndFlag, MemPool.setPtr, MemPool.setMagic]

theorem poolInit_eq (mem : Nat → Nat) (pages : List Nat) {pool size : Nat} (hpos : 0 < pool) (hsz : 972 ≤ size)
    (hidx : osMemFreeListIndexGet (size - 972) < OS_MEM_FREE_LIST_COUNT) (htop : pool + size ≤ 2^32) : ∃ m, osMemPoolInit mem pages pool size =
      { osMemListAdd (headInit mem pages pool size) (osMemFreeListIndexGet (size - 972)) (pool + 960) with
        mem := m, curUsedSize := 972, waterLine := 972 } ∧
      ∀ x, m x = if x = pool + size - 12 + 8 then 2^31 + 2^29 else if x = pool + size - 12 + 4 then 0
        else if x = pool + size - 12 then OS_MEM_NODE_MAGIC else
          (osMemListAdd (headInit mem pages pool size) (osMemFreeListIndexGet (size - 972)) (pool + 960)).mem x := by
  have he : osMemEndNode pool size = pool + size - 12 := endNode_eq htop (by omega)
  have hs : Word.sub (Word.sub size sizeofPoolHead) OS_MEM_NODE_HEAD_SIZE = size - 972 := by
    rw [sizeofPoolHead, OS_MEM_NODE_HEAD_SIZE, Word.sub_eq (x := size) (by omega), Word.sub_eq (by omega)]
    omega
  have hsf : (headInit mem pages pool size).sizeAndFlag (pool + 960) = size - 972 := by
    rw [MemPool.sizeAndFlag, headInit_mem, if_neg (by omega), if_neg (by omega), if_pos rfl]
  have hadd : osMemFreeNodeAdd (headInit mem pages pool size) (pool + 960) =
      osMemListAdd (headInit mem pages pool size) (osMemFreeListIndexGet (size - 972)) (pool + 960) := by
    rw [osMemFreeNodeAdd, hsf, if_neg (by omega)]
  set q := osMemListAdd (headInit mem pages pool size) (osMemFreeListIndexGet (size - 972)) (pool + 960)
  obtain ⟨m,hm,hmx⟩ := sentinelNodeSet_mem (p := (q.setMagic (pool + size - 12) OS_MEM_NODE_MAGIC).setPtr
    (pool + size - 12) 0) (s := pool + size - 12) (n := 0) (v := 0) (t := pool + size - 12)
    (by simp [MemPool.ptr, MemPool.setPtr]) (by norm_num)
  refine ⟨m,?_,?_⟩
  · have hinit : osMemPoolInit mem pages pool size =
        { osMemSentinelNodeSet ((q.setMagic (pool + size - 12) OS_MEM_NODE_MAGIC).setPtr (pool + size - 12) 0)
            (pool + size - 12) 0 0 with curUsedSize := 972, waterLine := 972 } := by
      simp only [osMemPoolInit, hs, he]
      rw [← hadd]
      rfl
    rw [hinit, hm]
    rfl
  · intro x
    rw [hmx]
    simp only [MemPool.setPtr, MemPool.setMagic, MemPool.mem_setWord]
    split_ifs <;> rfl

/-- What OsMemPoolInit leaves in the pool head. -/
structure Created (p : MemPool) (start size : Nat) : Prop where
  pool : p.pool = start
  totalSize : p.totalSize = size
  attr : p.attr = OS_MEM_POOL_LOCK_ENABLE
  waterLine : p.waterLine = 972
  curUsedSize : p.curUsedSize = 972
  free : p.sizeAndFlag (start + 960) = size - 972

/-- A fresh pool satisfies the invariant with one free node. -/
theorem inv_poolInit (mem : Nat → Nat) (pages : List Nat) (pool S : Nat) (hpos : 0 < pool) (hmod : pool%4 = 0)
    (hS4 : S%4 = 0) (hsz : 992 ≤ S) (hle : S < 2^29 + 972) (htop : pool + S ≤ 2^32) :
    Created (osMemPoolInit mem pages pool S) pool S ∧
      ∃ F L, Inv (osMemPoolInit mem pages pool S) [] {pool + 960} F ∅ ∅ L := by
  have hidx := index_lt (s := S - 972) (by omega) (by omega)
  obtain ⟨m,hp,hm⟩ := poolInit_eq mem pages hpos (by omega) (by simp only [OS_MEM_FREE_LIST_COUNT]; omega) htop
  rw [hp]
  set i := osMemFreeListIndexGet (S - 972)
  set f := pool + 960 with hf
  have hh := headInit_mem mem pages pool S
  have hsf : (headInit mem pages pool S).sizeAndFlag f = S - 972 := by
    rw [MemPool.sizeAndFlag, hh, if_neg (by omega), if_neg (by omega), if_pos (by omega)]
  have hfields : (headInit mem pages pool S).pool = pool ∧ (headInit mem pages pool S).totalSize = S ∧
      (headInit mem pages pool S).attr = OS_MEM_POOL_LOCK_ENABLE ∧ (headInit mem pages pool S).panic = false ∧
      (∀ j, (headInit mem pages pool S).freeList j = 0) ∧ ∀ w, (headInit mem pages pool S).freeListBitmap w = 0 :=
    ⟨rfl,rfl,rfl,rfl,fun _ => rfl,fun _ => rfl⟩
  generalize headInit mem pages pool S = h₀ at *
  obtain ⟨e1,e2,e3,e4,e5,e6⟩ := hfields
  have hempty : Lists h₀ ∅ (fun _ => []) := by
    refine ⟨by simp,by simp,fun _ => linked_nil,by simp [e5],?_,by simp [e6]⟩
    intro j _
    simp [bitSet, e6]
  have hlists := hempty.listAdd (a := f) (i := i) (by
    rintro a (rfl | ha) b (rfl | hb) hab
    · exact absurd rfl hab
    · exact absurd hb (Set.notMem_empty b)
    · exact absurd ha (Set.notMem_empty a)
    · exact absurd hb (Set.notMem_empty b)) (Set.notMem_empty 0) (Set.notMem_empty f)
    (by simp only [OS_MEM_FREE_LIST_COUNT]; omega) (by rw [hsf])
  obtain ⟨g1,g2,g4,-⟩ := listAdd_fields h₀ i f
  have g3 := (sameHead_listAdd h₀ i f).attr
  rw [e1] at g1
  rw [e2] at g2
  rw [e3] at g3
  rw [e4] at g4
  have hq := listAdd_mem h₀ i f
  generalize osMemListAdd h₀ i f = q at *
  have w0 : m f = OS_MEM_NODE_MAGIC := by
    rw [hm, if_neg (by omega), if_neg (by omega), if_neg (by omega), hq, if_pos rfl]
  have w4 : m (f + 4) = 0 := by
    rw [hm, if_neg (by omega), if_neg (by omega), if_neg (by omega), hq, if_neg (by omega), if_neg (by omega),
      if_neg (by omega), if_neg (by simp [e5]), hh, if_neg (by omega), if_pos (by omega)]
  have w8 : m (f + 8) = S - 972 := by
    rw [hm, if_neg (by omega), if_neg (by omega), if_neg (by omega), hq, if_neg (by omega), if_neg (by omega),
      if_neg (by omega), if_neg (by simp [e5]), hh, if_neg (by omega), if_neg (by omega), if_pos (by omega)]
  have wlow : ∀ x, x < pool + S - 12 → m x = q.mem x := by
    intro x hx
    rw [hm, if_neg (by omega), if_neg (by omega), if_neg (by omega)]
  set p : MemPool := { q with mem := m, curUsedSize := 972, waterLine := 972 }
  have hend : endAddr p = pool + S - 12 := by
    rw [endAddr, show p.pool = pool from g1, show p.totalSize = S from g2]
  have hfirst : osMemFirstNode p = f := by rw [osMemFirstNode, show p.pool = pool from g1, hf, sizeofPoolHead]
  have hsize : p.size f = S - 972 := by
    rw [MemPool.size, show p.sizeAndFlag f = S - 972 from w8, Nat.mod_eq_of_lt (by omega)]
  have hext : extents p [] = [⟨f,pool + S - 12,0⟩] := by rw [extents, hfirst, hend, List.map_nil]
  refine ⟨⟨g1,g2,g3,rfl,rfl,w8⟩,insert f ∅,_,⟨?_,⟨?_,?_,?_⟩,hlists.congr rfl rfl ?_ ?_ ?_,?_,?_,?_,?_,?_⟩⟩
  · refine ⟨?_,?_,?_,?_,?_,?_,g4,by simp,List.nodup_nil,?_⟩
    · rw [show p.pool = pool from g1]; exact hpos
    · rw [show p.pool = pool from g1]; exact hmod
    · rw [show p.totalSize = S from g2]; exact hS4
    · rw [show p.totalSize = S from g2, sizeofPoolHead]; omega
    · rw [show p.totalSize = S from g2]; exact hle
    · rw [show p.pool = pool from g1, show p.totalSize = S from g2]; exact htop
    · rw [hend]
      exact ⟨(hm _).trans (if_pos rfl),(hm _).trans (by rw [if_neg (by omega), if_neg (by omega), if_pos rfl]),
        (hm _).trans (by rw [if_neg (by omega), if_pos rfl])⟩
  · rw [hext]
    refine ⟨by norm_num,by norm_num,?_,?_,?_,?_,?_,?_,?_,?_,?_,?_⟩
    · rintro e he
      obtain rfl := List.mem_singleton.mp he
      simp only
      omega
    · rintro e he d hd hne
      rw [List.mem_singleton.mp he, List.mem_singleton.mp hd] at hne
      exact absurd rfl hne
    · rintro e he
      obtain rfl := List.mem_singleton.mp he
      rfl
    · rintro a rfl
      exact ⟨_,List.mem_singleton_self _,le_rfl,by simp only; omega⟩
    · rintro a rfl; omega
    · rintro a rfl; exact .inl ⟨_,List.mem_singleton_self _,by simp only; omega⟩
    · rintro a rfl b rfl hab; omega
    · rintro b rfl hne
      exact absurd rfl (hne _ (List.mem_singleton_self _))
    · rintro a rfl hn
      have : f + p.size f = f := hn
      omega
    · rintro e he
      obtain rfl := List.mem_singleton.mp he
      exact w4
  · rintro a rfl
    omega
  · rintro a rfl
    exact .inl (by rw [hsize]; exact w8)
  · rintro b (rfl | hb)
    · exact wlow _ (by omega)
    · exact absurd hb (Set.notMem_empty b)
  · rintro b (rfl | hb)
    · exact wlow _ (by omega)
    · exact absurd hb (Set.notMem_empty b)
  · rintro b (rfl | hb)
    · exact wlow _ (by omega)
    · exact absurd hb (Set.notMem_empty b)
  · rintro a (rfl | ha)
    · exact ⟨rfl,by rw [show p.sizeAndFlag f = S - 972 from w8]; omega⟩
    · exact absurd ha (Set.notMem_empty a)
  · rintro a rfl _
    exact .inl (.inl rfl)
  · exact fun a ha => absurd ha (Set.notMem_empty a)
  · rintro a (rfl | ha) (hn | hn)
    · omega
    · exact Set.notMem_empty _ hn
    · exact Set.notMem_empty _ ha
    · exact Set.notMem_empty _ ha
  · rintro a rfl _
    exact w0

end LiteOsKernel.Mem.Tlsf
