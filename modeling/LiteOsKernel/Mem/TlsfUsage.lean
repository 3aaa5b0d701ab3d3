import Mathlib.Algebra.BigOperators.Group.Finset.Basic
import Mathlib.Algebra.Order.BigOperators.Group.List
import LiteOsKernel.Mem.TlsfAligned

/-! The usage counters of a heap against the walk over its nodes. -/
namespace LiteOsKernel.Mem.Tlsf
open LiteOsKernel Links Lib Run

variable {p q v : MemPool} {E E' : List Area} {N N' F F' D U : Set Nat} {L L' : Nat → List Nat} {a b c k m n s : Nat}
  {x : Option Area} {e : Extent} {own : Nat → Nat} {h : Arena}

-- LOS_MemTotalUsedGet

/-- A walk passes twelve bytes or more with each step, so it ends before this. -/
@[irreducible] def walkFuel : Nat := 2^32

def totalUsedFrom (p : MemPool) : Nat → Nat → Nat → Nat → Nat
  | 0, _, _, memUsed => memUsed
  | fuel+1, tmpNode, endNode, memUsed =>
    if ¬tmpNode ≤ endNode then memUsed
    else if tmpNode = endNode then
      let memUsed := Word.add memUsed OS_MEM_NODE_HEAD_SIZE
      if osMemIsLastSentinelNode p endNode then memUsed
      else
        let size := getSize (p.sizeAndFlag endNode)
        let tmpNode := p.ptr endNode
        totalUsedFrom p fuel tmpNode (osMemEndNode tmpNode size) memUsed
    else
      let memUsed :=
        if getUsedFlag (p.sizeAndFlag tmpNode) ≠ 0 then Word.add memUsed (getSize (p.sizeAndFlag tmpNode)) else memUsed
      totalUsedFrom p fuel (osMemNextNode p tmpNode) endNode memUsed

def losMemTotalUsedGet (p : MemPool) : Nat :=
  totalUsedFrom p walkFuel (osMemFirstNode p) (osMemEndNode p.pool p.totalSize) 0

-- The bytes in use

open scoped Classical in
/-- The nodes in use. -/
@[irreducible] noncomputable def usedNodes (p : MemPool) (N : Set Nat) : Finset Nat :=
  (Finset.range (2^32)).filter fun a => a ∈ N ∧ 2^31 ≤ p.sizeAndFlag a

/-- The sizes of the nodes in use. -/
noncomputable def usedBytes (p : MemPool) (N : Set Nat) : Nat := ∑ a ∈ usedNodes p N, p.size a

private theorem Inv.mem_usedNodes (h : Inv p E N F D U L) : a ∈ usedNodes p N ↔ a ∈ N ∧ 2^31 ≤ p.sizeAndFlag a := by
  classical
  rw [usedNodes, Finset.mem_filter, Finset.mem_range]
  refine ⟨fun ha => ha.2,fun ha => ⟨?_,ha⟩⟩
  have := h.inside ha.1
  omega

/-- Where a call leaves all used nodes but one alone, the sizes of the others stay. -/
private theorem UsedKept.sum_erase (h : UsedKept p N q N' {a}) (hp : Inv p E N F ∅ ∅ L) (hq : Inv q E' N' F' ∅ ∅ L') :
    ∑ b ∈ (usedNodes q N').erase a, q.size b = ∑ b ∈ (usedNodes p N).erase a, p.size b := by
  have hset : (usedNodes q N').erase a = (usedNodes p N).erase a := by
    ext b
    rw [Finset.mem_erase, Finset.mem_erase, hq.mem_usedNodes, hp.mem_usedNodes]
    refine and_congr_right fun hne => ⟨fun hb => h.only b hb.1 hne hb.2,fun hb => ?_⟩
    obtain ⟨h1,h2,-⟩ := h.keep b hb.1 hne hb.2
    exact ⟨h1,h2.symm ▸ hb.2⟩
  rw [hset]
  refine Finset.sum_congr rfl fun b hb => ?_
  obtain ⟨hne,hb⟩ := Finset.mem_erase.mp hb
  obtain ⟨h1,h2⟩ := hp.mem_usedNodes.mp hb
  rw [MemPool.size, (h.keep b h1 hne h2).2.1, MemPool.size]

private theorem usedBytes_granted (h : UsedKept p N q N' {a}) (hp : Inv p E N F ∅ ∅ L) (hq : Inv q E' N' F' ∅ ∅ L') (ha : a ∈ N')
    (hu : 2^31 ≤ q.sizeAndFlag a) (hnew : a ∈ N → p.sizeAndFlag a < 2^31) : usedBytes q N' = usedBytes p N + q.size a := by
  have hsum := h.sum_erase hp hq
  have hnot : a ∉ usedNodes p N := by
    rw [hp.mem_usedNodes]
    rintro ⟨h1,h2⟩
    have := hnew h1
    omega
  rw [Finset.erase_eq_of_notMem hnot] at hsum
  rw [usedBytes, usedBytes, ← hsum, Finset.sum_erase_add _ _ (hq.mem_usedNodes.mpr ⟨ha,hu⟩)]

private theorem usedBytes_freed (h : UsedKept p N q N' {a}) (hp : Inv p E N F ∅ ∅ L) (hq : Inv q E' N' F' ∅ ∅ L') (ha : a ∈ N)
    (hu : 2^31 ≤ p.sizeAndFlag a) (hgone : a ∈ N' → q.sizeAndFlag a < 2^31) : usedBytes q N' + p.size a = usedBytes p N := by
  have hsum := h.sum_erase hp hq
  have hnot : a ∉ usedNodes q N' := by
    rw [hq.mem_usedNodes]
    rintro ⟨h1,h2⟩
    have := hgone h1
    omega
  rw [Finset.erase_eq_of_notMem hnot] at hsum
  rw [usedBytes, usedBytes, hsum, Finset.sum_erase_add _ _ (hp.mem_usedNodes.mpr ⟨ha,hu⟩)]

private theorem usedBytes_resized (h : UsedKept p N q N' {a}) (hp : Inv p E N F ∅ ∅ L) (hq : Inv q E' N' F' ∅ ∅ L') (ha : a ∈ N)
    (hu : 2^31 ≤ p.sizeAndFlag a) (ha' : a ∈ N') (hu' : 2^31 ≤ q.sizeAndFlag a) :
    usedBytes q N' + p.size a = usedBytes p N + q.size a := by
  have hsum := h.sum_erase hp hq
  have h1 := Finset.sum_erase_add (usedNodes p N) p.size (hp.mem_usedNodes.mpr ⟨ha,hu⟩)
  have h2 := Finset.sum_erase_add (usedNodes q N') q.size (hq.mem_usedNodes.mpr ⟨ha',hu'⟩)
  rw [usedBytes, usedBytes, ← h1, ← h2, hsum]
  omega

-- The walk

/-- What a node adds to the total. -/
def usedSize (p : MemPool) (a : Nat) : Nat := if 2^31 ≤ p.sizeAndFlag a then p.size a else 0

/-- The bytes in use in one interval. -/
noncomputable def usedIn (p : MemPool) (N : Set Nat) (e : Extent) : Nat :=
  ∑ a ∈ (usedNodes p N).filter (fun a => e.first ≤ a ∧ a < e.last), p.size a

/-- The bytes that an area counts for: those in use, and its sentinel. -/
noncomputable def areaUse (p : MemPool) (N : Set Nat) (x : Area) : Nat := usedIn p N x.extent + 12

namespace Inv

private theorem usedIn_eq (h : Inv p E N F D U L) (he : e ∈ extents p E) : ∃ ns, Tiling.Path p.size e.first ns e.last ∧
    (∀ b ∈ ns, b ∈ N) ∧ usedIn p N e = (ns.map (usedSize p)).sum := by
  obtain ⟨ns,hpath,hmem,-⟩ := h.nodes.tiling.exists_path he
  have hN : ∀ b ∈ ns, b ∈ N := fun b hb => ((hmem b).mp hb).1
  have hnd := hpath.nodup fun b hb => by
    have := h.inside (hN b hb)
    omega
  refine ⟨ns,hpath,hN,?_⟩
  have hset : (usedNodes p N).filter (fun a => e.first ≤ a ∧ a < e.last) = ns.toFinset.filter fun a => 2^31 ≤ p.sizeAndFlag a := by
    ext a
    rw [Finset.mem_filter, Finset.mem_filter, h.mem_usedNodes, List.mem_toFinset, hmem]
    tauto
  rw [usedIn, hset, Finset.sum_filter, ← List.sum_toFinset _ hnd]
  rfl

/-- An interval holds no more used bytes than it has. -/
private theorem usedIn_le (h : Inv p E N F D U L) (he : e ∈ extents p E) : e.first + usedIn p N e ≤ e.last := by
  obtain ⟨ns,hpath,-,hsum⟩ := h.usedIn_eq he
  have hle : (ns.map (usedSize p)).sum ≤ (ns.map p.size).sum := by
    apply List.sum_le_sum
    intro b _
    rw [usedSize]
    split <;> omega
  have := hpath.sum_size
  omega

private theorem totalUsedFrom_path (h : Inv p E N F D U L) {t : Nat} : ∀ {ns : List Nat} {a : Nat} (fuel m : Nat), Tiling.Path p.size a ns t →
    (∀ b ∈ ns, b ∈ N) → t < a + fuel → m + (ns.map (usedSize p)).sum < 2^32 → ∃ fuel', fuel ≤ fuel' + (t - a) ∧
      totalUsedFrom p fuel a t m = totalUsedFrom p fuel' t t (m + (ns.map (usedSize p)).sum)
  | [], a, fuel, m, hp, _, _, _ => by
    obtain rfl : a = t := hp
    exact ⟨fuel,by omega,rfl⟩
  | n :: ns, a, fuel, m, hp, hN, hf, hlt => by
    obtain ⟨rfl,hp⟩ := hp
    have hn := hN a List.mem_cons_self
    have hb := h.inside hn
    have hle := hp.le
    obtain ⟨fuel,rfl⟩ : ∃ f, fuel = f + 1 := ⟨fuel - 1,by omega⟩
    rw [List.map_cons, List.sum_cons] at hlt ⊢
    have hadd : (if getUsedFlag (p.sizeAndFlag a) ≠ 0 then Word.add m (getSize (p.sizeAndFlag a)) else m) = m + usedSize p a := by
      have hu := h.used_zero_iff hn
      rw [usedSize] at hlt ⊢
      by_cases hc : p.sizeAndFlag a < 2^31
      · rw [if_neg (not_not.mpr (hu.mpr hc)), if_neg (by omega), Nat.add_zero]
      · rw [if_pos (fun h0 => hc (hu.mp h0)), if_pos (by omega)]
        rw [if_pos (by omega)] at hlt
        rw [Tlsf.getSize_eq]
        exact Word.add_eq (by rw [← MemPool.size]; omega)
    obtain ⟨fuel',h1,h2⟩ := h.totalUsedFrom_path (t := t) fuel (m + usedSize p a) hp
      (fun b hb => hN b (List.mem_cons_of_mem _ hb)) (by omega) (by omega)
    refine ⟨fuel',by omega,?_⟩
    rw [totalUsedFrom, if_neg (by omega), if_neg (by omega), hadd, h.nextNode_eq hn, h2, Nat.add_assoc]

private theorem totalUsedFrom_chain (h : Inv p E N F D U L) : ∀ {T : List Area} {s : Nat} (fuel m : Nat), SentinelChain p s T →
    (∀ x ∈ T, x ∈ E) → (T.map Area.size).sum < fuel → m + 12 + (T.map (areaUse p N)).sum < 2^32 →
      totalUsedFrom p fuel s s m = m + 12 + (T.map (areaUse p N)).sum
  | _, _, 0, _, _, _, hf, _ => absurd hf (Nat.not_lt_zero _)
  | [], s, fuel+1, m, hc, _, _, hlt => by
    have hadd : Word.add m OS_MEM_NODE_HEAD_SIZE = m + 12 := Word.add_eq (by simp only [OS_MEM_NODE_HEAD_SIZE]; omega)
    rw [totalUsedFrom, if_neg (not_not.mpr le_rfl), if_pos rfl, hc.last, if_pos rfl, hadd]
    rfl
  | x :: T, s, fuel+1, m, hc, hE, hf, hlt => by
    have hx := hE x List.mem_cons_self
    have hok := h.fixed.areas x hx
    have hs := hok.size_pos
    have hs4 := hok.size_mod
    rw [List.map_cons, List.sum_cons] at hf hlt ⊢
    obtain ⟨ns,hpath,hN,husum⟩ := h.usedIn_eq (area_mem_extents hx)
    have huse : areaUse p N x = (ns.map (usedSize p)).sum + 12 := by rw [areaUse, husum]
    rw [huse] at hlt ⊢
    have hadd : Word.add m OS_MEM_NODE_HEAD_SIZE = m + 12 := Word.add_eq (by simp only [OS_MEM_NODE_HEAD_SIZE]; omega)
    have hsen : x.sentinel = x.node + x.size - 12 := rfl
    obtain ⟨fuel',h1,h2⟩ := h.totalUsedFrom_path (t := x.sentinel) fuel (m + 12) hpath hN
      (show x.sentinel < x.node + fuel by omega) (by omega)
    have h1' : fuel ≤ fuel' + (x.sentinel - x.node) := h1
    rw [totalUsedFrom, if_neg (not_not.mpr le_rfl), if_pos rfl, hc.not_last hok, hadd]
    simp only [Bool.false_eq_true, if_false, hc.getSize_eq hok, hc.2.2.1, hok.endNode_eq]
    rw [show totalUsedFrom p fuel x.node x.sentinel (m + 12) = _ from h2, h.totalUsedFrom_chain fuel' _ hc.2.2.2
      (fun y hy => hE y (List.mem_cons_of_mem _ hy)) (by omega) (by omega)]
    omega

end Inv

/-- Sums over disjoint intervals are one sum. -/
private theorem sum_intervals (S : Finset Nat) (f : Nat → Nat) : ∀ {A : List Extent},
    A.Pairwise (fun e d => ∀ a, e.first ≤ a → a < e.last → d.first ≤ a → a < d.last → False) →
      (∀ a ∈ S, ∃ e ∈ A, e.first ≤ a ∧ a < e.last) →
        (A.map fun e => ∑ a ∈ S.filter (fun a => e.first ≤ a ∧ a < e.last), f a).sum = ∑ a ∈ S, f a
  | [], _, hS => by
    have : S = ∅ := Finset.eq_empty_of_forall_notMem fun a ha => by
      obtain ⟨e,he,-⟩ := hS a ha
      cases he
    rw [this]
    rfl
  | e :: A, hA, hS => by
    obtain ⟨h1,h2⟩ := List.pairwise_cons.mp hA
    rw [List.map_cons, List.sum_cons, ← Finset.sum_filter_add_sum_filter_not S (fun a => e.first ≤ a ∧ a < e.last) f]
    have ih := sum_intervals (S.filter fun a => ¬(e.first ≤ a ∧ a < e.last)) f h2 (by
      intro a ha
      obtain ⟨haS,hne⟩ := Finset.mem_filter.mp ha
      obtain ⟨d,hd,h3⟩ := hS a haS
      rcases List.mem_cons.mp hd with rfl | hd
      · exact absurd h3 hne
      · exact ⟨d,hd,h3⟩)
    rw [← ih]
    congr 1
    congr 1
    apply List.map_congr_left
    intro d hd
    rw [Finset.filter_filter]
    congr 1
    apply Finset.filter_congr
    intro a _
    refine ⟨fun h3 => ⟨fun h4 => h1 d hd a h4.1 h4.2 h3.1 h3.2,h3⟩,fun h3 => h3.2⟩

namespace Inv

private theorem extents_pairwise (h : Inv p E N F D U L) :
    (extents p E).Pairwise fun e d => ∀ a, e.first ≤ a → a < e.last → d.first ≤ a → a < d.last → False := by
  have hapart : ∀ e ∈ extents p E, ∀ d ∈ extents p E, e ≠ d →
      ∀ a, e.first ≤ a → a < e.last → d.first ≤ a → a < d.last → False := by
    intro e he d hd hne a h1 h2 h3 h4
    rcases h.nodes.tiling.extents e he d hd hne with h5 | h5 <;> omega
  have hnd : (extents p E).Nodup := by
    rw [extents, List.nodup_cons]
    refine ⟨?_,List.Nodup.map_on ?_ h.fixed.nodup⟩
    · intro hm
      obtain ⟨x,hx,he⟩ := List.mem_map.mp hm
      have h1 := h.nodes.tiling.prev_first _ (area_mem_extents hx)
      have h2 := (h.fixed.areas x hx).node_pos
      simp only [Area.extent, Extent.mk.injEq, Area.sentinel] at he
      have h3 := (h.fixed.areas x hx).size_pos
      have h4 := (h.fixed.areas x hx).size_mod
      omega
    · intro x hx y hy he
      by_contra hne
      have h1 := h.area_apart hx hy hne
      have h2 := (h.fixed.areas x hx).size_pos
      have h3 := (h.fixed.areas y hy).size_pos
      simp only [Area.extent, Extent.mk.injEq] at he
      omega
  exact List.Pairwise.imp_of_mem (fun he hd hne => hapart _ he _ hd hne) hnd

private theorem areaUse_sum (p : MemPool) (N : Set Nat) : ∀ E : List Area,
    (E.map (areaUse p N)).sum = (E.map fun x => usedIn p N x.extent).sum + 12*E.length
  | [] => rfl
  | x :: E => by
    rw [List.map_cons, List.sum_cons, List.map_cons, List.sum_cons, List.length_cons, areaUse_sum p N E, areaUse]
    omega

/-- The used nodes of the pool are those of its intervals. -/
private theorem usedBytes_eq (h : Inv p E N F D U L) :
    usedBytes p N + 12*E.length = usedIn p N ⟨osMemFirstNode p,endAddr p,0⟩ + (E.map (areaUse p N)).sum := by
  have hsum := sum_intervals (usedNodes p N) p.size h.extents_pairwise (by
    intro a ha
    obtain ⟨h1,-⟩ := h.mem_usedNodes.mp ha
    obtain ⟨e,he,h2,h3⟩ := h.nodes.tiling.home a h1
    have := h.inside h1
    exact ⟨e,he,h2,by omega⟩)
  rw [extents, List.map_cons, List.sum_cons, List.map_map] at hsum
  rw [usedBytes, ← hsum, areaUse_sum]
  simp only [usedIn, Function.comp_def]
  exact Nat.add_assoc _ _ _

/-- Heads, sentinels and used nodes do not exceed the address space. -/
private theorem usedBytes_lt (h : Inv p E N F D U L) : 960 + 12*(1 + E.length) + usedBytes p N < 2^32 := by
  have hlt := h.sum_lt
  have hge := h.fixed.total_ge
  simp only [sizeofPoolHead] at hge
  have h1 := h.usedIn_le pool_mem_extents
  simp only [Inv.first_eq, endAddr] at h1
  have hareas : ∀ T : List Area, (∀ x ∈ T, x ∈ E) → (T.map (areaUse p N)).sum ≤ (T.map Area.size).sum := by
    intro T hT
    apply List.sum_le_sum
    intro x hx
    have h2 := h.usedIn_le (area_mem_extents (hT x hx))
    have h3 := (h.fixed.areas x (hT x hx)).size_pos
    have h4 := (h.fixed.areas x (hT x hx)).size_mod
    rw [areaUse]
    simp only [Area.extent, Area.sentinel] at h2 ⊢
    omega
  have h2 := hareas E fun x hx => hx
  have h3 := h.usedBytes_eq
  simp only [Inv.first_eq, endAddr] at h3
  omega

/-- LOS_MemTotalUsedGet counts the used nodes and the sentinels. -/
private theorem totalUsedGet_eq (h : Inv p E N F D U L) : losMemTotalUsedGet p = 12*(1 + E.length) + usedBytes p N := by
  have hlt := h.sum_lt
  have hge := h.fixed.total_ge
  have htop := h.fixed.top
  simp only [sizeofPoolHead] at hge
  have hsum := h.usedBytes_eq
  have hbound := h.usedBytes_lt
  obtain ⟨ns,hpath,hN,husum⟩ := h.usedIn_eq pool_mem_extents
  rw [husum] at hsum
  obtain ⟨fuel',h1,h2⟩ := h.totalUsedFrom_path (t := endAddr p) walkFuel 0 hpath hN (by
    rw [walkFuel]
    simp only [Inv.first_eq, endAddr]
    omega) (by omega)
  have h3 := h.totalUsedFrom_chain fuel' (0 + (ns.map (usedSize p)).sum) h.fixed.chain (fun x hx => hx) (by
    rw [walkFuel] at h1
    simp only [Inv.first_eq, endAddr] at h1
    omega) (by omega)
  dsimp only at h2
  rw [losMemTotalUsedGet, h.endNode_eq, h2, h3]
  omega

end Inv

-- The counters

/-- The greatest of the values. -/
def peak (values : List Nat) : Nat := values.foldr max 0

@[simp] theorem peak_cons (v : Nat) (values : List Nat) : peak (v :: values) = max v (peak values) := rfl

/-- The usage is what the nodes and the sentinels take, and the water line is the greatest value it has had. -/
structure Accounted (p : MemPool) (E : List Area) (N : Set Nat) (values : List Nat) : Prop where
  curUsedSize : p.curUsedSize = 960 + 12*(1 + E.length) + usedBytes p N
  waterLine : p.waterLine = peak values
  le : p.curUsedSize ≤ p.waterLine

/-- Recording an area's sentinel, where an area is obtained. -/
private theorem countArea_eq (hle : p.curUsedSize ≤ p.waterLine) (hlt : p.curUsedSize + 12*x.toList.length < 2^32) :
    (countArea p x).curUsedSize = p.curUsedSize + 12*x.toList.length ∧
      (countArea p x).waterLine = max (countArea p x).curUsedSize p.waterLine := by
  cases x with
  | none => exact ⟨rfl,(Nat.max_eq_right hle).symm⟩
  | some x =>
    have hrec := recorded_waterUsedRecord p OS_MEM_NODE_HEAD_SIZE
    rw [Option.toList_some, List.length_singleton] at hlt ⊢
    refine ⟨hrec.curUsedSize.trans (Word.add_eq (by simp only [OS_MEM_NODE_HEAD_SIZE]; omega)),?_⟩
    rw [Nat.max_comm]
    exact hrec.waterLine

private theorem usedBytes_congr (hs : ∀ a ∈ N, q.sizeAndFlag a = p.sizeAndFlag a) : usedBytes q N = usedBytes p N := by
  classical
  have hset : usedNodes q N = usedNodes p N := by
    rw [usedNodes, usedNodes]
    refine Finset.filter_congr fun a _ => and_congr_right fun ha => ?_
    rw [hs a ha]
  rw [usedBytes, usedBytes, hset]
  refine Finset.sum_congr rfl fun a ha => ?_
  rw [usedNodes, Finset.mem_filter] at ha
  rw [MemPool.size, hs a ha.2.1, MemPool.size]

namespace Accounted
variable {values : List Nat}

theorem congr (hA : Accounted p E N values) (hs : ∀ a ∈ N, q.sizeAndFlag a = p.sizeAndFlag a)
    (hcur : q.curUsedSize = p.curUsedSize) (hwl : q.waterLine = p.waterLine) : Accounted q E N values := by
  refine ⟨?_,?_,?_⟩
  · rw [hcur, usedBytes_congr hs]
    exact hA.curUsedSize
  · rw [hwl]
    exact hA.waterLine
  · rw [hcur, hwl]
    exact hA.le

/-- A node handed out, after an area has been obtained for it where there was no other. -/
theorem granted (hA : Accounted p E N values) (hp : Inv p E N F ∅ ∅ L) (hq : Inv q (E ++ x.toList) N' F' ∅ ∅ L') (ha : a ∈ N')
    (hu : 2^31 ≤ q.sizeAndFlag a) (hnew : a ∈ N → p.sizeAndFlag a < 2^31) (hk : UsedKept p N q N' {a})
    (hr : Recorded (countArea p x) q (q.size a)) :
    Accounted q (E ++ x.toList) N' (q.curUsedSize :: (countArea p x).curUsedSize :: values) := by
  have hbytes := usedBytes_granted hk hp hq ha hu hnew
  have hlt := hq.usedBytes_lt
  have hcur := hA.curUsedSize
  rw [List.length_append] at hlt
  obtain ⟨h1,h2⟩ := countArea_eq (x := x) hA.le (by omega)
  have h3 : q.curUsedSize = (countArea p x).curUsedSize + q.size a := hr.curUsedSize.trans (Word.add_eq (by omega))
  have hwl := hA.waterLine
  refine ⟨?_,?_,?_⟩
  · rw [List.length_append]
    omega
  · rw [hr.waterLine, h2, hwl, peak_cons, peak_cons]
    omega
  · rw [hr.waterLine]
    omega

/-- A node released, with no area given back. -/
theorem freed (hA : Accounted p E N values) (hp : Inv p E N F ∅ ∅ L) (hq : Inv q E N' F' ∅ ∅ L') (ha : a ∈ N)
    (hu : 2^31 ≤ p.sizeAndFlag a) (hgone : a ∈ N' → q.sizeAndFlag a < 2^31) (hk : UsedKept p N q N' {a})
    (hcur : q.curUsedSize = Word.sub p.curUsedSize (p.size a)) (hwl : q.waterLine = p.waterLine) :
    Accounted q E N' (q.curUsedSize :: values) := by
  have hbytes := usedBytes_freed hk hp hq ha hu hgone
  have hlt := hp.usedBytes_lt
  have h1 := hA.curUsedSize
  have h2 := hA.le
  have h3 := hA.waterLine
  rw [Word.sub_eq (by omega)] at hcur
  refine ⟨by omega,?_,by omega⟩
  rw [hwl, h3, peak_cons]
  omega

/-- A node resized in place that has not grown. -/
theorem resized (hA : Accounted p E N values) (hp : Inv p E N F ∅ ∅ L) (hq : Inv q E N' F' ∅ ∅ L') (ha : a ∈ N)
    (hu : 2^31 ≤ p.sizeAndFlag a) (ha' : a ∈ N') (hu' : 2^31 ≤ q.sizeAndFlag a) (hk : UsedKept p N q N' {a})
    (hcur : (q.size a ≤ p.size a ∧ q.curUsedSize = Word.sub p.curUsedSize (p.size a - q.size a)) ∨
      (q.size a = p.size a ∧ q.curUsedSize = p.curUsedSize)) (hwl : q.waterLine = p.waterLine) :
    Accounted q E N' (q.curUsedSize :: values) := by
  have hbytes := usedBytes_resized hk hp hq ha hu ha' hu'
  have h1 := hA.curUsedSize
  have h2 := hA.le
  have h3 := hA.waterLine
  have h4 : q.curUsedSize + p.size a = p.curUsedSize + q.size a := by
    rcases hcur with ⟨hle,hc⟩ | ⟨hs,hc⟩
    · rw [hc, Word.sub_eq (by omega)]
      omega
    · omega
  have h5 : q.curUsedSize ≤ p.curUsedSize := by
    rcases hcur with ⟨hle,-⟩ | ⟨hs,-⟩ <;> omega
  refine ⟨by omega,?_,by omega⟩
  rw [hwl, h3, peak_cons]
  omega

/-- Values that are no greater than the water line do not count. -/
theorem cons (hA : Accounted p E N values) {v : Nat} (hv : v ≤ p.waterLine) : Accounted p E N (v :: values) := by
  refine ⟨hA.curUsedSize,?_,hA.le⟩
  have := hA.waterLine
  rw [peak_cons]
  omega

end Accounted

/-- A call that gives no area back and makes no block grow in place keeps the count. -/
theorem Change.accounted {values : List Nat} {rel : Option (MemPool × Nat)} {g : Prop} (hc : Change p q E N N' x rel g)
    (hA : Accounted p E N values) (hp : Inv p E N F ∅ ∅ L) (hq : Inv q (E ++ x.toList) N' F' ∅ ∅ L') (hg : ¬g)
    (hback : (rel.bind fun r => handedBack r.1 r.2) = none) : Accounted q (E ++ x.toList) N'
      (q.curUsedSize :: (rel.map fun r => r.1.curUsedSize).toList ++ (countArea p x).curUsedSize :: values) := by
  have hcons := hA.cons hA.le
  cases hc with
  | kept nodes flags curUsedSize waterLine =>
    subst nodes
    rw [Option.toList_none, List.append_nil, curUsedSize]
    exact ((hcons.cons hA.le).congr flags curUsedSize waterLine)
  | granted mem used new kept recorded => exact hA.granted hp hq mem used new kept recorded
  | freed mem used freed =>
    rw [Option.toList_none, List.append_nil] at hq ⊢
    exact (hcons.cons hA.le).freed hp hq mem used freed.gone freed.used freed.curUsedSize freed.waterLine
  | resized mem used mem' used' kept shrunk =>
    rw [Option.toList_none, List.append_nil] at hq ⊢
    obtain ⟨h1,h2⟩ := shrunk hg
    exact hcons.resized hp hq mem used mem' used' kept h2 h1
  | @moved v _ F₁ F₂ L₂ a c k _ mem used moved =>
    obtain ⟨N₁,F₃,L₃,hC,hk⟩ := moved.copied
    have hplain := hC.plain
    have hsz : v.size a = p.size a := congrArg (· % 2^29) hC.kept
    have hv := hA.granted hp hC.inv hC.mem (by rw [hplain]; omega) hC.new hC.used hC.recorded
    exact hv.freed hC.inv hq hC.old (by rw [hC.kept]; exact used) moved.gone hk (by rw [hsz]; exact moved.curUsedSize)
      moved.waterLine

-- Runs

/-- The address lies in the area. -/
def Area.Has (x : Area) (a : Nat) : Prop := x.node ≤ a ∧ a < x.node + x.size

/-- Another block than the one at ptr lives in the area. -/
def Arena.Shared (h : Arena) (ptr : Nat) (x : Area) : Prop := ∃ b ∈ h.live, b.ptr ≠ ptr ∧ x.Has b.ptr

/-- The step does not make a block grow in place, and it does not give up the only block of an area, unless a
block moves to a free node of the same area. -/
def Arena.Counted (h : Arena) : Event → Prop
  | .call (.free ptr) _ => ∀ x ∈ h.areas, x.Has ptr → h.Shared ptr x
  | .call (.realloc ptr size) pages =>
    let p := { h.pool with pages := pages }
    ¬(Call.realloc ptr size).GrowsInPlace p ∧ ∀ s, reallocUse size = some s → Moves p (blockNode p ptr) (allocSizeOf s) →
      ¬NoRoom p (allocSizeOf s) → ∀ x ∈ h.areas, x.Has ptr → h.Shared ptr x ∨ x.Has (osMemFreeNodeGet p (allocSizeOf s)).2
  | _ => True

namespace Sound

/-- A block's pointer lies in the area that its node lies in. -/
private theorem has_iff (hS : Sound h N F L own) {x : Area} (hx : x ∈ h.areas) {b : Block} (hb : b ∈ h.live) :
    x.Has b.ptr ↔ x.node ≤ own b.ptr ∧ own b.ptr < x.sentinel := by
  obtain ⟨h1,h2⟩ := hS.held.owns b.ptr (ptr_mem hb)
  have hroom := hS.room b hb
  have hle := h2.le
  have hbd := hS.held.inv.inside h1
  have hok := hS.held.inv.fixed.areas x hx
  have hs := hok.size_pos
  have hs4 := hok.size_mod
  have hclear := hS.held.inv.nodes.tiling.clear h1 (area_mem_extents hx)
  simp only [Area.extent] at hclear
  simp only [Area.Has, Area.sentinel] at hclear ⊢
  constructor <;> rintro ⟨h3,h4⟩ <;> rcases hclear with h5 | h5 | h5 <;> omega

/-- Where a block shares its area with another one, releasing it gives no area back. -/
private theorem free_returned (hS : Sound h N F L own) {b : Block} (hb : b ∈ h.live)
    (hc : ∀ x ∈ h.areas, x.Has b.ptr → h.Shared b.ptr x) : (Call.free b.ptr).returned h.pool = none := by
  obtain ⟨ha,ho⟩ := hS.held.owns b.ptr (ptr_mem hb)
  rw [Option.eq_none_iff_forall_ne_some]
  intro n hn
  have hback : handedBack h.pool (own b.ptr) = some n := by
    rw [← (hS.blockNode_eq (ptr_mem hb)).2]
    exact hn
  obtain ⟨x,hx,h1,h2,halone⟩ := hS.held.inv.handedBack_alone ha ho.used hback
  obtain ⟨d,hd,hne,hhas⟩ := hc x hx ((hS.has_iff hx hb).mpr ⟨h1,h2⟩)
  obtain ⟨h3,h4⟩ := (hS.has_iff hx hd).mp hhas
  obtain ⟨h5,h6⟩ := hS.held.owns d.ptr (ptr_mem hd)
  exact hS.own_ne (ptr_mem hb) hd hne (halone _ h5 h6.used h3 h4)

/-- So it is where the block moves, or where it moves within its area. -/
private theorem copied_returned {x : Option Area} (hS : Sound h N F L own) {b : Block} (hb : b ∈ h.live)
    (hC : Copied h.pool v x h.areas N F N' F' L' (own b.ptr) c k) (hx : ∀ y, x = some y → y.Fresh h.pool h.areas)
    (hc : ∀ x ∈ h.areas, x.Has b.ptr → h.Shared b.ptr x ∨ x.Has (osMemFreeNodeGet h.pool k).2) :
    handedBack v (own b.ptr) = none := by
  obtain ⟨ha,ho⟩ := hS.held.owns b.ptr (ptr_mem hb)
  rw [Option.eq_none_iff_forall_ne_some]
  intro n hn
  obtain ⟨y,hy,h1,h2,halone⟩ := hC.inv.handedBack_alone hC.old (by rw [hC.kept]; exact ho.used) hn
  have hbd := hS.held.inv.inside ha
  have hsen : y.sentinel = y.node + y.size - 12 := rfl
  have hyE : y ∈ h.areas := by
    rcases List.mem_append.mp hy with hy | hy
    · exact hy
    · have := hS.held.inv.fresh_node (hx y (Option.mem_toList.mp hy)) ha
      omega
  have hplain := hC.plain
  rcases hc y hyE ((hS.has_iff hyE hb).mpr ⟨h1,h2⟩) with ⟨d,hd,hne,hhas⟩ | hhas
  · obtain ⟨h3,h4⟩ := (hS.has_iff hyE hd).mp hhas
    obtain ⟨h5,h6⟩ := hS.held.owns d.ptr (ptr_mem hd)
    obtain ⟨h7,h8,-⟩ := hC.used.keep _ h5 (hS.held.own_ne (ptr_mem hd) hC.new) h6.used
    exact hS.own_ne (ptr_mem hb) hd hne (halone _ h7 (by rw [h8]; exact h6.used) h3 h4)
  · -- the block's new node is the one that the search finds, in the same area
    have hpos := (hS.held.inv.fixed.areas y hyE).node_pos
    obtain rfl := hC.found (by
      have := hhas.1
      omega)
    have hclear := hC.inv.nodes.tiling.clear hC.mem (area_mem_extents hy)
    have hbc := hC.inv.inside hC.mem
    simp only [Area.extent] at hclear
    obtain ⟨h3,h4⟩ := hhas
    refine hC.ne (halone _ hC.mem (by rw [hplain]; omega) h3 ?_)
    rcases hclear with h5 | h5 | h5 <;> omega

private theorem realloc_returned (hS : Sound h N F L own) {b : Block} (hb : b ∈ h.live) {size : Nat} (hsz : size < 2^32)
    (hx : ∀ x, (Call.realloc b.ptr size).grown h.pool = some x → x.Fresh h.pool h.areas)
    (hfit : ∀ r, (Call.realloc b.ptr size).asks h.pool = some r → r < 2^29 ∨ ∀ a ∈ F, h.pool.size a < hugeBound r)
    (hret : h.Returnable h.pool (.realloc b.ptr size))
    (hc : ∀ s, reallocUse size = some s → Moves h.pool (blockNode h.pool b.ptr) (allocSizeOf s) →
      ¬NoRoom h.pool (allocSizeOf s) → ∀ x ∈ h.areas, x.Has b.ptr →
        h.Shared b.ptr x ∨ x.Has (osMemFreeNodeGet h.pool (allocSizeOf s)).2) :
    (Call.realloc b.ptr size).returned h.pool = none := by
  have hmem := ptr_mem hb
  rcases he : losMemRealloc (h.largeNodeFree h.pool (.realloc b.ptr size)) h.pool b.ptr size with ⟨q,r⟩
  have hspec := hS.realloc_spec hmem hsz hx hfit hret he
  rw [Call.grown, hS.asks_realloc hmem] at hx
  rw [Call.returned, hS.released_realloc hmem]
  rcases hspec with ⟨hs,-⟩ | ⟨s,hs,-,⟨hm,-⟩ | ⟨-,hno,-⟩ | ⟨hm,hroom,-,c,N',F',L',-,hM⟩⟩
  · rw [hs]
    rfl
  · simp [hs, hm]
  · simp [hs, hno]
  · obtain ⟨N₁,F₁,L₁,hC,-⟩ := hM.copied
    have hask : (some (allocSizeOf s)).filter (fun k => decide (Moves h.pool (own b.ptr) k)) = some (allocSizeOf s) := by
      simp [hm]
    rw [hs, Option.map_some, hask] at hx
    have hback := hS.copied_returned hb hC hx
      (hc s hs (by rw [(hS.blockNode_eq hmem).2]; exact hm) hroom)
    simp [hs, hm, hroom, hback]

/-- A counted call gives no area back. -/
private theorem returned_none (hS : Sound h N F L own) {c : Call} {pages : List Nat} (hp : h.Pre (.call c pages))
    (hf : h.Fits (.call c pages)) (hc : h.Counted (.call c pages)) : c.returned { h.pool with pages := pages } = none := by
  obtain ⟨hx,hfit⟩ := hS.within hp hf
  cases c with
  | alloc | allocAlign | store => rfl
  | free ptr =>
    obtain ⟨b,hb,rfl⟩ := hp.1
    exact (hS.setPages pages).free_returned hb hc
  | realloc ptr size =>
    obtain ⟨rfl | ⟨b,hb,rfl⟩,hsz⟩ := hp.1
    · rfl
    · exact (hS.setPages pages).realloc_returned hb hsz hx hfit hf.2.2 hc.2

end Sound

-- The law

/-- The usage is the pool head with what LOS_MemTotalUsedGet counts, and the water line its greatest value so far. -/
structure UsageLaw (h : Arena) : Prop where
  curUsedSize : h.pool.curUsedSize = sizeofPoolHead + losMemTotalUsedGet h.pool
  waterLine : h.pool.waterLine = peak h.values

/-- What every counted step keeps. -/
def Counts (h : Arena) : Prop := ∃ N F L own, Sound h N F L own ∧ Accounted h.pool h.areas N h.values

private theorem Counts.usageLaw (hC : Counts h) : UsageLaw h := by
  obtain ⟨N,F,L,own,hS,hA⟩ := hC
  refine ⟨?_,hA.waterLine⟩
  rw [hA.curUsedSize, hS.held.inv.totalUsedGet_eq, sizeofPoolHead, Nat.add_assoc]

theorem Counts.init (hi : (arenaSystem PoolBelow).init h) : Counts h := by
  obtain ⟨F,L,hc,hareas,hvalues,hS⟩ := init_sound hi
  have hused : usedNodes h.pool {h.pool.pool + 960} = ∅ := by
    refine Finset.eq_empty_of_forall_notMem fun a ha => ?_
    obtain ⟨ha,hu⟩ := hS.held.inv.mem_usedNodes.mp ha
    obtain rfl : a = h.pool.pool + 960 := ha
    have hlt := hS.held.inv.fixed.total_le
    have := hc.free
    omega
  refine ⟨_,F,L,id,hS,?_⟩
  have hzero : usedBytes h.pool {h.pool.pool + 960} = 0 := by
    rw [usedBytes, hused]
    rfl
  rw [hvalues]
  refine ⟨?_,?_,?_⟩
  · rw [hc.curUsedSize, hareas, hzero]
    rfl
  · rw [hc.waterLine, hc.curUsedSize]
    rfl
  · rw [hc.waterLine, hc.curUsedSize]

theorem Counts.run (hC : Counts h) {e : Event} (hp : h.Pre e) (hf : h.Fits e) (hc : h.Counted e) : Counts (h.run e) := by
  obtain ⟨N,F,L,own,hS,hA⟩ := hC
  cases e with
  | call c pages =>
    obtain ⟨N',F',L',own',hS',hch⟩ := hS.callWithin hp hf
    have hret := hS.returned_none hp hf hc
    have hback : h.givenBack { h.pool with pages := pages } c = none := by rw [Arena.givenBack, hret, Option.filter_none]
    have hgrows : ¬c.GrowsInPlace { h.pool with pages := pages } := by
      cases c with
      | realloc ptr size => exact hc.1
      | _ => exact id
    refine ⟨N',F',L',own',hS',?_⟩
    rw [Arena.run, Arena.call_areas, Arena.call_values, hback, remaining_none]
    have hI := hS'.held.inv
    rw [Arena.run, Arena.call_areas, hback, remaining_none] at hI
    exact hch.accounted (hA.congr (fun _ _ => rfl) rfl rfl) (hS.held.inv.setPages pages) hI hgrows hret
  | foreign addr value =>
    have hS' := hS.foreign hp
    refine ⟨N,F,L,own,hS',hA.congr (fun a ha => ?_) rfl rfl⟩
    obtain ⟨e,he,h1,h2⟩ := hS.held.inv.nodes.tiling.home a ha
    have h3 := hS.outside hp e he
    have h4 := hS.held.inv.inside ha
    rw [Arena.run, MemPool.sizeAndFlag, MemPool.mem_setWord, if_neg (by omega), MemPool.sizeAndFlag]
  | expandEnable => exact ⟨N,F,L,own,hS.expandEnable,hA.congr (fun _ _ => rfl) rfl rfl⟩

/-- In every run of a pool below 2^29 bytes whose calls fit and are counted, the usage is what the walk counts. -/
theorem usageLaw_of_reachable (h : Arena)
    (hr : Run.Reachable (arenaSystem PoolBelow) (fun h e => h.Fits e ∧ h.Counted e) h) : UsageLaw h := by
  refine Counts.usageLaw (hr.invariant (I := Counts) (fun _ => Counts.init) ?_)
  intro h e hC hp hf
  exact hC.run hp hf.1 hf.2

/-- The usage after one allocation. -/
theorem usageLaw_plain : UsageLaw plainArena :=
  usageLaw_of_reachable plainArena (plainArena_reachable (by norm_num [PoolBelow]) fun hf => ⟨hf,trivial⟩)

/-- A block that grows in place is counted with the flag bit of its node. -/
theorem usageLaw_fails_inPlace :
    ¬∀ h, Run.Reachable (arenaSystem fun _ => True) (fun _ _ => True) h → UsageLaw h := by
  intro hall
  have h1 : Run.Reachable (arenaSystem fun _ => True) (fun _ _ => True) plainArena :=
    plainArena_reachable trivial fun _ => trivial
  have hlive : plainArena.live = [⟨0x13cc,100,4⟩] := by decide +kernel
  have hg : (Call.realloc 0x13cc 200).grown { plainArena.pool with pages := [] } = none := by decide +kernel
  have h2 := h1.call (.call (.realloc 0x13cc 200) []) ⟨⟨.inr ⟨_,by rw [hlive]; exact List.mem_cons_self,rfl⟩,by norm_num⟩,
    fun x hx => by cases hg.symm.trans hx⟩ trivial
  have hcur : (plainArena.run (.call (.realloc 0x13cc 200) [])).pool.curUsedSize = 2147484832 := by decide +kernel
  have hused : losMemTotalUsedGet (plainArena.run (.call (.realloc 0x13cc 200) [])).pool = 224 := by decide +kernel
  have hlaw := (hall _ h2).curUsedSize
  rw [hcur, hused] at hlaw
  norm_num [sizeofPoolHead] at hlaw

end LiteOsKernel.Mem.Tlsf
