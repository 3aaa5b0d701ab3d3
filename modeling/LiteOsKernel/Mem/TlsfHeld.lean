import LiteOsKernel.Mem.TlsfClients

/-! The pointers that clients hold, each in a node of its own, through every call. -/
namespace LiteOsKernel.Mem.Tlsf
open LiteOsKernel Links Lib

variable {p p' : MemPool} {E E' : List Area} {N N' F F' X : Set Nat} {L L' : Nat → List Nat} {a b c k q r : Nat}
  {x : Option Area} {own : Nat → Nat} {live live' : List Nat}

/-- Each pointer in live is owned by a node of its own. -/
structure Held (p : MemPool) (E : List Area) (N F : Set Nat) (L : Nat → List Nat) (own : Nat → Nat)
    (live : List Nat) : Prop where
  inv : Inv p E N F ∅ ∅ L
  owns : ∀ q ∈ live, own q ∈ N ∧ Owns p (own q) q
  inj : ∀ q ∈ live, ∀ q' ∈ live, own q = own q' → q = q'

namespace Held

theorem mono (h : Held p E N F L own live) (hsub : ∀ q ∈ live', q ∈ live) : Held p E N F L own live' :=
  ⟨h.inv,fun q hq => h.owns q (hsub q hq),fun q hq q' hq' => h.inj q (hsub q hq) q' (hsub q' hq')⟩

/-- A pointer's node is apart from a free one. -/
theorem own_ne (h : Held p E N F L own live) (hq : q ∈ live) (ha : a ∈ N → p.sizeAndFlag a < 2^31) : own q ≠ a := by
  rintro rfl
  have h1 := (h.owns q hq).2.used
  have h2 := ha (h.owns q hq).1
  omega

/-- A call that gives up the nodes in X and hands out the pointer q of the node a, which no other
pointer has, leaves the remaining pointers with their owners. -/
theorem handOut (h : Held p E N F L own live) (h' : Inv p' E' N' F' ∅ ∅ L') (hk : UsedKept p N p' N' X) (ha : a ∈ N')
    (ho : Owns p' a q) (hne : ∀ c ∈ live, own c ∉ X → own c ≠ a)
    (hsub : ∀ c ∈ live', c = q ∨ (c ∈ live ∧ own c ∉ X)) : Held p' E' N' F' L' (Function.update own q a) live' := by
  refine ⟨h',?_,?_⟩
  · intro c hc
    rw [Function.update_apply]
    split
    case isTrue he => exact he ▸ ⟨ha,ho⟩
    case isFalse he =>
      obtain ⟨h1,h2⟩ := (hsub c hc).resolve_left he
      exact (h.owns c h1).2.kept (h.owns c h1).1 h2 hk
  · intro c hc d hd he
    rw [Function.update_apply, Function.update_apply] at he
    by_cases hcq : c = q <;> by_cases hdq : d = q
    · rw [hcq, hdq]
    · rw [if_pos hcq, if_neg hdq] at he
      obtain ⟨h1,h2⟩ := (hsub d hd).resolve_left hdq
      exact absurd he.symm (hne d h1 h2)
    · rw [if_neg hcq, if_pos hdq] at he
      obtain ⟨h1,h2⟩ := (hsub c hc).resolve_left hcq
      exact absurd he (hne c h1 h2)
    · rw [if_neg hcq, if_neg hdq] at he
      exact h.inj c ((hsub c hc).resolve_left hcq).1 d ((hsub d hd).resolve_left hdq).1 he

theorem grant (h : Held p E N F L own live) (hg : Granted p p' x E N F N' F' L' a r q) :
    Held p' (E ++ x.toList) N' F' L' (Function.update own q a) (q :: live) := by
  have hne : ∀ c ∈ live, own c ≠ a := fun c hc => h.own_ne hc hg.new
  refine h.handOut hg.inv hg.used hg.mem hg.owns (fun c hc _ => hne c hc) ?_
  intro c hc
  rcases List.mem_cons.mp hc with h1 | h1
  · exact .inl h1
  · exact .inr ⟨h1,hne c h1⟩

private theorem mem_filter_ne (hc : c ∈ live.filter (· ≠ q)) : c ∈ live ∧ c ≠ q := by
  rwa [List.mem_filter, decide_eq_true_eq] at hc

theorem release (h : Held p E N F L own live) (hq : q ∈ live) (hf : Freed p p' E' N N' F' L' (own q)) :
    Held p' E' N' F' L' own (live.filter (· ≠ q)) := by
  refine ⟨hf.inv,?_,?_⟩
  · intro c hc
    obtain ⟨h1,h2⟩ := mem_filter_ne hc
    exact (h.owns c h1).2.kept (h.owns c h1).1 (fun he => h2 (h.inj c h1 q hq he)) hf.used
  · intro c hc d hd
    exact h.inj c (mem_filter_ne hc).1 d (mem_filter_ne hd).1

theorem resize (h : Held p E N F L own live) (hq : q ∈ live) (hr : Resized p p' E N N' F' L' (own q) k) :
    Held p' E N' F' L' (Function.update own (own q + 12) (own q)) ((own q + 12) :: live.filter (· ≠ q)) := by
  refine h.handOut hr.inv hr.used hr.mem (.inl ⟨rfl,hr.plain⟩) (fun c _ hc => hc) ?_
  intro c hc
  rcases List.mem_cons.mp hc with h1 | h1
  · exact .inl h1
  · obtain ⟨h2,h3⟩ := mem_filter_ne h1
    exact .inr ⟨h2,fun he => h3 (h.inj c h2 q hq he)⟩

theorem move {v : MemPool} (h : Held p E N F L own live) (hq : q ∈ live)
    (hm : Moved p v p' x E N F N' F' L' (own q) c k) :
    Held p' (remaining (E ++ x.toList) (handedBack v (own q))) N' F' L' (Function.update own (c + 12) c) ((c + 12) :: live.filter (· ≠ q)) := by
  refine h.handOut hm.inv hm.used hm.mem (.inl ⟨rfl,hm.plain⟩) (fun d hd _ => h.own_ne hd hm.new) ?_
  intro d hd
  rcases List.mem_cons.mp hd with h1 | h1
  · exact .inl h1
  · obtain ⟨h2,h3⟩ := mem_filter_ne h1
    refine .inr ⟨h2,?_⟩
    rintro (he | he)
    · exact h3 (h.inj d h2 q hq he)
    · exact h.own_ne h2 hm.new he

/-- A client may write any word of its block from its pointer on. -/
theorem store (h : Held p E N F L own live) (hq : q ∈ live) {y v : Nat} (hl : q ≤ y) (hr : y < own q + p.size (own q)) :
    Held (p.setWord y v) E N F L own live ∧ UsedKept p N (p.setWord y v) N {own q} ∧
      HeadsKept p (p.setWord y v) N := by
  obtain ⟨ha,ho⟩ := h.owns q hq
  have hle := ho.le
  obtain ⟨h₁,hk₁,hp₁⟩ := h.inv.setPayload (v := v) ha ho.used (by omega) hr
  have hsz : (p.setWord y v).size (own q) = p.size (own q) := congrArg (· % 2^29) (hk₁.sizeAndFlag _ ha)
  have hkept : UsedKept p N (p.setWord y v) N {own q} :=
    ⟨fun b hb hba _ => ⟨hb,hk₁.sizeAndFlag b hb,hp₁ b hb hba⟩,fun b hb _ hub => ⟨hb,hk₁.sizeAndFlag b hb ▸ hub⟩⟩
  refine ⟨⟨h₁,?_,h.inj⟩,hkept,hk₁⟩
  intro c hc
  by_cases hcq : c = q
  · subst hcq
    refine ⟨ha,?_⟩
    rcases ho with ⟨h1,h2⟩ | ⟨g,h1,h2,h3,h4,h5,h6⟩
    · exact .inl ⟨h1,h2.congr (hk₁.sizeAndFlag _ ha)⟩
    · exact .inr ⟨g,h1,h2,by omega,h4,by rw [hk₁.sizeAndFlag _ ha, hsz, h5],
        by rw [MemPool.mem_setWord, if_neg (by omega), h6]⟩
  · obtain ⟨hcN,hco⟩ := h.owns c hc
    exact hco.kept hcN (fun he => hcq (h.inj c hc q hq he)) hkept

end Held

-- Reallocation

/-- The size that LOS_MemRealloc goes on with, unless it refuses the request. -/
def reallocUse (size : Nat) : Option Nat :=
  if getUsedFlag size ≠ 0 ∨ getAlignedFlag size ≠ 0 then none else some (minSize size)

theorem reallocUse_spec {size s : Nat} (h : size < 2^32) (hs : reallocUse size = some s) : 8 ≤ s ∧ s < 2^30 ∧ size ≤ s := by
  rw [reallocUse] at hs
  split at hs
  case isTrue => cases hs
  case isFalse hf =>
    obtain rfl := Option.some.inj hs
    have hb := minSize_bounds h
    have h30 := size_ok h hf
    refine ⟨hb.1,?_,hb.2.2⟩
    rw [minSize]
    split <;> simp only [OS_MEM_MIN_ALLOC_SIZE] at * <;> omega

theorem losMemRealloc_eq (h : Inv p E N F ∅ ∅ L) (ha : a ∈ N) (ho : Owns p a q) {size : Nat} (hsz : size < 2^32)
    (lf : Nat → Bool) : losMemRealloc lf p q size =
      match reallocUse size with
      | none => (p, 0)
      | some s => osMemRealloc lf p (a + 12) a s := by
  have hb := h.inside ha
  have hm := minSize_bounds hsz
  have hle := ho.le
  have hnode : Word.sub (a + 12) OS_MEM_NODE_HEAD_SIZE = a := by
    rw [OS_MEM_NODE_HEAD_SIZE, Word.sub_eq (by omega)]
    omega
  rw [losMemRealloc, reallocUse]
  by_cases hf : getUsedFlag size ≠ 0 ∨ getAlignedFlag size ≠ 0
  · rw [if_pos hf, if_pos hf]
  rw [if_neg hf, if_neg hf]
  change (if q = 0 then losMemAlloc p (minSize size)
    else if minSize size = 0 then ((losMemFree lf p q).1, 0)
    else if osGetRealPtr p q = 0 then (p, 0)
    else if osMemCheckUsedNode p (Word.sub (osGetRealPtr p q) OS_MEM_NODE_HEAD_SIZE) ≠ LOS_OK then (p, 0)
    else osMemRealloc lf p (osGetRealPtr p q) (Word.sub (osGetRealPtr p q) OS_MEM_NODE_HEAD_SIZE) (minSize size)) = _
  rw [getRealPtr_eq h ha ho, hnode, if_neg (by omega), if_neg (by omega), if_neg (by omega),
    if_neg (not_not.mpr (h.checkUsedNode ha ho.used))]

theorem losMemRealloc_null (p : MemPool) (size : Nat) (lf : Nat → Bool) : losMemRealloc lf p 0 size =
    match reallocUse size with
    | none => (p, 0)
    | some s => losMemAlloc p s := by
  rw [losMemRealloc, reallocUse]
  by_cases hf : getUsedFlag size ≠ 0 ∨ getAlignedFlag size ≠ 0
  · rw [if_pos hf, if_pos hf]
  · rw [if_neg hf, if_neg hf]
    rfl

-- A pool without expansion

/-- A pool that is not expandable, with the client pointers in live. -/
def Good (p : MemPool) (live : List Nat) : Prop :=
  (∃ (N F : Set Nat) (L : Nat → List Nat) (own : Nat → Nat), Held p [] N F L own live) ∧
    p.attr &&& OS_MEM_POOL_EXPAND_ENABLE = 0

namespace Good

theorem poolInvariant (h : Good p live) : PoolInvariant p := by
  obtain ⟨⟨N,F,L,own,h⟩,-⟩ := h
  exact h.inv.poolInvariant

theorem mono (h : Good p live) (hsub : ∀ q ∈ live', q ∈ live) : Good p live' := by
  obtain ⟨⟨N,F,L,own,h⟩,hattr⟩ := h
  exact ⟨⟨N,F,L,own,h.mono hsub⟩,hattr⟩

private theorem grownArea_none (h : p.attr &&& OS_MEM_POOL_EXPAND_ENABLE = 0) (r : Nat) : grownArea p r = none :=
  if_pos (.inr h)

theorem setPages (h : Good p live) (pages : List Nat) : Good { p with pages := pages } live := by
  obtain ⟨⟨N,F,L,own,h⟩,hattr⟩ := h
  exact ⟨⟨N,F,L,own,h.inv.setPages pages,h.owns,h.inj⟩,hattr⟩

theorem losMemAlloc (h : Good p live) {size : Nat} (hsz : size < 2^32) (he : Tlsf.losMemAlloc p size = (p', r)) :
    Good p' (r :: live) ∨ (r = 0 ∧ Good p' live) := by
  obtain ⟨⟨N,F,L,own,hH⟩,hattr⟩ := id h
  rcases hs : allocUse size with _ | s
  · rw [losMemAlloc_eq, hs] at he
    obtain ⟨rfl,rfl⟩ := Prod.mk.inj he
    exact .inr ⟨rfl,h⟩
  · have hn := grownArea_none hattr (allocSizeOf s)
    rcases hH.inv.losMemAlloc hsz hs (by simp [hn]) he with ⟨-,rfl,pages,rfl⟩ | ⟨-,a,N',F',L',rfl,hg⟩
    · exact .inr ⟨rfl,h.setPages pages⟩
    · have hh := hH.grant hg
      rw [hn, Option.toList_none, List.append_nil] at hh
      exact .inl ⟨⟨_,_,_,_,hh⟩,hg.attr ▸ hattr⟩

/-- For every boundary but 2^29 the gap word of an aligned block lies in its node. -/
theorem losMemAllocAlign (h : Good p live) {size boundary : Nat} (hsz : size < 2^32) (hbd : boundary < 2^32)
    (h29 : boundary ≠ 2^29) (he : Tlsf.losMemAllocAlign p size boundary = (p', r)) :
    Good p' (r :: live) ∨ (r = 0 ∧ Good p' live) := by
  obtain ⟨⟨N,F,L,own,hH⟩,hattr⟩ := id h
  rcases hs : alignUse size boundary with _ | s
  · rw [losMemAllocAlign_eq, hs] at he
    obtain ⟨rfl,rfl⟩ := Prod.mk.inj he
    exact .inr ⟨rfl,h⟩
  · have hn := grownArea_none hattr (allocSizeOf s)
    rcases hH.inv.losMemAllocAlign hsz hbd hs (by simp [hn]) (.inl h29) he with
      ⟨-,rfl,pages,rfl⟩ | ⟨-,a,N',F',L',-,-,hg⟩
    · exact .inr ⟨rfl,h.setPages pages⟩
    · have hh := hH.grant hg
      rw [hn, Option.toList_none, List.append_nil] at hh
      exact .inl ⟨⟨_,_,_,_,hh⟩,hg.attr ▸ hattr⟩

theorem losMemFree (h : Good p live) (hq : q ∈ live) (lf : Nat → Bool) :
    ∃ p', Tlsf.losMemFree lf p q = (p', LOS_OK) ∧ Good p' (live.filter (· ≠ q)) := by
  obtain ⟨⟨N,F,L,own,hH⟩,hattr⟩ := h
  obtain ⟨ha,ho⟩ := hH.owns q hq
  obtain ⟨p',N',F',L',hf,hF⟩ := hH.inv.osMemFree ha ho.used (show ∀ x ∈ ([] : List Area), _ → lf x.node = true by simp)
  have hh := hH.release hq hF
  rw [remaining, List.filter_nil] at hh
  exact ⟨p',by rw [losMemFree_eq hH.inv ha ho, hf],⟨_,_,_,_,hh⟩,hF.attr ▸ hattr⟩

/-- In one pool below 2^29 bytes a used node and a free one of the huge classes do not both exceed 2^28 bytes. -/
private theorem size_le_huge (h : Inv p [] N F ∅ ∅ L) (ha : a ∈ N) (hu : 2^31 ≤ p.sizeAndFlag a) (hc : c ∈ F)
    (hle : hugeBound r ≤ p.size c) : p.size a ≤ p.size c := by
  obtain ⟨hcN,hcf⟩ := h.sub c hc
  have hac : a ≠ c := by
    rintro rfl
    omega
  obtain ⟨e,he,h1,h2⟩ := h.nodes.tiling.home a ha
  obtain ⟨d,hd,h3,h4⟩ := h.nodes.tiling.home c hcN
  obtain rfl : e = d := by
    simp only [extents, List.map_nil, List.mem_singleton] at he hd
    rw [he, hd]
  have h5 := h.extent_bounds he
  rw [hugeBound] at hle
  rcases h.nodes.tiling.apart ha hcN hac with h6 | h6 <;> omega

/-- Reallocation of a live pointer fails without effect or replaces it by the result. -/
theorem losMemRealloc (h : Good p live) (hq : q ∈ live) {size : Nat} (hsz : size < 2^32) (lf : Nat → Bool)
    (he : Tlsf.losMemRealloc lf p q size = (p', r)) :
    (r ≠ 0 ∧ Good p' (r :: live.filter (· ≠ q))) ∨ (r = 0 ∧ Good p' live) := by
  obtain ⟨⟨N,F,L,own,hH⟩,hattr⟩ := id h
  obtain ⟨ha,ho⟩ := hH.owns q hq
  have hb := hH.inv.inside ha
  rw [losMemRealloc_eq hH.inv ha ho hsz] at he
  rcases hs : reallocUse size with _ | s
  · rw [hs] at he
    obtain ⟨rfl,rfl⟩ := Prod.mk.inj he
    exact .inr ⟨rfl,h⟩
  · rw [hs] at he
    obtain ⟨h8,h30,-⟩ := reallocUse_spec hsz hs
    have hn := grownArea_none hattr (allocSizeOf s)
    rcases hH.inv.osMemRealloc ha ho.used h8 h30 (by simp [hn]) (by simp [hn])
      (fun _ _ c hc hle => size_le_huge hH.inv ha ho.used hc hle) he with
      ⟨-,rfl,N',F',L',hr,-⟩ | ⟨-,-,rfl,pages,rfl⟩ | ⟨-,-,c,N',F',L',rfl,hm⟩
    · exact .inl ⟨by omega,⟨_,_,_,_,hH.resize hq hr⟩,hr.attr ▸ hattr⟩
    · exact .inr ⟨rfl,h.setPages pages⟩
    · have hh := hH.move hq hm
      rw [hn, Option.toList_none, List.append_nil, remaining, List.filter_nil] at hh
      exact .inl ⟨by omega,⟨_,_,_,_,hh⟩,hm.attr ▸ hattr⟩

/-- Reallocation of NULL is an allocation. -/
theorem losMemRealloc_null (h : Good p live) {size : Nat} (hsz : size < 2^32) (lf : Nat → Bool)
    (he : Tlsf.losMemRealloc lf p 0 size = (p', r)) : Good p' (r :: live) ∨ (r = 0 ∧ Good p' live) := by
  rw [Tlsf.losMemRealloc_null] at he
  rcases hs : reallocUse size with _ | s
  · rw [hs] at he
    obtain ⟨rfl,rfl⟩ := Prod.mk.inj he
    exact .inr ⟨rfl,h⟩
  · rw [hs] at he
    have := reallocUse_spec hsz hs
    exact h.losMemAlloc (by omega) he

/-- A client may write any word of its block from its pointer on. -/
theorem store (h : Good p live) (hq : q ∈ live) {y v : Nat} (hl : q ≤ y)
    (hr : y < osMemNextNode p (Word.sub (osGetRealPtr p q) OS_MEM_NODE_HEAD_SIZE)) : Good (p.setWord y v) live := by
  obtain ⟨⟨N,F,L,own,hH⟩,hattr⟩ := h
  obtain ⟨ha,ho⟩ := hH.owns q hq
  have hb := hH.inv.inside ha
  rw [getRealPtr_eq hH.inv ha ho, OS_MEM_NODE_HEAD_SIZE, Word.sub_eq (by omega), Nat.add_sub_cancel,
    hH.inv.nextNode_eq ha] at hr
  exact ⟨⟨_,_,_,_,(hH.store hq hl hr).1⟩,hattr⟩

end Good

end LiteOsKernel.Mem.Tlsf
