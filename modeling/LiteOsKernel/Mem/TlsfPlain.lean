import LiteOsKernel.Mem.TlsfFrame

/-! Blocks without an alignment gap keep their place at the start of a node through every call, and LOS_MemRealloc
gives up the node of its block and no other. -/
namespace LiteOsKernel.Mem.Tlsf
open LiteOsKernel Links Lib Run

variable {p q : MemPool} {E E' : List Area} {N N' F F' X : Set Nat} {L L' : Nat → List Nat} {a c n r s : Nat} {own own' : Nat → Nat}
  {h : Arena} {b d : Block}

/-- The blocks on no wider boundary than a node's start at a node's payload. -/
def Straight (p : MemPool) (live : List Block) : Prop := ∀ b ∈ live, b.boundary = OS_MEM_ALIGN_SIZE → osGetRealPtr p b.ptr = b.ptr

namespace Sound

theorem realPtr_eq (hS : Sound h N F L own) (hb : b ∈ h.live) : osGetRealPtr h.pool b.ptr = own b.ptr + 12 :=
  (hS.blockNode_eq (ptr_mem hb)).1

private theorem realPtr_kept (hS : Sound h N F L own) (hI : Inv q E' N' F' ∅ ∅ L') (hb : b ∈ h.live) (hX : own b.ptr ∉ X)
    (hk : UsedKept h.pool N q N' X) : osGetRealPtr q b.ptr = osGetRealPtr h.pool b.ptr := by
  obtain ⟨h1,h2⟩ := hS.held.owns b.ptr (ptr_mem hb)
  obtain ⟨h3,h4⟩ := h2.kept h1 hX hk
  rw [getRealPtr_eq hI h3 h4, hS.realPtr_eq hb]

/-- Blocks that a call leaves in place. -/
theorem straight_kept (hS : Sound h N F L own) (hst : Straight h.pool h.live) (hI : Inv q E' N' F' ∅ ∅ L')
    (hk : UsedKept h.pool N q N' X) {live : List Block} (hlive : ∀ b ∈ live, b ∈ h.live ∧ own b.ptr ∉ X) : Straight q live := by
  intro b hb h4
  obtain ⟨h1,h2⟩ := hlive b hb
  rw [hS.realPtr_kept hI h1 h2 hk]
  exact hst b h1 h4

/-- A block handed out beside blocks that stay in place. -/
private theorem straight_cons {live : List Block} {boundary : Nat} (hst : Straight q live) (hI : Inv q E' N' F' ∅ ∅ L') (ha : a ∈ N')
    (ho : Owns q a r) (hr : boundary = OS_MEM_ALIGN_SIZE → r = a + 12) : Straight q (⟨r,n,boundary⟩ :: live) := by
  intro b hb h4
  rcases List.mem_cons.mp hb with rfl | hb
  · rw [getRealPtr_eq hI ha ho, hr h4]
  · exact hst b hb h4

private theorem straight_grant (hS : Sound h N F L own) (hst : Straight h.pool h.live) {x : Option Area} {k boundary : Nat}
    (hg : Granted h.pool q x h.areas N F N' F' L' a k r) (hr : boundary = OS_MEM_ALIGN_SIZE → r = a + 12) :
    Straight q (⟨r,n,boundary⟩ :: h.live) :=
  straight_cons (hS.straight_kept hst hg.inv hg.used fun _ hb => ⟨hb,hS.held.own_ne (ptr_mem hb) hg.new⟩) hg.inv hg.mem hg.owns hr

private theorem straight_alloc (hS : Sound h N F L own) (hst : Straight h.pool h.live) (hsz : n < 2^32)
    (hx : ∀ x, (Call.alloc n).grown h.pool = some x → x.Fresh h.pool h.areas) (he : losMemAlloc h.pool n = (q, r)) (size : Nat) :
    Straight q (if r = 0 then h.live else ⟨r,size,OS_MEM_ALIGN_SIZE⟩ :: h.live) := by
  rcases hs : allocUse n with _ | s
  · rw [losMemAlloc_eq, hs] at he
    obtain ⟨rfl,rfl⟩ := Prod.mk.inj he
    exact hst
  rcases hS.held.inv.losMemAlloc hsz hs (fun x hg => hx x (by simp only [Call.grown, Call.asks, hs]; exact hg)) he with
    ⟨-,rfl,pages,rfl⟩ | ⟨-,a,N',F',L',rfl,hg⟩
  · exact hst
  · rw [if_neg (by omega)]
    exact hS.straight_grant hst hg fun _ => rfl

private theorem straight_allocAlign (hS : Sound h N F L own) (hst : Straight h.pool h.live) {boundary : Nat} (hsz : n < 2^32)
    (hbd : boundary < 2^32) (hx : ∀ x, (Call.allocAlign n boundary).grown h.pool = some x → x.Fresh h.pool h.areas)
    (hfit : ∀ r, (Call.allocAlign n boundary).asks h.pool = some r → r < 2^29 ∨ ∀ a ∈ F, h.pool.size a < hugeBound r) :
    Straight (h.call h.pool (.allocAlign n boundary)).pool (h.call h.pool (.allocAlign n boundary)).live := by
  rcases he : losMemAllocAlign h.pool n boundary with ⟨q,r⟩
  simp only [Arena.call, he, Arena.called]
  rcases hs : alignUse n boundary with _ | s
  · rw [losMemAllocAlign_eq, hs] at he
    obtain ⟨rfl,rfl⟩ := Prod.mk.inj he
    exact hst
  have hask : (Call.allocAlign n boundary).asks h.pool = some (allocSizeOf s) := by
    simp only [Call.asks, hs]
    rfl
  obtain ⟨-,hsm,i,hi2,hi30,rfl⟩ := alignUse_spec hsz hbd hs
  have hm := minSize_bounds hsz
  have hfit' : 2^i ≠ 2^29 ∨ ∀ c ∈ F, h.pool.size c < hugeBound (allocSizeOf s) := by
    rcases hfit _ hask with h1 | h1
    · refine .inl ?_
      rw [allocSizeOf] at h1
      omega
    · exact .inr h1
  rcases hS.held.inv.losMemAllocAlign hsz hbd hs (fun x hg => hx x (by simp only [Call.grown, hask]; exact hg)) hfit' he with
    ⟨-,rfl,pages,rfl⟩ | ⟨-,a,N',F',L',hmod,hlt,hg⟩
  · exact hst
  · have hb := hg.inv.bounds hg.mem
    have hle := hg.owns.le
    rw [if_neg (by omega)]
    refine hS.straight_grant hst hg fun h4 => ?_
    rw [h4, OS_MEM_ALIGN_SIZE] at hmod hlt
    omega

private theorem straight_realloc (hS : Sound h N F L own) (hst : Straight h.pool h.live) (hb : b ∈ h.live) (hsz : n < 2^32)
    (hx : ∀ x, (Call.realloc b.ptr n).grown h.pool = some x → x.Fresh h.pool h.areas)
    (hfit : ∀ r, (Call.realloc b.ptr n).asks h.pool = some r → r < 2^29 ∨ ∀ a ∈ F, h.pool.size a < hugeBound r)
    (hback : h.Returnable h.pool (.realloc b.ptr n)) :
    Straight (h.call h.pool (.realloc b.ptr n)).pool (h.call h.pool (.realloc b.ptr n)).live := by
  rcases he : losMemRealloc (h.largeNodeFree h.pool (.realloc b.ptr n)) h.pool b.ptr n with ⟨q,r⟩
  simp only [Arena.call, he, Arena.called]
  rcases hS.realloc_spec (ptr_mem hb) hsz hx hfit hback he with ⟨-,rfl,rfl⟩ |
    ⟨s,-,-,⟨-,rfl,N',F',L',hR,-⟩ | ⟨-,-,rfl,pages,rfl⟩ | ⟨-,-,-,c,N',F',L',rfl,hM⟩⟩
  · exact hst
  · rw [if_neg (by omega)]
    refine straight_cons (hS.straight_kept hst hR.inv hR.used fun d hd => ?_) hR.inv hR.mem (.inl ⟨rfl,hR.plain⟩) fun _ => rfl
    obtain ⟨h1,h2⟩ := mem_filter hd
    exact ⟨h1,hS.own_ne (ptr_mem hb) h1 h2⟩
  · exact hst
  · rw [if_neg (by omega)]
    refine straight_cons (hS.straight_kept hst hM.inv hM.used fun d hd => ?_) hM.inv hM.mem (.inl ⟨rfl,hM.plain⟩) fun _ => rfl
    obtain ⟨h1,h2⟩ := mem_filter hd
    refine ⟨h1,?_⟩
    rintro (he' | he')
    · exact hS.own_ne (ptr_mem hb) h1 h2 he'
    · exact hS.held.own_ne (ptr_mem h1) hM.new he'

theorem straight_call (hS : Sound h N F L own) (hst : Straight h.pool h.live) {c : Call} (hl : h.Legal c)
    (hx : ∀ x, c.grown h.pool = some x → x.Fresh h.pool h.areas)
    (hfit : ∀ r, c.asks h.pool = some r → r < 2^29 ∨ ∀ a ∈ F, h.pool.size a < hugeBound r) (hback : h.Returnable h.pool c) :
    Straight (h.call h.pool c).pool (h.call h.pool c).live := by
  cases c with
  | alloc size => exact hS.straight_alloc hst hl hx rfl size
  | allocAlign size boundary => exact hS.straight_allocAlign hst hl.1 hl.2 hx hfit
  | realloc ptr size =>
    obtain ⟨rfl | ⟨b,hb,rfl⟩,hsz⟩ := hl
    · simp only [Arena.call, losMemRealloc_null, Arena.called, hS.filter_zero]
      rcases hs : reallocUse size with _ | s
      · exact hst
      · have hlt := (reallocUse_spec hsz hs).2.1
        have hn : (Call.realloc 0 size).grown h.pool = (Call.alloc s).grown h.pool := by
          simp only [Call.grown, Call.asks, hs, if_true, Option.bind_some]
        rw [hn] at hx
        exact hS.straight_alloc hst (by omega) hx rfl size
    · exact hS.straight_realloc hst hb hsz hx hfit hback
  | free ptr =>
    obtain ⟨b,hb,rfl⟩ := hl
    obtain ⟨q,N',F',L',he,-,hf⟩ := hS.free_eq (ptr_mem hb) hback
    rw [he]
    refine hS.straight_kept hst hf.inv hf.used fun d hd => ?_
    obtain ⟨h1,h2⟩ := mem_filter hd
    exact ⟨h1,hS.own_ne (ptr_mem hb) h1 h2⟩
  | store ptr addr value =>
    obtain ⟨⟨b,hb,rfl,h1,h2⟩,-⟩ := hl
    have hroom := hS.room b hb
    obtain ⟨hH,-,-⟩ := hS.held.store (ptr_mem hb) (v := value) h1 (by omega)
    intro d hd h4
    obtain ⟨h3,h5⟩ := hH.owns d.ptr (ptr_mem hd)
    refine (getRealPtr_eq hH.inv h3 h5).trans ?_
    rw [← hS.realPtr_eq hd]
    exact hst d hd h4

/-- The used nodes of an arena k in which the block has left its node for the node c, which may be the same one. -/
private theorem used_after (hS : Sound h N F L own) (hb : b ∈ h.live) {k : Arena} (hI : Inv q E' N' F' ∅ ∅ L') (hp : k.pool = q)
    (hE : k.areas = E') (hk : UsedKept h.pool N q N' {own b.ptr,c}) (hc : c ∈ N') (hplain : Plain q c)
    (hnew : c ∈ N → c ≠ own b.ptr → h.pool.sizeAndFlag c < 2^31)
    (hgone : own b.ptr ∈ N' → c ≠ own b.ptr → q.sizeAndFlag (own b.ptr) < 2^31) (hroom : n + 12 ≤ q.size c) :
    Within k ⟨c + 12,n,OS_MEM_ALIGN_SIZE⟩ c ∧ ∀ d, UsedNode k d ↔ (UsedNode h d ∧ ¬Within h b d) ∨ d = c := by
  have hused : ∀ d, UsedNode k d ↔ d ∈ N' ∧ 2^31 ≤ q.sizeAndFlag d := fun d => by
    rw [UsedNode, hp, hE, hI.isNode_iff]
    exact and_congr_right fun hd => by rw [ne_eq, hI.used_zero_iff hd, Nat.not_lt]
  have husedC : c ∈ N' ∧ 2^31 ≤ q.sizeAndFlag c := ⟨hc,by rw [hplain]; omega⟩
  refine ⟨⟨(hused _).mpr husedC,le_rfl,?_⟩,fun d => ?_⟩
  · rw [hp, hI.nextNode_eq hc]
    dsimp only
    omega
  · rw [hused, hS.usedNode_iff, hS.within_iff hb]
    constructor
    · rintro ⟨hd,hu⟩
      by_cases hdc : d = c
      · exact .inr hdc
      have hdo : d ≠ own b.ptr := by
        rintro rfl
        exact absurd (hgone hd fun he => hdc he.symm) (Nat.not_lt.mpr hu)
      refine .inl ⟨hk.only d hd ?_ hu,hdo⟩
      rintro (h1 | h1)
      · exact hdo h1
      · exact hdc h1
    · rintro (⟨⟨hd,hu⟩,hdo⟩ | rfl)
      · have hdc : d ≠ c := by
          rintro rfl
          exact absurd (hnew hd hdo) (Nat.not_lt.mpr hu)
        obtain ⟨h1,h2,-⟩ := hk.keep d hd (by
          rintro (h1 | h1)
          · exact hdo h1
          · exact hdc h1) hu
        exact ⟨h1,h2.symm ▸ hu⟩
      · exact husedC

/-- Reallocation gives up the node of its block and takes the node of the result, which may be the same one. -/
theorem realloc_used (hS : Sound h N F L own) (hb : b ∈ h.live) (hsz : n < 2^32)
    (hx : ∀ x, (Call.realloc b.ptr n).grown h.pool = some x → x.Fresh h.pool h.areas)
    (hfit : ∀ r, (Call.realloc b.ptr n).asks h.pool = some r → r < 2^29 ∨ ∀ a ∈ F, h.pool.size a < hugeBound r)
    (hback : h.Returnable h.pool (.realloc b.ptr n)) (he : losMemRealloc (h.largeNodeFree h.pool (.realloc b.ptr n)) h.pool b.ptr n = (q, r))
    (h0 : r ≠ 0) :
    ∃ c, Within (h.call h.pool (.realloc b.ptr n)) ⟨r,n,OS_MEM_ALIGN_SIZE⟩ c ∧
      ∀ d, UsedNode (h.call h.pool (.realloc b.ptr n)) d ↔ (UsedNode h d ∧ ¬Within h b d) ∨ d = c := by
  have hrel : (Call.realloc b.ptr n).released h.pool = _ := hS.released_realloc (ptr_mem hb)
  have hpool : (h.call h.pool (.realloc b.ptr n)).pool = q := by simp only [Arena.call, he, Arena.called]
  have hareas : (h.call h.pool (.realloc b.ptr n)).areas = _ := h.call_areas h.pool (.realloc b.ptr n)
  rw [hS.givenBack_realloc (ptr_mem hb) hsz hx hfit hback he] at hareas
  simp only [Call.returned, hrel, Call.grown, hS.asks_realloc (ptr_mem hb)] at hareas
  rcases hS.realloc_spec (ptr_mem hb) hsz hx hfit hback he with ⟨-,-,rfl⟩ |
    ⟨s,hs,hk,⟨hm,rfl,N',F',L',hR,-⟩ | ⟨-,-,rfl,-⟩ | ⟨hm,hroom,hlt,c,N',F',L',rfl,hM⟩⟩
  · exact absurd rfl h0
  · have hask : (some (allocSizeOf s)).filter (fun k => decide (Moves h.pool (own b.ptr) k)) = none := by simp [hm]
    have hkeep : ((some s).filter fun s => decide (Moves h.pool (own b.ptr) (allocSizeOf s) ∧ ¬NoRoom h.pool (allocSizeOf s))) =
        none := by simp [hm]
    simp only [hs, hask, hkeep, Option.map_some, Option.bind_none, Option.map_none, Option.toList_none, List.append_nil,
      remaining_none] at hareas
    have hbig := hR.room
    exact ⟨own b.ptr,hS.used_after hb hR.inv hpool hareas (hR.used.mono fun d hd => .inl hd) hR.mem hR.plain
      (fun _ hne => absurd rfl hne) (fun _ hne => absurd rfl hne) (by omega)⟩
  · exact absurd rfl h0
  · have hask : (some (allocSizeOf s)).filter (fun k => decide (Moves h.pool (own b.ptr) k)) = some (allocSizeOf s) := by
      simp [hm]
    have hkeep : ((some s).filter fun s => decide (Moves h.pool (own b.ptr) (allocSizeOf s) ∧ ¬NoRoom h.pool (allocSizeOf s))) =
        some s := by simp [hm, hroom]
    simp only [hs, hask, hkeep, Option.map_some, Option.bind_some] at hareas
    have hbig := hM.room hlt
    exact ⟨c,hS.used_after hb hM.inv hpool hareas hM.used hM.mem hM.plain (fun h1 _ => hM.new h1) (fun h1 _ => hM.gone h1)
      (by omega)⟩

end Sound

end LiteOsKernel.Mem.Tlsf
