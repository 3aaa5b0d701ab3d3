import LiteOsKernel.Mem.TlsfAligned

/-! What LOS_MemRealloc does with the bytes of a block and of the blocks beside it. -/
namespace LiteOsKernel.Mem.Tlsf
open LiteOsKernel Links Lib Run

variable {p q : MemPool} {E : List Area} {N N' F : Set Nat} {L : Nat → List Nat} {a c n s ptr r : Nat} {own : Nat → Nat}
  {h : Arena} {b d : Block} {X : Set Nat}

/-- The byte at an address, in little-endian order. -/
def byteAt (p : MemPool) (addr : Nat) : Nat := p.mem (addr/4*4) >>> (8*(addr%4)) % 2^8

theorem byteAt_congr {x y : Nat} (hw : q.mem (x/4*4) = p.mem (y/4*4)) (hr : x%4 = y%4) : byteAt q x = byteAt p y := by
  rw [byteAt, byteAt, hw, hr]

/-- The result of LOS_MemRealloc for a block. -/
def reallocPtr (h : Arena) (b : Block) (n : Nat) (pages : List Nat) : Nat :=
  let p := { h.pool with pages := pages }
  (losMemRealloc (h.largeNodeFree p (.realloc b.ptr n)) p b.ptr n).2

/-- The bytes of a live block are what they were, and it is still live. -/
def Unchanged (h k : Arena) (d : Block) : Prop := d ∈ k.live ∧ ∀ i < d.size, byteAt k.pool (d.ptr + i) = byteAt h.pool (d.ptr + i)

/-- LOS_MemRealloc of the block b to n bytes carries its contents over, has the bytes it was asked for, and
leaves the other blocks alone; or it returns NULL and leaves all of them alone. -/
structure ReallocKeeps (h : Arena) (b : Block) (n : Nat) (pages : List Nat) : Prop where
  contents : reallocPtr h b n pages ≠ 0 → ∀ i < min b.size n,
    byteAt (h.run (.call (.realloc b.ptr n) pages)).pool (reallocPtr h b n pages + i) = byteAt h.pool (b.ptr + i)
  usable : reallocPtr h b n pages ≠ 0 → ∃ d ∈ (h.run (.call (.realloc b.ptr n) pages)).live,
    d.ptr = reallocPtr h b n pages ∧ d.size = n ∧ ∃ a, Within (h.run (.call (.realloc b.ptr n) pages)) d a
  others : reallocPtr h b n pages ≠ 0 → ∀ d ∈ h.live, d.ptr ≠ b.ptr → Unchanged h (h.run (.call (.realloc b.ptr n) pages)) d
  failed : reallocPtr h b n pages = 0 → ∀ d ∈ h.live, Unchanged h (h.run (.call (.realloc b.ptr n) pages)) d

/-- The request is refused, or finds no room for a block that it has to move, or the block's bytes are the ones
at the start of its node's payload. -/
def Carried (h : Arena) (b : Block) (n : Nat) (pages : List Nat) : Prop :=
  reallocUse n = none ∨
    (∃ s, reallocUse n = some s ∧ Moves h.pool (blockNode h.pool b.ptr) (allocSizeOf s) ∧
      NoRoom { h.pool with pages := pages } (allocSizeOf s)) ∨
    ∀ i < min b.size n, byteAt h.pool (osGetRealPtr h.pool b.ptr + i) = byteAt h.pool (b.ptr + i)

namespace Sound

theorem ptr_mod (hS : Sound h N F L own) (hd : d ∈ h.live) : d.ptr%4 = 0 := by
  obtain ⟨h1,h2⟩ := hS.held.owns d.ptr (ptr_mem hd)
  have hb := hS.held.inv.bounds h1
  rcases h2 with ⟨h3,-⟩ | ⟨g,-,h4,-,h3,-⟩ <;> omega

/-- The bytes of a block whose node a call leaves alone. -/
private theorem bytes_kept (hS : Sound h N F L own) (hd : d ∈ h.live) (hX : own d.ptr ∉ X) (hk : UsedKept h.pool N q N' X) :
    ∀ i < d.size, byteAt q (d.ptr + i) = byteAt h.pool (d.ptr + i) := by
  intro i hi
  obtain ⟨h1,h2⟩ := hS.held.owns d.ptr (ptr_mem hd)
  have hroom := hS.room d hd
  have hle := h2.le
  have hmod := hS.ptr_mod hd
  have hb := hS.held.inv.inside h1
  exact byteAt_congr ((hk.keep _ h1 hX h2.used).2.2 _ (by omega) (by omega)) rfl

/-- The bytes at the start of the payload of a block's node, where a call has copied its words to the node c. -/
private theorem bytes_moved (hS : Sound h N F L own) (hb : b ∈ h.live) (hc : c%4 = 0) {k : Nat} (hk : n + 12 ≤ k)
    (hw : ∀ i, 4*i + 12 < h.pool.size (own b.ptr) → 4*i + 12 < k → q.mem (c + 12 + 4*i) = h.pool.mem (own b.ptr + 12 + 4*i)) :
    ∀ i < min b.size n, byteAt q (c + 12 + i) = byteAt h.pool (own b.ptr + 12 + i) := by
  intro i hi
  obtain ⟨h1,h2⟩ := hS.held.owns b.ptr (ptr_mem hb)
  have hroom := hS.room b hb
  have hle := h2.le
  have hbd := hS.held.inv.bounds h1
  have h3 : (c + 12 + i)/4*4 = c + 12 + 4*(i/4) := by omega
  have h4 : (own b.ptr + 12 + i)/4*4 = own b.ptr + 12 + 4*(i/4) := by omega
  refine byteAt_congr ?_ (by omega)
  rw [h3, h4]
  exact hw (i/4) (by omega) (by omega)

end Sound

/-- Where the contents of the node's payload move along and the other blocks stay, only an alignment gap matters. -/
private theorem reallocKeeps_iff_of_moved {pages : List Nat} (hr : reallocPtr h b n pages ≠ 0)
    (husable : ∃ d ∈ (h.run (.call (.realloc b.ptr n) pages)).live,
      d.ptr = reallocPtr h b n pages ∧ d.size = n ∧ ∃ a, Within (h.run (.call (.realloc b.ptr n) pages)) d a)
    (hothers : ∀ d ∈ h.live, d.ptr ≠ b.ptr → Unchanged h (h.run (.call (.realloc b.ptr n) pages)) d)
    (hbytes : ∀ i < min b.size n, byteAt (h.run (.call (.realloc b.ptr n) pages)).pool (reallocPtr h b n pages + i) =
      byteAt h.pool (osGetRealPtr h.pool b.ptr + i)) (hs : reallocUse n = some s)
    (hroom : ¬(Moves h.pool (blockNode h.pool b.ptr) (allocSizeOf s) ∧ NoRoom { h.pool with pages := pages } (allocSizeOf s))) :
    ReallocKeeps h b n pages ↔ Carried h b n pages := by
  constructor
  · intro hk
    refine .inr (.inr fun i hi => ?_)
    rw [← hbytes i hi, hk.contents hr i hi]
  · rintro (h1 | ⟨t,h1,h2⟩ | h1)
    · cases hs.symm.trans h1
    · obtain rfl := Option.some.inj (hs.symm.trans h1)
      exact absurd h2 hroom
    · refine ⟨fun _ i hi => ?_,fun _ => husable,fun _ => hothers,fun h0 => absurd h0 hr⟩
      rw [hbytes i hi, h1 i hi]

/-- Where LOS_MemRealloc returns NULL it changes no block. -/
private theorem reallocKeeps_of_failed {pages : List Nat} (hr : reallocPtr h b n pages = 0)
    (hlive : (h.run (.call (.realloc b.ptr n) pages)).live = h.live)
    (hmem : (h.run (.call (.realloc b.ptr n) pages)).pool.mem = h.pool.mem) : ReallocKeeps h b n pages := by
  refine ⟨fun h0 => absurd hr h0,fun h0 => absurd hr h0,fun h0 => absurd hr h0,fun _ d hd => ⟨hlive.symm ▸ hd,?_⟩⟩
  intro i _
  rw [byteAt, hmem, byteAt]

theorem Sound.reallocKeeps_iff (hS : Sound h N F L own) (hb : b ∈ h.live) {pages : List Nat}
    (hp : h.Pre (.call (.realloc b.ptr n) pages)) (hf : h.Fits (.call (.realloc b.ptr n) pages)) :
    ReallocKeeps h b n pages ↔ Carried h b n pages := by
  obtain ⟨hx,hfit⟩ := hS.within hp hf
  obtain ⟨N₂,F₂,L₂,own₂,hS₂,-⟩ := hS.callWithin hp hf
  have hS₁ := hS.setPages pages
  obtain ⟨hreal,hnode⟩ := hS.blockNode_eq (Sound.ptr_mem hb)
  rcases he : losMemRealloc (h.largeNodeFree { h.pool with pages := pages } (.realloc b.ptr n)) { h.pool with pages := pages }
    b.ptr n with ⟨q,r⟩
  have hr : reallocPtr h b n pages = r := congrArg Prod.snd he
  have hk : (h.run (.call (.realloc b.ptr n) pages)).live =
        (if r = 0 then h.live else ⟨r,n,OS_MEM_ALIGN_SIZE⟩ :: h.live.filter (·.ptr ≠ b.ptr)) ∧
      (h.run (.call (.realloc b.ptr n) pages)).pool = q := by
    simp only [Arena.run, Arena.call, he, Arena.called, and_self]
  have hothers : r ≠ 0 → ∀ {N' X}, UsedKept h.pool N q N' X → (∀ d ∈ h.live, d.ptr ≠ b.ptr → own d.ptr ∉ X) →
      ∀ d ∈ h.live, d.ptr ≠ b.ptr → Unchanged h (h.run (.call (.realloc b.ptr n) pages)) d := by
    intro h0 N' X hu hX d hd hne
    refine ⟨?_,?_⟩
    · rw [hk.1, if_neg h0]
      exact List.mem_cons_of_mem _ (List.mem_filter.mpr ⟨hd,decide_eq_true hne⟩)
    · rw [hk.2]
      exact hS.bytes_kept hd (hX d hd hne) hu
  have husable : r ≠ 0 → ∃ d ∈ (h.run (.call (.realloc b.ptr n) pages)).live,
      d.ptr = reallocPtr h b n pages ∧ d.size = n ∧ ∃ a, Within (h.run (.call (.realloc b.ptr n) pages)) d a := by
    intro h0
    have hd : ⟨r,n,OS_MEM_ALIGN_SIZE⟩ ∈ (h.run (.call (.realloc b.ptr n) pages)).live := by
      rw [hk.1, if_neg h0]
      exact List.mem_cons_self
    exact ⟨_,hd,hr.symm,rfl,(hS₂.blockLaw hd).node.exists⟩
  rcases hS₁.realloc_spec (Sound.ptr_mem hb) hp.1.2 hx hfit hf.2.2 he with ⟨hs,rfl,rfl⟩ |
    ⟨s,hs,hsize,⟨hm,rfl,N',F',L',hR,-⟩ | ⟨hm,hno,rfl,pages',rfl⟩ | ⟨hm,hroom,-,c,N',F',L',rfl,hM⟩⟩
  · exact iff_of_true (reallocKeeps_of_failed hr hk.1 (by rw [hk.2])) (.inl hs)
  · have hbd := hR.inv.bounds hR.mem
    have h0 : own b.ptr + 12 ≠ 0 := by omega
    refine reallocKeeps_iff_of_moved (by rw [hr]; exact h0) (husable h0) (hothers h0 (hR.used.congr_left rfl) ?_) ?_ hs ?_
    · intro d hd hne
      exact hS.own_ne (Sound.ptr_mem hb) hd hne
    · rw [hr, hk.2, hreal]
      exact hS.bytes_moved hb hbd.2.2.2.1 hsize fun i h1 h2 =>
        hR.payload _ (by omega) (by omega) (show _ < own b.ptr + h.pool.size (own b.ptr) by omega)
    · rw [hnode]
      exact fun hc => hm hc.1
  · exact iff_of_true (reallocKeeps_of_failed hr hk.1 (by rw [hk.2])) (.inr (.inl ⟨s,hs,by rw [hnode]; exact hm,hno⟩))
  · have hbd := hM.inv.bounds hM.mem
    have h0 : c + 12 ≠ 0 := by omega
    refine reallocKeeps_iff_of_moved (by rw [hr]; exact h0) (husable h0) (hothers h0 (hM.used.congr_left rfl) ?_) ?_ hs ?_
    · rintro d hd hne (he' | he')
      · exact hS.own_ne (Sound.ptr_mem hb) hd hne he'
      · exact hS₁.held.own_ne (Sound.ptr_mem hd) hM.new he'
    · rw [hr, hk.2, hreal]
      exact hS.bytes_moved hb hbd.2.2.2.1 hsize fun i h1 _ => hM.payload i h1
    · exact fun hc => hroom hc.2

/-- In every run of a pool below 2^29 bytes whose calls fit, reallocation keeps the contents of a block exactly
where no alignment gap with other bytes stands before them. -/
theorem reallocKeeps_iff_of_reachable (h : Arena) (hr : Run.Reachable (arenaSystem PoolBelow) Arena.Fits h) :
    ∀ b ∈ h.live, ∀ n, 0 < n → ∀ pages, h.Pre (.call (.realloc b.ptr n) pages) → h.Fits (.call (.realloc b.ptr n) pages) →
      (ReallocKeeps h b n pages ↔ Carried h b n pages) := by
  obtain ⟨N,F,L,own,hS⟩ := sound_of_reachable hr
  exact fun b hb n _ pages hp hf => hS.reallocKeeps_iff hb hp hf

/-- Growing the plain block to 200 bytes. -/
theorem reallocKeeps_plain : ReallocKeeps plainArena ⟨0x13cc,100,4⟩ 200 [] := by
  have hlive : plainArena.live = [⟨0x13cc,100,4⟩] := by decide +kernel
  have hg : (Call.realloc 0x13cc 200).grown { plainArena.pool with pages := [] } = none := by decide +kernel
  have hr : (Call.realloc 0x13cc 200).asks { plainArena.pool with pages := [] } = none := by decide +kernel
  have hreal : osGetRealPtr plainArena.pool 0x13cc = 0x13cc := by decide +kernel
  refine (reallocKeeps_iff_of_reachable plainArena (plainArena_reachable (by norm_num [PoolBelow]) id) ⟨0x13cc,100,4⟩ ?_
    200 (by norm_num) [] ⟨⟨?_,?_⟩,?_⟩
    ⟨?_,?_,Arena.returnable_of_no_area (by decide +kernel) hg⟩).mpr (.inr (.inr fun i _ => by rw [hreal]))
  · rw [hlive]
    exact List.mem_cons_self
  · exact .inr ⟨⟨0x13cc,100,4⟩,by rw [hlive]; exact List.mem_cons_self,rfl⟩
  · norm_num
  · intro x hx
    cases hg.symm.trans hx
  · intro r hr'
    cases hr.symm.trans hr'
  · intro x hx
    cases hg.symm.trans hx

/-- The small arena after an allocation of 100 bytes to the boundary 64 and a write of its first word. -/
def gapArena : Arena :=
  (smallArena.run (.call (.allocAlign 100 64) [])).run (.call (.store 0x1400 0x1400 1) [])

/-- Reallocation of an aligned block takes the bytes of the gap before it for its contents. -/
theorem reallocKeeps_fails_gap : ¬∀ h, Run.Reachable (arenaSystem fun _ => True) (fun _ _ => True) h →
    ∀ b ∈ h.live, ∀ n, 0 < n → ∀ pages, h.Pre (.call (.realloc b.ptr n) pages) → ReallocKeeps h b n pages := by
  intro hall
  have hg : (Call.allocAlign 100 64).grown { smallArena.pool with pages := [] } = none := by decide +kernel
  have hlive₁ : (smallArena.run (.call (.allocAlign 100 64) [])).live = [⟨0x1400,100,64⟩] := by decide +kernel
  have hlive : gapArena.live = [⟨0x1400,100,64⟩] := by decide +kernel
  have h0 : Run.Reachable (arenaSystem fun _ => True) (fun _ _ => True) smallArena := .init (smallArena_init trivial)
  have h1 := h0.call (.call (.allocAlign 100 64) []) ⟨by norm_num [Arena.Legal],fun x hx => by cases hg.symm.trans hx⟩ trivial
  have hreach : Run.Reachable (arenaSystem fun _ => True) (fun _ _ => True) gapArena := by
    refine h1.call (.call (.store 0x1400 0x1400 1) []) ⟨⟨⟨⟨0x1400,100,64⟩,?_,rfl,le_rfl,by norm_num⟩,by norm_num,by norm_num⟩,?_⟩
      trivial
    · rw [hlive₁]
      exact List.mem_cons_self
    · intro x hx
      cases hx
  have hg' : (Call.realloc 0x1400 50).grown { gapArena.pool with pages := [] } = none := by decide +kernel
  have hk := hall gapArena hreach ⟨0x1400,100,64⟩ (by rw [hlive]; exact List.mem_cons_self) 50 (by norm_num) [] ⟨⟨.inr
    ⟨_,by rw [hlive]; exact List.mem_cons_self,rfl⟩,by norm_num⟩,fun x hx => by cases hg'.symm.trans hx⟩
  have hptr : reallocPtr gapArena ⟨0x1400,100,64⟩ 50 [] = 0x13cc := by decide +kernel
  have h2 := hk.contents (by rw [hptr]; norm_num) 0 (by norm_num)
  rw [hptr] at h2
  have h3 : byteAt (gapArena.run (.call (.realloc 0x1400 50) [])).pool (0x13cc + 0) = 0 := by decide +kernel
  have h4 : byteAt gapArena.pool (0x1400 + 0) = 1 := by decide +kernel
  exact absurd (h3.symm.trans (h2.trans h4)) (by norm_num)

end LiteOsKernel.Mem.Tlsf
