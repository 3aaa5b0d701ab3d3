import LiteOsKernel.Vm.MapFlags
import LiteOsKernel.Vm.MmuPage

/-! LOS_DoMprotect on the regions and the page table of a space: which region flags and which page protections it changes. -/
namespace LiteOsKernel.Vm
open Rbtree LosVmSpace LosVmMapRegion

variable {s s' : LosVmSpace} {l : List Nat} {m m' : LosArchMmu} {p q vaddr len prot depth x : Nat}

def VM_MAP_REGION_FLAG_PROT_MASK : Nat := 0xF <<< 2

/-- A space and its page table. -/
structure UserSpace where
  space : LosVmSpace
  archMmu : LosArchMmu

/-- The checks of LOS_DoMprotect, before it changes anything. -/
def mprotectCheck (s : LosVmSpace) (vaddr len prot : Nat) : Int :=
  let region := losRegionFind s vaddr
  let r := s.region region
  if isAligned vaddr PAGE_SIZE = false ∨ region = 0 ∨ Word.add vaddr len < vaddr then -EINVAL
  else if prot &&& Word.not (PROT_READ ||| PROT_WRITE ||| PROT_EXEC) ≠ 0 then -EINVAL
  else if r.regionFlags &&& VM_MAP_REGION_FLAG_VDSO ≠ 0 ∨ r.regionFlags &&& VM_MAP_REGION_FLAG_HEAP ≠ 0 ∨
      r.regionFlags &&& VM_MAP_REGION_FLAG_LITEIPC ≠ 0 then -EPERM
  else if r.regionType = .file ∧ r.regionFlags &&& VM_MAP_REGION_FLAG_SHARED ≠ 0 ∧ osProtMprotectPermCheck prot r = false then
    -EACCES
  else if Word.add r.range.base r.range.size < Word.add vaddr (losAlign len PAGE_SIZE) then -EINVAL
  else 0

/-- The flags that LOS_DoMprotect sets: of the old ones the sharing and one name stay. -/
def mprotectFlags (prot oldRegionFlags : Nat) : Nat :=
  osCvtProtFlagsToRegionFlags prot 0 |||
    flagIf oldRegionFlags VM_MAP_REGION_FLAG_SHARED VM_MAP_REGION_FLAG_SHARED ||| osInheritOldRegionName oldRegionFlags

/-- The split of LOS_DoMprotect, whose status it does not look at. -/
def mprotectSplit (depth : Nat) (s : LosVmSpace) (vaddr len : Nat) : LosVmSpace :=
  if len < (s.region (losRegionFind s vaddr)).range.size then (osVmRegionAdjust (losUnMMap depth) s vaddr len).1 else s

/-- What LOS_DoMprotect leaves behind: the space, the value returned, and the address and the number of pages given to
LOS_ArchMmuChangeProt where it was called. -/
structure MprotectResult where
  user : UserSpace
  ret : Int
  passed : Option (Nat × Nat)

/-- LOS_DoMprotect with the page table. Where LOS_ArchMmuChangeProt panics it does not return. -/
def UserSpace.losDoMprotect (depth : Nat) (u : UserSpace) (vaddr len prot : Nat) : Option MprotectResult :=
  let status := mprotectCheck u.space vaddr len prot
  if status ≠ 0 then some ⟨u,status,none⟩
  else
    let len := losAlign len PAGE_SIZE
    let old := losRegionFind u.space vaddr
    let s := mprotectSplit depth u.space vaddr len
    let vmFlags := mprotectFlags prot (s.region old).regionFlags
    let region := losRegionFind s vaddr
    if region = 0 then some ⟨⟨s,u.archMmu⟩,-ENOMEM,none⟩
    else
      let s := s.setRegion region { s.region region with regionFlags := vmFlags }
      let count := len >>> PAGE_SHIFT
      (losArchMmuChangeProt u.archMmu vaddr count vmFlags).map fun r =>
        ⟨⟨s,r.1⟩,if r.2 ≠ 0 then -ENOMEM else 0,some (vaddr,count)⟩

private theorem mprotectCheck_spec (h : SpaceInv s l) (ha : vaddr < 2^32) (hl : len < 2^32) (hc : mprotectCheck s vaddr len prot = 0) :
    PAGE_SIZE ∣ vaddr ∧ losRegionFind s vaddr ∈ l ∧ (s.region (losRegionFind s vaddr)).range.base ≤ vaddr ∧
      vaddr < (s.region (losRegionFind s vaddr)).fin ∧ losAlign len PAGE_SIZE = Word.alignUp len PAGE_SIZE ∧
      vaddr + Word.alignUp len PAGE_SIZE ≤ 2^32 ∧
      Word.add vaddr (Word.alignUp len PAGE_SIZE) ≤ (s.region (losRegionFind s vaddr)).fin := by
  have hp : PAGE_SIZE = 4096 := rfl
  rw [mprotectCheck] at hc
  split_ifs at hc with h1 h2 h3 h4 h5
  all_goals first | (exact absurd hc (by decide)) | skip
  rw [not_or, not_or, Bool.not_eq_false] at h1
  obtain ⟨hal,hf0,hwrap⟩ := h1
  have had := page_dvd_of_isAligned hal
  rcases regionFind_spec h.regionMap ha with ⟨hm,hb,hf⟩ | ⟨h0,-⟩
  · have hbase := h.layout.base_pos
    have hrb := (h.ok _ hm).base_le
    have hlt := h.fin_lt hm
    -- the address is that of a page and not 0, so that the sum with the length is below 2^32 and rounds up in the word
    have hsum : vaddr + len < 2^32 := by
      by_contra hge
      apply hwrap
      rw [Word.add]
      omega
    have hpage : PAGE_SIZE ≤ vaddr := Nat.le_of_dvd (by omega) had
    have hup := Word.alignUp_lt len (show 0 < PAGE_SIZE by decide)
    have halign : losAlign len PAGE_SIZE = Word.alignUp len PAGE_SIZE := by
      rcases losAlign_cases hl with he | ⟨hbig,-,-⟩
      · exact he
      · omega
    refine ⟨had,hm,hb,hf,halign,?_,?_⟩
    · obtain ⟨i,hi⟩ := had
      obtain ⟨j,hj⟩ := Word.dvd_alignUp len PAGE_SIZE
      rw [hj, hp] at hup ⊢
      rw [hp] at hi
      omega
    · rw [← halign]
      have hend : Word.add (s.region (losRegionFind s vaddr)).range.base (s.region (losRegionFind s vaddr)).range.size =
          (s.region (losRegionFind s vaddr)).fin := Word.add_eq hlt
      rw [← hend]
      exact not_lt.mp h5
  · exact absurd h0 hf0

/-- The permissions in the new flags are those of prot. -/
private theorem mprotectFlags_prot (prot old : Nat) :
    mprotectFlags prot old &&& VM_MAP_REGION_FLAG_PROT_MASK = osCvtProtFlagsToRegionFlags prot 0 := by
  have hprot : osCvtProtFlagsToRegionFlags prot 0 &&& VM_MAP_REGION_FLAG_PROT_MASK = osCvtProtFlagsToRegionFlags prot 0 := by
    have hzero : ∀ bit value, flagIf 0 bit value = 0 := by
      intro bit value
      rw [flagIf, Nat.zero_and, if_neg (not_not_intro rfl)]
    simp only [osCvtProtFlagsToRegionFlags, hzero, Nat.or_zero]
    simp only [flagIf]
    split_ifs <;> decide
  have hshared : flagIf old VM_MAP_REGION_FLAG_SHARED VM_MAP_REGION_FLAG_SHARED &&& VM_MAP_REGION_FLAG_PROT_MASK = 0 := by
    rw [flagIf]
    split_ifs <;> decide
  have hname : osInheritOldRegionName old &&& VM_MAP_REGION_FLAG_PROT_MASK = 0 := by
    rw [osInheritOldRegionName]
    split_ifs <;> decide
  rw [mprotectFlags, Nat.and_or_distrib_right, Nat.and_or_distrib_right, hprot, hshared, hname, Nat.or_zero, Nat.or_zero]

/-- The range fits into its region, and the splits work. -/
private theorem mprotectSplit_cutOut (h : SpaceInv s l) (ha : PAGE_SIZE ∣ vaddr) {n : Nat} (hn : PAGE_SIZE ∣ n)
    (hm : losRegionFind s vaddr ∈ l) (h1 : (s.region (losRegionFind s vaddr)).range.base ≤ vaddr)
    (h2 : vaddr < (s.region (losRegionFind s vaddr)).fin) (hfit : vaddr + n ≤ (s.region (losRegionFind s vaddr)).fin)
    (hcan : CanSplit s l vaddr (vaddr + n)) :
    ∃ l' q, CutOut s (losRegionFind s vaddr) vaddr (rangeEnd (s.region (losRegionFind s vaddr)) vaddr n)
      (mprotectSplit depth s vaddr n) l' q := by
  set p := losRegionFind s vaddr with hpdef
  have hlt := h.fin_lt hm
  have hfin : (s.region p).fin = (s.region p).range.base + (s.region p).range.size := rfl
  have hsum : Word.add vaddr n = vaddr + n := Word.add_eq (by omega)
  rw [mprotectSplit, ← hpdef]
  split_ifs with hsize
  · rcases regionAdjust_covers (losUnMMap depth) h ha (by omega) (n := n) (by rw [hsum]; exact Nat.dvd_add ha hn) with
      ⟨-,h0,-⟩ | ⟨hno,-⟩
    · exact regionAdjust_cutOut (losUnMMap depth) h ha hn hm h1 h2 hfit h0
    · exact absurd (hsum ▸ hcan) hno
  · have hsp := (h.ok p hm).size_pos
    have he : rangeEnd (s.region p) vaddr n = (s.region p).fin := by
      rw [rangeEnd, if_neg (by omega)]
      omega
    rw [he]
    exact ⟨l,p,.whole h hm (by omega)⟩

/-- A call that passes its checks: what it returns, and the flags it leaves. -/
private theorem losDoMprotect_split {u : UserSpace} {r : MprotectResult} {l' : List Nat} (ha : PAGE_SIZE ∣ vaddr)
    {n : Nat} (hn : PAGE_SIZE ∣ n) (hal : losAlign len PAGE_SIZE = n) (h0 : vaddr ≠ 0)
    (hc : mprotectCheck u.space vaddr len prot = 0) (hr : u.losDoMprotect depth vaddr len prot = some r)
    (h' : SpaceInv (mprotectSplit depth u.space vaddr n) l') (hq : q ∈ l')
    (hb : ((mprotectSplit depth u.space vaddr n).region q).range.base ≤ vaddr)
    (hf : vaddr < ((mprotectSplit depth u.space vaddr n).region q).fin) :
    (if n = 0 then r.ret ≠ 0 ∧ r.user.archMmu = u.archMmu else r.ret = 0 ∧ r.passed = some (vaddr,n/PAGE_SIZE)) ∧
      ∀ x < 2^32, flagsAt r.user.space x =
        if ((mprotectSplit depth u.space vaddr n).region q).range.base ≤ x ∧ x < ((mprotectSplit depth u.space vaddr n).region q).fin then
          some (mprotectFlags prot ((mprotectSplit depth u.space vaddr n).region (losRegionFind u.space vaddr)).regionFlags)
        else flagsAt (mprotectSplit depth u.space vaddr n) x := by
  have hcount : n >>> PAGE_SHIFT = n/PAGE_SIZE := Nat.shiftRight_eq_div_pow n 12
  rw [UserSpace.losDoMprotect, if_neg (not_not_intro hc)] at hr
  simp only [hal, hcount, regionFind_eq h' hq hb hf, if_neg (h'.ne_zero hq)] at hr
  obtain ⟨⟨m,st⟩,hprot,rfl⟩ := Option.map_eq_some_iff.mp hr
  refine ⟨?_,fun x hx => flagsAt_setRegion h' hq rfl hx⟩
  rcases changeProt_status ha hprot with ⟨hbad,hst,hm⟩ | ⟨hgood,hst⟩
  · have hn0 : n = 0 := by
      obtain ⟨i,hi⟩ := hn
      rw [hi, Nat.mul_div_cancel_left i (by decide)] at hbad
      rw [hi, hbad.resolve_left h0, Nat.mul_zero]
    rw [if_pos hn0]
    refine ⟨?_,hm⟩
    simp only [hst]
    decide
  · have hn0 : n ≠ 0 := by
      rintro rfl
      exact hgood (.inr rfl)
    rw [if_neg hn0]
    exact ⟨if_neg (not_not_intro hst),rfl⟩

/-- What LOS_DoMprotect promises for the pages of [vaddr, vaddr+n), n the rounded length: where it returns 0 they lie in the
region found at vaddr and have the new permissions, every other page has the flags it had, and just they are given to
LOS_ArchMmuChangeProt; where it fails, the region flags and the page table are as before. -/
structure MprotectLaw (u : UserSpace) (vaddr n prot : Nat) (r : MprotectResult) : Prop where
  inside : r.ret = 0 → losRegionFind u.space vaddr ≠ 0 ∧
    ∀ x, vaddr ≤ x → x < vaddr + n → losRegionFind u.space x = losRegionFind u.space vaddr
  changed : r.ret = 0 → ∀ x, vaddr ≤ x → x < vaddr + n → ∃ f, flagsAt r.user.space x = some f ∧
    f &&& VM_MAP_REGION_FLAG_PROT_MASK = osCvtProtFlagsToRegionFlags prot 0
  kept : r.ret = 0 → ∀ x < 2^32, ¬(vaddr ≤ x ∧ x < vaddr + n) → flagsAt r.user.space x = flagsAt u.space x
  passed : r.ret = 0 → r.passed = some (vaddr,n/PAGE_SIZE)
  error : r.ret ≠ 0 → (∀ x < 2^32, flagsAt r.user.space x = flagsAt u.space x) ∧ r.user.archMmu = u.archMmu

/-- Where the law holds the map covers what it covered. -/
theorem MprotectLaw.covered {u : UserSpace} {n : Nat} {r : MprotectResult} (h : MprotectLaw u vaddr n prot r) (hx : x < 2^32)
    (hf : flagsAt u.space x ≠ none) : flagsAt r.user.space x ≠ none := by
  by_cases h0 : r.ret = 0
  · by_cases hin : vaddr ≤ x ∧ x < vaddr + n
    · obtain ⟨f,hf',-⟩ := h.changed h0 x hin.1 hin.2
      rw [hf']
      exact Option.some_ne_none f
    · rw [h.kept h0 x hx hin]
      exact hf
  · rw [(h.error h0).1 x hx]
    exact hf

/-- The splits have their descriptors, the rounded range ends in the region r found at vaddr, an empty range finds the flags
as it leaves them, and what the splits leave behind the range has VM_MAP_REGION_FLAG_FIXED already. -/
structure MprotectFits (s : LosVmSpace) (l : List Nat) (r : LosVmMapRegion) (vaddr n prot : Nat) : Prop where
  descriptors : CanSplit s l vaddr (vaddr + n)
  fits : vaddr + n ≤ r.fin
  empty : n = 0 → mprotectFlags prot r.regionFlags = r.regionFlags
  fixed : 0 < n → vaddr + n < r.fin → r.regionFlags ||| VM_MAP_REGION_FLAG_FIXED = r.regionFlags

/-- The result of a call whose range fits. -/
private theorem losDoMprotect_fits {u : UserSpace} {r : MprotectResult} (h : SpaceInv u.space l) (ha : vaddr < 2^32) (hl : len < 2^32)
    (hr : u.losDoMprotect depth vaddr len prot = some r) (hc : mprotectCheck u.space vaddr len prot = 0) {n : Nat}
    (hn : n = Word.alignUp len PAGE_SIZE) {v : LosVmMapRegion} (hv : v = u.space.region (losRegionFind u.space vaddr))
    (hfit : vaddr + n ≤ v.fin) (hcan : CanSplit u.space l vaddr (vaddr + n)) :
    (if n = 0 then r.ret ≠ 0 ∧ r.user.archMmu = u.archMmu else r.ret = 0 ∧ r.passed = some (vaddr,n/PAGE_SIZE)) ∧
      ∀ x < 2^32, flagsAt r.user.space x =
        if vaddr ≤ x ∧ x < rangeEnd v vaddr n then some (mprotectFlags prot v.regionFlags)
        else if rangeEnd v vaddr n ≤ x ∧ x < v.fin then some (v.regionFlags ||| VM_MAP_REGION_FLAG_FIXED)
        else flagsAt u.space x := by
  obtain ⟨had,hm,h1,h2,hal,-,-⟩ := mprotectCheck_spec h ha hl hc
  rw [← hn] at hal
  rw [← hv] at h1 h2
  have hnd : PAGE_SIZE ∣ n := hn ▸ Word.dvd_alignUp len PAGE_SIZE
  have h0 : vaddr ≠ 0 := by
    have := h.layout.base_pos
    have := (h.ok _ hm).base_le
    rw [← hv] at this
    omega
  obtain ⟨l',q,hcut⟩ := mprotectSplit_cutOut h had hnd hm (hv ▸ h1) (hv ▸ h2) (hv ▸ hfit) hcan
  rw [← hv] at hcut
  have hlt : vaddr < rangeEnd v vaddr n := by
    rw [rangeEnd]
    split_ifs
    · exact h2
    · omega
  obtain ⟨hret,hflags⟩ := losDoMprotect_split had hnd hal h0 hc hr hcut.inv hcut.mem (Nat.le_of_eq hcut.base) (by rw [hcut.fin]; exact hlt)
  refine ⟨hret,fun x hx => ?_⟩
  rw [hflags x hx, hcut.base, hcut.fin, hcut.old.2, ← hv]
  split_ifs with hin hout
  · rfl
  · rw [hcut.others x hx hin, ← hv, if_pos hout]
  · rw [hcut.others x hx hin, ← hv, if_neg hout]

private theorem mprotectSplit_inv (h : SpaceInv s l) (ha : PAGE_SIZE ∣ vaddr) (hlt : vaddr < 2^32) {n : Nat} (hn : PAGE_SIZE ∣ n) :
    ∃ l', SpaceInv (mprotectSplit depth s vaddr n) l' := by
  rw [mprotectSplit]
  split_ifs
  · obtain ⟨s₁,st,l₁,he,h₁,-⟩ := regionAdjust_spec (losUnMMap depth) h ha hlt (page_dvd_add ha hn) (word_add_lt _ _)
    rw [he]
    exact ⟨l₁,h₁⟩
  · exact ⟨l,h⟩

/-- What the splits lose stays lost. -/
private theorem losDoMprotect_lost {u : UserSpace} {r : MprotectResult} {l' : List Nat} (ha : PAGE_SIZE ∣ vaddr)
    {n : Nat} (hlt : vaddr < 2^32) (hn : PAGE_SIZE ∣ n) (hal : losAlign len PAGE_SIZE = n) (h0 : vaddr ≠ 0)
    (hc : mprotectCheck u.space vaddr len prot = 0) (hr : u.losDoMprotect depth vaddr len prot = some r)
    (h' : SpaceInv (mprotectSplit depth u.space vaddr n) l') (hx : x < 2^32)
    (hlost : flagsAt (mprotectSplit depth u.space vaddr n) x = none) : flagsAt r.user.space x = none := by
  rcases regionFind_spec h'.regionMap hlt with ⟨hq,hb,hf⟩ | ⟨hq,-⟩
  · rw [(losDoMprotect_split ha hn hal h0 hc hr h' hq hb hf).2 x hx, if_neg, hlost]
    intro hin
    rw [flagsAt_eq h' hq hin.1 hin.2] at hlost
    cases hlost
  · rw [UserSpace.losDoMprotect, if_neg (not_not_intro hc)] at hr
    simp only [hal, hq, if_true] at hr
    cases hr
    exact hlost

/-- The law makes the splits work and the range end in its region. -/
private theorem MprotectLaw.splits {u : UserSpace} {r : MprotectResult} (h : SpaceInv u.space l) (ha : vaddr < 2^32) (hl : len < 2^32)
    (hr : u.losDoMprotect depth vaddr len prot = some r) (hc : mprotectCheck u.space vaddr len prot = 0) {n : Nat}
    (hn : n = Word.alignUp len PAGE_SIZE) {v : LosVmMapRegion} (hv : v = u.space.region (losRegionFind u.space vaddr))
    (hlaw : MprotectLaw u vaddr n prot r) : vaddr + n ≤ v.fin ∧ CanSplit u.space l vaddr (vaddr + n) := by
  obtain ⟨had,hm,h1,h2,hal,hle,hadd⟩ := mprotectCheck_spec h ha hl hc
  rw [← hn] at hal hle hadd
  rw [← hv] at h1 h2 hadd
  have hnd : PAGE_SIZE ∣ n := hn ▸ Word.dvd_alignUp len PAGE_SIZE
  have h0 : vaddr ≠ 0 := by
    have := h.layout.base_pos
    have := (h.ok _ hm).base_le
    rw [← hv] at this
    omega
  have hvfin : v.fin < 2^32 := hv ▸ h.fin_lt hm
  obtain ⟨l',h'⟩ := mprotectSplit_inv h had ha hnd
  have hlost : ∀ y < 2^32, flagsAt u.space y ≠ none → flagsAt (mprotectSplit depth u.space vaddr n) y ≠ none := by
    intro y hy hf hno
    exact hlaw.covered hy hf (losDoMprotect_lost had ha hnd hal h0 hc hr h' hy hno)
  have hcan : n < v.range.size → CanSplit u.space l vaddr (Word.add vaddr n) := by
    intro hsize
    rcases regionAdjust_covers (losUnMMap depth) h had ha (page_dvd_add had hnd) with ⟨hcan,-⟩ | ⟨-,-,y,p,hp,hno⟩
    · exact hcan
    · obtain ⟨hpl,hpb,hpf⟩ := h.covers_iff.mp hp
      have hy : y < 2^32 := hpf.trans (h.fin_lt hpl)
      refine absurd ?_ (hlost y hy (by rw [flagsAt_eq h hpl hpb hpf]; exact Option.some_ne_none _))
      rw [mprotectSplit, ← hv, if_pos hsize] at h' ⊢
      exact flagsAt_none h' hy fun z hz hc => hno z (h'.covers_iff.mpr ⟨hz,hc⟩)
  have hfit : vaddr + n ≤ v.fin := by
    by_contra hgt
    -- only a range up to 2^32 passes the check behind its region, and it is not in the region
    have hwrap : vaddr + n = 2^32 := by
      by_contra hne
      rw [Word.add_eq (by omega)] at hadd
      exact hgt hadd
    rcases regionFind_spec h'.regionMap ha with ⟨hq,hb,hf⟩ | ⟨hq,-⟩
    · have hret := (losDoMprotect_split had hnd hal h0 hc hr h' hq hb hf).1
      rw [if_neg (by omega)] at hret
      have hin := (hlaw.inside hret.1).2 v.fin (by omega) (by omega)
      rcases regionFind_spec h.regionMap hvfin with ⟨-,-,hlast⟩ | ⟨hz,-⟩
      · rw [hin, ← hv] at hlast
        exact Nat.lt_irrefl _ hlast
      · exact h.ne_zero hm (hin ▸ hz)
    · refine hlost vaddr ha ?_ (by rw [flagsAt, if_pos hq])
      rw [flagsAt_eq h hm (hv ▸ h1) (hv ▸ h2)]
      exact Option.some_ne_none _
  refine ⟨hfit,?_⟩
  by_cases hsize : n < v.range.size
  · rw [← Word.add_eq (show vaddr + n < 2^32 by omega)]
    exact hcan hsize
  · -- the range is the whole region
    have hvf : v.fin = v.range.base + v.range.size := rfl
    have hcut1 : Cut u.space l vaddr := cut_of_end h hm (.inl (by rw [← hv]; omega))
    have hcut2 : Cut u.space l (vaddr + n) := cut_of_end h hm (.inr (by rw [← hv]; omega))
    exact ⟨fun hno => absurd hcut1 hno,fun hno => absurd hcut2 hno⟩

/-- LOS_DoMprotect keeps its promise where a check fails, or the range fits. -/
theorem mprotectLaw_iff {u : UserSpace} {r : MprotectResult} (h : SpaceInv u.space l) (ha : vaddr < 2^32) (hl : len < 2^32)
    (hr : u.losDoMprotect depth vaddr len prot = some r) :
    MprotectLaw u vaddr (Word.alignUp len PAGE_SIZE) prot r ↔ mprotectCheck u.space vaddr len prot ≠ 0 ∨
      MprotectFits u.space l (u.space.region (losRegionFind u.space vaddr)) vaddr (Word.alignUp len PAGE_SIZE) prot := by
  generalize hn : Word.alignUp len PAGE_SIZE = n
  generalize hv : u.space.region (losRegionFind u.space vaddr) = v
  by_cases hc : mprotectCheck u.space vaddr len prot ≠ 0
  · -- nothing has changed
    rw [UserSpace.losDoMprotect, if_pos hc] at hr
    cases hr
    exact iff_of_true ⟨fun h0 => absurd h0 hc,fun h0 => absurd h0 hc,fun h0 => absurd h0 hc,fun h0 => absurd h0 hc,
      fun _ => ⟨fun _ _ => rfl,rfl⟩⟩ (.inl hc)
  rw [not_not] at hc
  obtain ⟨-,hm,h1,h2,-⟩ := mprotectCheck_spec h ha hl hc
  rw [hv] at h1 h2
  have hvfin : v.fin < 2^32 := hv ▸ h.fin_lt hm
  have hold : ∀ x, vaddr ≤ x → x < v.fin → flagsAt u.space x = some v.regionFlags := by
    intro x hx1 hx2
    rw [flagsAt_eq h hm (by rw [hv]; omega) (by rw [hv]; exact hx2), hv]
  constructor
  · intro hlaw
    obtain ⟨hfit,hcan⟩ := hlaw.splits h ha hl hr hc hn.symm hv.symm
    obtain ⟨hret,hflags⟩ := losDoMprotect_fits h ha hl hr hc hn.symm hv.symm hfit hcan
    refine .inr ⟨hcan,hfit,fun hn0 => ?_,fun hn0 hlt => ?_⟩
    · rw [if_pos hn0] at hret
      have hsame := (hlaw.error hret.1).1 vaddr ha
      rw [hflags vaddr ha, hold vaddr (Nat.le_refl _) h2, rangeEnd, if_pos hn0, if_pos ⟨Nat.le_refl _,h2⟩] at hsame
      exact Option.some.inj hsame
    · have hn0' : n ≠ 0 := Nat.ne_of_gt hn0
      rw [if_neg hn0'] at hret
      have hsame := hlaw.kept hret.1 (vaddr + n) (by omega) (by omega)
      rw [hflags _ (by omega), hold _ (by omega) hlt, rangeEnd, if_neg hn0', if_neg (by omega),
        if_pos ⟨Nat.le_refl _,hlt⟩] at hsame
      exact Option.some.inj hsame
  · rintro (hbad | hfits)
    · exact absurd hc hbad
    obtain ⟨hret,hflags⟩ := losDoMprotect_fits h ha hl hr hc hn.symm hv.symm hfits.fits hfits.descriptors
    have hfit := hfits.fits
    by_cases hn0 : n = 0
    · rw [if_pos hn0] at hret
      have hne := hret.1
      refine ⟨fun h0 => absurd h0 hne,fun h0 => absurd h0 hne,fun h0 => absurd h0 hne,fun h0 => absurd h0 hne,
        fun _ => ⟨fun x hx => ?_,hret.2⟩⟩
      rw [hflags x hx, rangeEnd, if_pos hn0]
      split_ifs with hin hout
      · rw [hold x hin.1 hin.2, hfits.empty hn0]
      · omega
      · rfl
    · rw [if_neg hn0] at hret
      have hend : rangeEnd v vaddr n = vaddr + n := if_neg hn0
      refine ⟨fun _ => ⟨h.ne_zero hm,fun x hx1 hx2 => ?_⟩,fun _ x hx1 hx2 => ?_,fun _ x hx hout => ?_,fun _ => hret.2,
        fun hne => absurd hret.1 hne⟩
      · exact regionFind_eq h hm (by rw [hv]; omega) (by rw [hv]; omega)
      · rw [hflags x (by omega), hend, if_pos ⟨hx1,hx2⟩]
        exact ⟨_,rfl,mprotectFlags_prot prot _⟩
      · rw [hflags x hx, hend, if_neg hout]
        split_ifs with hin
        · rw [hold x (by omega) hin.2, hfits.fixed (by omega) (by omega)]
        · rfl

/-- A page table with the first two pages of the mapping window. -/
def twoPages : LosArchMmu where
  virtTtb i := if i = osGetPte1Index USER_MAP_BASE then 0x80000001 else 0
  pte2 a := if a = 0x80000000 then 0x80100832 else if a = 0x80000004 then 0x80101832 else 0
  ptList := [0x80000000]
  physPages := []

/-- The middle one of three pages becomes read-only, the third one is split off. -/
theorem mprotectLaw_iff_threePages : ∃ l r, SpaceInv (threePages [3,4]) l ∧
    UserSpace.losDoMprotect 3 ⟨threePages [3,4],twoPages⟩ (USER_MAP_BASE + 4096) 100 PROT_READ = some r ∧
    (MprotectLaw ⟨threePages [3,4],twoPages⟩ (USER_MAP_BASE + 4096) (Word.alignUp 100 PAGE_SIZE) PROT_READ r ↔
      mprotectCheck (threePages [3,4]) (USER_MAP_BASE + 4096) 100 PROT_READ ≠ 0 ∨
        MprotectFits (threePages [3,4]) l ((threePages [3,4]).region (losRegionFind (threePages [3,4]) (USER_MAP_BASE + 4096)))
          (USER_MAP_BASE + 4096) (Word.alignUp 100 PAGE_SIZE) PROT_READ) := by
  obtain ⟨l,h⟩ := threePages_inv [3,4]
  have hsome : (UserSpace.losDoMprotect 3 ⟨threePages [3,4],twoPages⟩ (USER_MAP_BASE + 4096) 100 PROT_READ).isSome = true := by
    decide +kernel
  obtain ⟨r,hr⟩ := Option.isSome_iff_exists.mp hsome
  exact ⟨l,r,h,hr,mprotectLaw_iff h (by decide) (by decide) hr⟩

/-- With one descriptor left the call returns 0 and the third page is in no region any more. -/
theorem mprotectLaw_fails : ¬ ∀ (u : UserSpace) (l : List Nat) (vaddr len prot : Nat) (r : MprotectResult), SpaceInv u.space l →
    vaddr < 2^32 → len < 2^32 → u.losDoMprotect 3 vaddr len prot = some r →
      MprotectLaw u vaddr (Word.alignUp len PAGE_SIZE) prot r := by
  intro hall
  obtain ⟨l,h⟩ := threePages_inv [3]
  have hsome : ((UserSpace.losDoMprotect 3 ⟨threePages [3],twoPages⟩ (USER_MAP_BASE + 4096) 4096 PROT_READ).map fun r =>
      (r.ret,flagsAt r.user.space (USER_MAP_BASE + 8192))) = some (0,none) := by
    decide +kernel
  obtain ⟨r,hr,he⟩ := Option.map_eq_some_iff.mp hsome
  obtain ⟨h0,hlost⟩ := Prod.mk.inj he
  have hkept := (hall _ l _ 4096 PROT_READ r h (by decide) (by decide) hr).kept h0 (USER_MAP_BASE + 8192) (by decide) (by decide +kernel)
  rw [hlost] at hkept
  exact absurd hkept (by decide +kernel)

end LiteOsKernel.Vm
