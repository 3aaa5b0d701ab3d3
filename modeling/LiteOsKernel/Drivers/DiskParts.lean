import LiteOsKernel.Drivers.Disk
import Mathlib.Data.List.Pairwise

/-! Which partitions keep their reads and writes to themselves: the range test of a request is made only behind the start of the first
partition of the list. -/
namespace LiteOsKernel.Drivers

namespace LosPart

def sectorEnd (p : LosPart) : Nat := p.sectorStart + p.sectorCount

/-- The sector belongs to the partition. -/
def Holds (p : LosPart) (t : Nat) : Prop := p.sectorStart ≤ t ∧ t < p.sectorEnd

end LosPart

/-- A disk with its partitions registered: each lies on the disk, and no two share a sector. -/
structure Registered (disk : LosDisk) : Prop where
  size : disk.sectorCount < 2^64
  inside : ∀ p ∈ disk.head, p.sectorEnd ≤ disk.sectorCount
  disjoint : disk.head.Pairwise fun p q => ∀ t, p.Holds t → ¬ q.Holds t

/-- A request served at r touches only sectors of the partition and sectors in front of every partition, none of another partition,
and its end does not wrap around. -/
structure Confined (disk : LosDisk) (part : LosPart) (r : Nat × Nat) : Prop where
  own : ∀ t, r.1 ≤ t → t < r.1 + r.2 → part.Holds t ∨ ∀ q ∈ disk.head, t < q.sectorStart
  others : ∀ q ∈ disk.head, q ≠ part → ∀ t, r.1 ≤ t → t < r.1 + r.2 → ¬ q.Holds t
  noWrap : r.1 + r.2 < 2^64

/-- Every read and write through the partition that is served is confined. -/
def PartConfined (disk : LosDisk) (part : LosPart) : Prop :=
  ∀ buf, ∀ sector < 2^64, ∀ count < 2^32, ∀ io,
    (∀ r, losPartRead disk part buf sector count io = some r → Confined disk part r) ∧
    (∀ r, losPartWrite disk part buf sector count io = some r → Confined disk part r)

/-- The most sectors that a request through the partition can move. -/
def maxCount (disk : LosDisk) (part : LosPart) : Nat :=
  if part.dev = false ∨ disk.diskStatus ≠ .inused then 0
  else match disk.bcache with
    | none => 0
    | some sectorSize => min part.sectorCount (if sectorSize = 0 then UINT_MAX else UINT_MAX/sectorSize)

/-- No partition starts in front of the sector. -/
def Lowest (disk : LosDisk) (sector : Nat) : Prop := ∀ q ∈ disk.head, sector ≤ q.sectorStart

instance (disk : LosDisk) (sector : Nat) : Decidable (Lowest disk sector) := inferInstanceAs (Decidable (∀ q ∈ _, _))

/-- The list starts inside the partition or at its end, and no request in front of that reaches past the partition. -/
def FirstWithin (disk : LosDisk) (part : LosPart) : Prop :=
  getFirstPartStart disk ≤ part.sectorEnd ∧
    (getFirstPartStart disk + maxCount disk part ≤ part.sectorEnd + 1 ∨ part.sectorEnd = disk.sectorCount)

/-- The condition on the layout of the partitions. -/
def PartSafe (disk : LosDisk) (part : LosPart) : Prop :=
  maxCount disk part = 0 ∨
    if part.type = EMMC then getFirstPartStart disk ≤ part.sectorStart ∨ FirstWithin disk part
    else
      Lowest disk (getFirstPartStart disk) ∧
        (getFirstPartStart disk = 0 ∨ maxCount disk part = 1 ∨ part.sectorStart = getFirstPartStart disk) ∨
      Lowest disk part.sectorStart ∧ FirstWithin disk part

/-- What it takes for a request through a partition to be served at sector s of the disk. -/
structure Serves (disk : LosDisk) (part : LosPart) (sector count s : Nat) : Prop where
  pos : 0 < count
  most : count ≤ maxCount disk part
  start : if part.type = EMMC then part.sectorStart + sector < disk.sectorCount ∧ s = part.sectorStart + sector else s = sector
  fit : s + count ≤ disk.sectorCount
  test : s < getFirstPartStart disk ∨ part.sectorStart ≤ s ∧ s + count ≤ part.sectorEnd

section
variable {disk : LosDisk} {part : LosPart} {buf : Bool} {sector count s : Nat} {io : Nat → Nat → Int} {r : Nat × Nat}

private theorem diskTransfer_some (h : diskTransfer disk buf sector count io = some r) (hd : disk.sectorCount < 2^64) :
    r = (sector,count) ∧ 0 < count ∧ sector + count ≤ disk.sectorCount ∧
      ∃ sectorSize, disk.bcache = some sectorSize ∧ sectorSize*count ≤ UINT_MAX := by
  rw [diskTransfer] at h
  split at h
  · cases h
  split at h
  · cases h
  split at h
  · cases h
  rename_i h1 h2 h3
  cases hb : disk.bcache with
  | none =>
    rw [hb] at h
    cases h
  | some sectorSize =>
    rw [hb] at h
    simp only at h
    split at h
    · cases h
    split at h
    · cases h
    rename_i h4 h5
    rw [not_or, not_lt, not_lt] at h3
    rw [sub64_eq h3.1 hd] at h3
    rw [not_or] at h1
    exact ⟨(Option.some.inj h).symm,by omega,by omega,sectorSize,rfl,not_lt.mp h4⟩

private theorem losDiskWrite_some (h : losDiskWrite disk buf sector count io = some r) : losDiskRead disk buf sector count io = some r := by
  rw [losDiskWrite] at h
  split at h
  · cases h
  · exact h

private theorem losPartWrite_some (h : losPartWrite disk part buf sector count io = some r) :
    losPartRead disk part buf sector count io = some r := by
  rw [losPartWrite, partTransfer] at h
  rw [losPartRead, partTransfer]
  split at h
  · cases h
  rw [if_neg (by assumption)]
  split at h
  · cases h
  rw [if_neg (by assumption)]
  cases hs : absoluteSector disk part sector with
  | none =>
    rw [hs] at h
    cases h
  | some s =>
    rw [hs] at h
    simp only at h ⊢
    split at h
    · cases h
    rw [if_neg (by assumption)]
    exact losDiskWrite_some h

private theorem maxCount_le : maxCount disk part ≤ part.sectorCount := by
  rw [maxCount]
  split
  · exact Nat.zero_le _
  split
  · exact Nat.zero_le _
  · exact Nat.min_le_left _ _

private theorem maxCount_lt : maxCount disk part < 2^32 := by
  rw [maxCount]
  split
  · decide
  split
  · decide
  · refine (Nat.min_le_right _ _).trans_lt ?_
    split
    · decide
    · exact (Nat.div_le_self _ _).trans_lt (by decide)

private theorem le_maxCount {sectorSize : Nat} (hp : ¬ (part.dev = false ∨ disk.diskStatus ≠ .inused)) (hb : disk.bcache = some sectorSize)
    (hc : count < 2^32) : count ≤ maxCount disk part ↔ count ≤ part.sectorCount ∧ sectorSize*count ≤ UINT_MAX := by
  rw [maxCount, if_neg hp, hb]
  simp only [Nat.le_min]
  refine and_congr_right fun _ => ?_
  by_cases h0 : sectorSize = 0
  · rw [if_pos h0, h0, Nat.zero_mul, UINT_MAX]
    omega
  · rw [if_neg h0, Nat.le_div_iff_mul_le (Nat.pos_of_ne_zero h0), Nat.mul_comm]

/-- The sector that a request starts at, on a disk with its partitions registered. -/
private theorem absoluteSector_eq (h : Registered disk) (hp : part ∈ disk.head) :
    absoluteSector disk part sector = some s ↔
      if part.type = EMMC then part.sectorStart + sector < disk.sectorCount ∧ s = part.sectorStart + sector else s = sector := by
  have hin := h.inside part hp
  have hsize := h.size
  rw [LosPart.sectorEnd] at hin
  rw [absoluteSector]
  by_cases ht : part.type = EMMC
  · rw [if_pos ht, if_pos ht, sub64_eq (by omega) hsize]
    by_cases hlt : sector < disk.sectorCount - part.sectorStart
    · rw [if_pos hlt, add64_eq (by omega)]
      constructor
      · rintro he
        have := Option.some.inj he
        omega
      · rintro ⟨-,rfl⟩
        rw [Nat.add_comm]
    · rw [if_neg hlt]
      constructor
      · intro he
        cases he
      · rintro ⟨hs,-⟩
        omega
  · rw [if_neg ht, if_neg ht, Option.some_inj, eq_comm]

/-- A request that is served. -/
private theorem losPartRead_some (h : Registered disk) (hp : part ∈ disk.head) (hc : count < 2^32)
    (hr : losPartRead disk part buf sector count io = some r) : ∃ s, r = (s,count) ∧ Serves disk part sector count s := by
  have hin := h.inside part hp
  have hsize := h.size
  rw [losPartRead, partTransfer] at hr
  split at hr
  · cases hr
  split at hr
  · cases hr
  rename_i hdev hcount
  cases hs : absoluteSector disk part sector with
  | none =>
    rw [hs] at hr
    cases hr
  | some s =>
    rw [hs] at hr
    simp only at hr
    split at hr
    · cases hr
    rename_i htest
    obtain ⟨rfl,hpos,hfit,sectorSize,hb,hsz⟩ := diskTransfer_some hr hsize
    refine ⟨s,rfl,hpos,(le_maxCount hdev hb hc).mpr ⟨not_lt.mp hcount,hsz⟩,(absoluteSector_eq h hp).mp hs,hfit,?_⟩
    have hend : part.sectorEnd = part.sectorStart + part.sectorCount := rfl
    rw [add64_eq (by omega), add64_eq (by omega)] at htest
    omega

/-- A request that meets the conditions is served by a device that answers. -/
theorem Serves.read (h : Registered disk) (hp : part ∈ disk.head) (hs : Serves disk part sector count s) (hc : count < 2^32) :
    losPartRead disk part true sector count (fun _ _ => 0) = some (s,count) := by
  have hin := h.inside part hp
  have hsize := h.size
  have hpos := hs.pos
  have hmost := hs.most
  have hfit := hs.fit
  have htest := hs.test
  have hdev : ¬ (part.dev = false ∨ disk.diskStatus ≠ .inused) := by
    intro hdev
    rw [maxCount, if_pos hdev] at hmost
    omega
  cases hb : disk.bcache with
  | none =>
    rw [maxCount, if_neg hdev, hb] at hmost
    simp only at hmost
    omega
  | some sectorSize =>
    obtain ⟨hcount,hsz⟩ := (le_maxCount hdev hb hc).mp hmost
    rw [losPartRead, partTransfer, if_neg hdev, if_neg (not_lt.mpr hcount), (absoluteSector_eq h hp).mpr hs.start]
    simp only
    have hend : part.sectorEnd = part.sectorStart + part.sectorCount := rfl
    rw [add64_eq (by omega), add64_eq (by omega), if_neg (by omega), losDiskRead, diskTransfer, if_neg (by simp; omega),
      if_neg (fun hst => hdev (.inr hst)), sub64_eq (by omega) hsize, if_neg (by omega), hb]
    simp only
    rw [if_neg (not_lt.mpr hsz), if_neg (not_not.mpr rfl)]

/-- A sector of a partition belongs to no other. -/
private theorem Registered.not_holds (h : Registered disk) (hp : part ∈ disk.head) {q : LosPart} (hq : q ∈ disk.head) (hne : q ≠ part) {t : Nat}
    (ht : part.Holds t) : ¬ q.Holds t := by
  have hsymm : Std.Symm fun p q : LosPart => ∀ t, p.Holds t → ¬ q.Holds t := ⟨fun _ _ h t hq hp => h t hp hq⟩
  exact h.disjoint.forall hp hq hne.symm t ht

theorem Registered.confined (h : Registered disk) (hp : part ∈ disk.head) (hfit : r.1 + r.2 ≤ disk.sectorCount)
    (hown : ∀ t, r.1 ≤ t → t < r.1 + r.2 → part.Holds t ∨ ∀ q ∈ disk.head, t < q.sectorStart) : Confined disk part r := by
  refine ⟨hown,fun q hq hne t h1 h2 => ?_,hfit.trans_lt h.size⟩
  rcases hown t h1 h2 with ht | ht
  · exact h.not_holds hp hq hne ht
  · exact fun hqt => absurd (ht q hq) (not_lt.mpr hqt.1)

/-- On a safe layout every request that is served is confined. -/
theorem Serves.confined (h : Registered disk) (hp : part ∈ disk.head) (hs : Serves disk part sector count s) (hsafe : PartSafe disk part) :
    Confined disk part (s,count) := by
  refine h.confined hp hs.fit fun t h1 h2 => ?_
  simp only at h1 h2
  have hpos := hs.pos
  have hmost := hs.most
  have hle : maxCount disk part ≤ part.sectorCount := maxCount_le
  have hfit := hs.fit
  have hstart := hs.start
  have hin := h.inside part hp
  have hfirst : FirstWithin disk part → s < getFirstPartStart disk → t < part.sectorEnd := by
    rintro ⟨hf,hf' | hf'⟩ hlt <;> omega
  rw [LosPart.Holds]
  rcases hs.test with htest | htest
  · rcases hsafe with hzero | hsafe
    · omega
    · by_cases ht : part.type = EMMC
      · rw [if_pos ht] at hsafe hstart
        rcases hsafe with hsafe | hsafe
        · omega
        · exact .inl ⟨by omega,hfirst hsafe htest⟩
      · rw [if_neg ht] at hsafe
        rcases hsafe with ⟨hlow,hcase⟩ | ⟨hlow,hsafe⟩
        · by_cases htf : t < getFirstPartStart disk
          · exact .inr fun q hq => htf.trans_le (hlow q hq)
          · left
            have := hlow part hp
            rw [LosPart.sectorEnd]
            omega
        · by_cases hts : part.sectorStart ≤ t
          · exact .inl ⟨hts,hfirst hsafe htest⟩
          · exact .inr fun q hq => (not_le.mp hts).trans_le (hlow q hq)
  · exact .inl ⟨by omega,by omega⟩

/-- A request that is served and touches a sector behind the start of some partition, but not of its own. -/
private theorem not_partConfined (h : Registered disk) (hp : part ∈ disk.head) (hs : Serves disk part sector count s) (hsec : sector < 2^64)
    (hc : count < 2^32) {t : Nat} (h1 : s ≤ t) (h2 : t < s + count) (ht : ¬ part.Holds t) {q : LosPart} (hq : q ∈ disk.head)
    (hqt : q.sectorStart ≤ t) : ¬ PartConfined disk part := by
  intro hconf
  have hread := (hconf true sector hsec count hc fun _ _ => 0).1 _ (hs.read h hp hc)
  rcases hread.own t h1 h2 with hown | hfront
  · exact ht hown
  · exact absurd (hfront q hq) (not_lt.mpr hqt)

/-- Where the list starts behind the partition or reaches past it, some request that is served touches the sector behind it. -/
private theorem not_partConfined_of_end (h : Registered disk) (hp : part ∈ disk.head) (hm : maxCount disk part ≠ 0)
    (hlt : part.sectorStart < getFirstPartStart disk) (hf : getFirstPartStart disk ≤ disk.sectorCount)
    (hn : ¬ FirstWithin disk part) : ¬ PartConfined disk part := by
  have hle : maxCount disk part ≤ part.sectorCount := maxCount_le
  have hin := h.inside part hp
  have hsize := h.size
  have hm32 : maxCount disk part < 2^32 := maxCount_lt
  have hend : part.sectorEnd = part.sectorStart + part.sectorCount := rfl
  rw [FirstWithin, not_and_or, not_or, not_le, not_le] at hn
  have hout : ¬ part.Holds part.sectorEnd := fun ht => Nat.lt_irrefl _ ht.2
  by_cases hcase : part.sectorEnd < getFirstPartStart disk
  · obtain ⟨sector,hsec⟩ : ∃ sector, sector = if part.type = EMMC then part.sectorCount else part.sectorEnd := ⟨_,rfl⟩
    have hs : Serves disk part sector 1 part.sectorEnd := by
      refine ⟨by omega,by omega,?_,by omega,.inl hcase⟩
      by_cases ht : part.type = EMMC
      · rw [if_pos ht] at hsec ⊢
        omega
      · rw [if_neg ht] at hsec ⊢
        exact hsec.symm
    refine not_partConfined h hp hs ?_ (by omega) (Nat.le_refl _) (by omega) hout hp (by omega)
    rw [hsec]
    split <;> omega
  · have hreach := hn.resolve_left hcase
    obtain ⟨sector,hsec⟩ : ∃ sector, sector = if part.type = EMMC then getFirstPartStart disk - 1 - part.sectorStart
      else getFirstPartStart disk - 1 := ⟨_,rfl⟩
    have hs : Serves disk part sector (part.sectorEnd + 2 - getFirstPartStart disk) (getFirstPartStart disk - 1) := by
      refine ⟨by omega,by omega,?_,by omega,.inl (by omega)⟩
      by_cases ht : part.type = EMMC
      · rw [if_pos ht] at hsec ⊢
        omega
      · rw [if_neg ht] at hsec ⊢
        exact hsec.symm
    refine not_partConfined h hp hs ?_ (by omega) ?_ ?_ hout hp (by omega)
    · rw [hsec]
      split <;> omega
    · omega
    · omega

/-- A partition keeps its requests to itself exactly when the layout is safe. -/
theorem partConfined_iff (h : Registered disk) (hp : part ∈ disk.head) : PartConfined disk part ↔ PartSafe disk part := by
  have hle : maxCount disk part ≤ part.sectorCount := maxCount_le
  have hin := h.inside part hp
  have hsize := h.size
  have hend : part.sectorEnd = part.sectorStart + part.sectorCount := rfl
  obtain ⟨first,hfirst,hstart⟩ : ∃ first ∈ disk.head, getFirstPartStart disk = first.sectorStart := by
    cases hh : disk.head with
    | nil =>
      rw [hh] at hp
      exact absurd hp List.not_mem_nil
    | cons first rest => exact ⟨first,List.mem_cons_self,by rw [getFirstPartStart, hh]⟩
  have hf : getFirstPartStart disk ≤ disk.sectorCount := by
    have h1 := h.inside first hfirst
    have h2 : first.sectorEnd = first.sectorStart + first.sectorCount := rfl
    omega
  constructor
  · intro hconf
    by_contra hsafe
    rw [PartSafe, not_or] at hsafe
    obtain ⟨hm,hsafe⟩ := hsafe
    by_cases ht : part.type = EMMC
    · rw [if_pos ht, not_or, not_le] at hsafe
      exact not_partConfined_of_end h hp hm hsafe.1 hf hsafe.2 hconf
    · rw [if_neg ht, not_or, not_and_or, not_and_or] at hsafe
      obtain ⟨hlow,hwithin⟩ := hsafe
      have hserve : ∀ s count, 0 < count → count ≤ maxCount disk part → s + count ≤ disk.sectorCount → s < getFirstPartStart disk →
          Serves disk part s count s := fun s count h1 h2 h3 h4 => ⟨h1,h2,by rw [if_neg ht],h3,.inl h4⟩
      by_cases hlowest : Lowest disk (getFirstPartStart disk)
      · have hbad := hlow.resolve_left (not_not.mpr hlowest)
        have := hlowest part hp
        refine not_partConfined h hp (hserve (getFirstPartStart disk - 1) 2 (by omega) (by omega) (by omega) (by omega)) (by omega)
          (by omega) (t := getFirstPartStart disk) (by omega) (by omega) ?_ hfirst (by omega) hconf
        exact fun hold => absurd hold.1 (by omega)
      · obtain ⟨q,hq,hqlt⟩ : ∃ q ∈ disk.head, q.sectorStart < getFirstPartStart disk := by
          simpa only [Lowest, not_forall, not_le, exists_prop] using hlowest
        have hpoint : ∀ q ∈ disk.head, q.sectorStart < getFirstPartStart disk → part.Holds q.sectorStart := by
          intro q hq hqlt
          by_contra hold
          exact not_partConfined h hp (hserve q.sectorStart 1 (by omega) (by omega) (by omega) hqlt) (by omega) (by omega)
            (Nat.le_refl _) (by omega) hold hq (Nat.le_refl _) hconf
        have hlt := (hpoint q hq hqlt).1.trans_lt hqlt
        have hlowp : Lowest disk part.sectorStart := by
          intro q' hq'
          by_cases hq'lt : q'.sectorStart < getFirstPartStart disk
          · exact (hpoint q' hq' hq'lt).1
          · omega
        exact not_partConfined_of_end h hp hm hlt hf (hwithin.resolve_left (not_not.mpr hlowp)) hconf
  · intro hsafe buf sector _ count hc io
    have hread : ∀ r, losPartRead disk part buf sector count io = some r → Confined disk part r := by
      intro r hr
      obtain ⟨s,rfl,hs⟩ := losPartRead_some h hp hc hr
      exact hs.confined h hp hsafe
    exact ⟨hread,fun r hr => hread r (losPartWrite_some hr)⟩

/-- A partition that is added apart from the others keeps the disk registered. -/
theorem Registered.add (h : Registered disk) {start count : Nat} {valid : Bool} {a : AddPartAnswers} {disk' : LosDisk}
    (hadd : diskAddPart disk start count valid a = some disk')
    (hapart : ∀ p ∈ disk.head, ∀ t, p.Holds t → t < start ∨ start + count ≤ t) : Registered disk' := by
  have hsize := h.size
  rw [diskAddPart] at hadd
  split at hadd
  · cases hadd
  split at hadd
  · cases hadd
  split at hadd
  · cases hadd
  split at hadd
  · cases hadd
  rename_i _ hrange _ _
  obtain rfl := Option.some.inj hadd
  rw [not_or, not_lt, not_lt] at hrange
  rw [sub64_eq hrange.1 hsize] at hrange
  refine ⟨hsize,?_,?_⟩
  · intro p hp
    rcases List.mem_append.mp hp with hp | hp
    · exact h.inside p hp
    · obtain rfl := List.mem_singleton.mp hp
      simp only [LosPart.sectorEnd]
      omega
  · refine List.pairwise_append.mpr ⟨h.disjoint,List.pairwise_singleton _ _,?_⟩
    intro p hp q hq t hpt hqt
    obtain rfl := List.mem_singleton.mp hq
    have h1 := hqt.1
    have h2 := hqt.2
    simp only [LosPart.sectorEnd] at h1 h2
    have := hapart p hp t hpt
    omega

end

/-- A disk of 1000 sectors with the partitions 100 to 199 and 200 to 299. -/
def twoParts : LosDisk :=
  ⟨.inused,true,true,some 512,512,1000,0,[⟨true,0,0,1,100,100⟩,⟨true,0,0,2,200,100⟩]⟩

private theorem registered_twoParts : Registered twoParts := by
  refine ⟨by decide,by decide,List.pairwise_cons.mpr ⟨?_,List.pairwise_singleton _ _⟩⟩
  intro q hq t h1 h2
  obtain rfl := List.mem_singleton.mp hq
  have hlt : t < 200 := h1.2
  have hge : 200 ≤ t := h2.1
  omega

theorem partConfined_first : PartConfined twoParts ⟨true,0,0,1,100,100⟩ :=
  (partConfined_iff registered_twoParts (by decide)).mpr (.inr (.inl ⟨by decide,.inr (.inr rfl)⟩))

/-- Two sectors written through the second partition from sector 99 on: the second of them is the first of the first partition. -/
theorem not_partConfined_second : Registered twoParts ∧ ¬ PartConfined twoParts ⟨true,0,0,2,200,100⟩ := by
  have hs : Serves twoParts ⟨true,0,0,2,200,100⟩ 99 2 99 := ⟨by decide,by decide,rfl,by decide,.inl (by decide)⟩
  have hfirst : (⟨true,0,0,1,100,100⟩ : LosPart) ∈ twoParts.head := List.mem_cons_self
  refine ⟨registered_twoParts,?_⟩
  refine not_partConfined registered_twoParts (by decide) hs (by decide) (by decide) (t := 100) (by decide) (by decide) ?_ hfirst
    (Nat.le_refl _)
  exact fun hold => absurd hold.1 (by decide)

end LiteOsKernel.Drivers
