import LiteOsKernel.Vm.SyscallRun

/-! Where OsAllocRange looks: the first free range from the base of the mapping window on, which may lie outside it. -/
namespace LiteOsKernel.Vm
open Rbtree LosVmSpace LosVmMapRegion

variable {s : LosVmSpace} {l : List Nat} {a e n len : Nat}

namespace RegionMap

theorem successor (h : RegionMap s l) {done rest : List Nat} {x : Nat} (hl : l = done ++ x :: rest) :
    losRbSuccessorNode s.regionRbTree x = rest.head?.getD 0 := by
  obtain ⟨T,hr,-,hin⟩ := h.tree
  exact losRbSuccessorNode_eq hr (by rw [hin]; exact Nat.le_succ_of_le (Nat.le_of_eq h.length_eq)) (hin.trans hl)

theorem first (h : RegionMap s l) : losRbFirstNode s.regionRbTree = l.head?.getD 0 := by
  obtain ⟨T,hr,-,hin⟩ := h.tree
  rw [losRbFirstNode_eq hr (by rw [hin]; exact Nat.le_of_eq h.length_eq), hin]

theorem add_base_size (h : RegionMap s l) {p : Nat} (hp : p ∈ l) :
    Word.add (s.region p).range.base (s.region p).range.size = (s.region p).fin := Word.add_eq (h.fin_lt p hp)

/-- The regions before a region end where it starts at the latest, and those after it start where it ends at the earliest. -/
private theorem around (h : RegionMap s l) {done rest : List Nat} {x : Nat} (hl : l = done ++ x :: rest) :
    (∀ p ∈ done, (s.region p).fin ≤ (s.region x).range.base) ∧ ∀ p ∈ rest, (s.region x).fin ≤ (s.region p).range.base := by
  have hs := h.sorted
  rw [hl] at hs
  obtain ⟨-,h2,h3⟩ := List.pairwise_append.mp hs
  exact ⟨fun p hp => h3 p hp x List.mem_cons_self,fun p hp => List.rel_of_pairwise_cons h2 hp⟩

end RegionMap

/-- The outcome of a search for len free bytes from a place on: nothing free starts before e. Where the search succeeds e is
free up to a region, before which len bytes are free as well, and else all regions end by e. -/
structure Scanned (s : LosVmSpace) (l : List Nat) (len start : Nat) (found : Bool) (e : Nat) : Prop where
  le : start ≤ e
  first : ∀ a, start ≤ a → Free s l a len → e ≤ a
  hit : found = true → Free s l e len ∧
    ∃ q ∈ l, e + len ≤ (s.region q).range.base ∧ Free s l ((s.region q).range.base - len) len
  miss : found = false → ∀ p ∈ l, (s.region p).fin ≤ e

private theorem allocScan_scanned (h : RegionMap s l) : ∀ {rest done : List Nat} {fuel curEnd : Nat}, l = done ++ rest →
    rest.length < fuel → (∀ p ∈ done, (s.region p).fin ≤ curEnd) →
    (∀ p ∈ rest, (s.region p).range.base < curEnd → (s.region p).fin ≤ curEnd) →
    ∃ found e, allocScan s.regionRbTree len fuel (rest.head?.getD 0) curEnd = (found,e) ∧ Scanned s l len curEnd found e := by
  intro rest
  induction rest with
  | nil =>
    intro done fuel curEnd hl hf hdone _
    rcases fuel with - | fuel
    · cases hf
    refine ⟨false,curEnd,?_,Nat.le_refl _,fun _ ha _ => ha,by simp,fun _ p hp => hdone p (by rw [hl, List.append_nil] at hp; exact hp)⟩
    rw [allocScan, List.head?_nil, Option.getD_none, if_pos rfl]
  | cons x rest ih =>
    intro done fuel curEnd hl hf hdone hrest
    rcases fuel with - | fuel
    · cases hf
    have hx : x ∈ l := by simp [hl]
    have hx0 := h.size_pos x hx
    have hlen : rest.length < fuel := by simpa using hf
    have hl' : l = (done ++ [x]) ++ rest := by simp [hl]
    have hafter := (h.around hl).2
    have hadd : Word.add (s.regionRbTree.key x).range.base (s.regionRbTree.key x).range.size = (s.region x).fin :=
      h.add_base_size hx
    have hdone' : ∀ c, curEnd ≤ c → (s.region x).fin ≤ c → ∀ p ∈ done ++ [x], (s.region p).fin ≤ c := by
      intro c hc hxc p hp
      rcases List.mem_append.mp hp with hp | hp
      · exact (hdone p hp).trans hc
      · rw [List.mem_singleton.mp hp]
        exact hxc
    rw [List.head?_cons, Option.getD_some, allocScan, if_neg (h.ne_zero hx), h.successor hl, hadd]
    show ∃ found e, (if (s.region x).range.base < curEnd then _ else if len ≤ (s.region x).range.base - curEnd then _ else _) = _ ∧ _
    split_ifs with h1 h2
    · exact ih hl' hlen (hdone' curEnd (Nat.le_refl _) (hrest x List.mem_cons_self h1))
        fun p hp => hrest p (List.mem_cons_of_mem _ hp)
    · -- the gap before x is large enough, at its start and at its end
      have hgap : ∀ b, curEnd ≤ b → b + len ≤ (s.region x).range.base → Free s l b len := by
        intro b hb hbx p hp
        rw [hl] at hp
        rcases List.mem_append.mp hp with hp | hp
        · exact .inl ((hdone p hp).trans hb)
        · rcases List.mem_cons.mp hp with rfl | hp
          · exact .inr hbx
          · have := hafter p hp
            rw [fin] at this
            exact .inr (by omega)
      exact ⟨true,curEnd,rfl,Nat.le_refl _,fun _ ha _ => ha,
        fun _ => ⟨hgap curEnd (Nat.le_refl _) (by omega),x,hx,by omega,hgap _ (by omega) (by omega)⟩,by simp⟩
    · -- a free range does not start before the end of x
      have hle : curEnd ≤ (s.region x).fin := by
        rw [fin]
        omega
      obtain ⟨found,e,he,hs⟩ := ih hl' hlen (hdone' _ hle (Nat.le_refl _)) fun p hp hlt => by
        have := hafter p hp
        omega
      refine ⟨found,e,he,hle.trans hs.le,fun a ha hfree => hs.first a ?_ hfree,hs.hit,hs.miss⟩
      have := hfree x hx
      omega

/-- The search of OsAllocRange from the base of the mapping window on. -/
private theorem allocRange_scanned (h : RegionMap s l) (hw : s.mapBase < 2^32) (hpos : 0 < len) :
    ∃ found e, Scanned s l len s.mapBase found e ∧
      osAllocRange s len = if found = true ∨ e ≤ Word.add s.mapBase s.mapSize ∧ len ≤ Word.add s.mapBase s.mapSize - e then e else 0 := by
  have hscan : ∃ found e, (if losRegionFind s s.mapBase ≠ 0 then
        allocScan s.regionRbTree len (s.regionRbTree.ulNodes + 1) (losRegionFind s s.mapBase)
          (Word.add (s.region (losRegionFind s s.mapBase)).range.base (s.region (losRegionFind s s.mapBase)).range.size)
      else allocScan s.regionRbTree len (s.regionRbTree.ulNodes + 1) (losRbFirstNode s.regionRbTree) s.mapBase) = (found,e) ∧
      Scanned s l len s.mapBase found e := by
    rcases regionFind_spec h hw with ⟨hm,h1,h2⟩ | ⟨h0,hno⟩
    · -- the search starts at the end of the region around the base
      rw [if_pos (h.ne_zero hm), h.add_base_size hm]
      obtain ⟨done,rest,hl⟩ := List.append_of_mem hm
      obtain ⟨hbefore,hafter⟩ := h.around hl
      have hlen : (losRegionFind s s.mapBase :: rest).length < s.regionRbTree.ulNodes + 1 := by
        rw [← h.length_eq, hl]
        simp only [List.length_append, List.length_cons]
        omega
      obtain ⟨found,e,he,hs⟩ := allocScan_scanned h hl hlen
        (fun p hp => (hbefore p hp).trans (Nat.le_add_right _ _)) (fun p hp hlt => by
          rcases List.mem_cons.mp hp with rfl | hp
          · exact Nat.le_refl _
          · have := hafter p hp
            rw [← LosVmMapRegion.fin] at hlt
            omega)
      rw [← LosVmMapRegion.fin] at hs
      refine ⟨found,e,he,(Nat.le_of_lt h2).trans hs.le,fun a ha hfree => hs.first a ?_ hfree,hs.hit,hs.miss⟩
      have := hfree _ hm
      omega
    · rw [if_neg (by rw [h0]; simp), h.first]
      refine allocScan_scanned h (show l = [] ++ l from rfl) (by rw [h.length_eq]; exact Nat.lt_succ_self _) (by simp)
        fun p hp hlt => ?_
      have := hno p hp
      omega
  obtain ⟨found,e,he,hs⟩ := hscan
  refine ⟨found,e,hs,?_⟩
  rw [osAllocRange]
  simp only [he]
  cases found with
  | true => simp
  | false => simp

/-- A free range in the mapping window. -/
def FreeFit (s : LosVmSpace) (l : List Nat) (a n : Nat) : Prop :=
  s.mapBase ≤ a ∧ a + n ≤ s.mapBase + s.mapSize ∧ Free s l a n

/-- OsAllocRange returns a free range in the mapping window, and 0 only if there is none. -/
def FindsRange (s : LosVmSpace) (l : List Nat) (n : Nat) : Prop :=
  (osAllocRange s n ≠ 0 → FreeFit s l (osAllocRange s n) n) ∧ (osAllocRange s n = 0 → ∀ a, ¬FreeFit s l a n)

/-- Outside the window a range is taken where the window has none and a region after it has room before it. -/
theorem findsRange_iff (h : RegionMap s l) (hb : 0 < s.mapBase) (hw : s.mapBase + s.mapSize < 2^32) (hn : 0 < n) :
    FindsRange s l n ↔ (∃ a, FreeFit s l a n) ∨
      ∀ q ∈ l, s.mapBase + n ≤ (s.region q).range.base → ¬Free s l ((s.region q).range.base - n) n := by
  obtain ⟨found,e,hs,he⟩ := allocRange_scanned h (show s.mapBase < 2^32 by omega) hn
  have hle := hs.le
  rw [Word.add_eq hw] at he
  rw [FindsRange, he]
  constructor
  · rintro ⟨hfit,-⟩
    by_contra hc
    rw [not_or, not_exists] at hc
    obtain ⟨hno,hq⟩ := hc
    push Not at hq
    obtain ⟨q,hql,hroom,hfree⟩ := hq
    have hnot : ¬(found = true ∨ e ≤ s.mapBase + s.mapSize ∧ n ≤ s.mapBase + s.mapSize - e) := by
      intro hc
      rw [if_pos hc] at hfit
      exact hno e (hfit (by omega))
    rw [not_or, Bool.not_eq_true] at hnot
    have hfin := hs.miss hnot.1 q hql
    have hfirst := hs.first _ (by omega) hfree
    have hq0 := h.size_pos q hql
    rw [fin] at hfin
    omega
  · intro hc
    have hfree : (found = true ∨ e ≤ s.mapBase + s.mapSize ∧ n ≤ s.mapBase + s.mapSize - e) → Free s l e n := by
      intro _
      cases hf : found with
      | true => exact (hs.hit hf).1
      | false => exact fun p hp => .inl (hs.miss hf p hp)
    rcases hc with ⟨a,ha1,ha2,ha3⟩ | hq
    · -- the first free range is in the window as well
      have hea := hs.first a ha1 ha3
      have hpos : found = true ∨ e ≤ s.mapBase + s.mapSize ∧ n ≤ s.mapBase + s.mapSize - e := .inr (by omega)
      rw [if_pos hpos]
      exact ⟨fun _ => ⟨hle,by omega,hfree hpos⟩,fun h0 => by omega⟩
    · cases hf : found with
      | true =>
        obtain ⟨-,q,hql,h1,h2⟩ := hs.hit hf
        exact absurd h2 (hq q hql (by omega))
      | false =>
        rw [hf] at hfree
        simp only [Bool.false_eq_true, false_or] at hfree ⊢
        split_ifs with hpos
        · exact ⟨fun _ => ⟨hle,by omega,hfree hpos⟩,fun h0 => by omega⟩
        · refine ⟨fun h0 => absurd rfl h0,fun _ a ha => ?_⟩
          have := hs.first a ha.1 ha.2.2
          have := ha.2.1
          omega

/-- Two pages of the mapping window with three free pages between them, and a page above the window. -/
def gapSpace : LosVmSpace :=
  VmCall.run 0xff 3 (VmCall.run 0xff 3 (VmCall.run 0xff 3 smallSpace (.mmap USER_MAP_BASE 4096 3 0x32 none 0))
    (.mmap (USER_MAP_BASE + 16384) 4096 1 0x32 none 0)) (.mmap (USER_ASPACE_TOP_MAX - 8192) 4096 3 0x32 none 0)

/-- Three pages are found in the gap, and four behind the second region. -/
theorem findsRange_gap : ∃ l, l.length = 3 ∧ FindsRange gapSpace l 12288 ∧ FindsRange gapSpace l 16384 ∧
    osAllocRange gapSpace 12288 = USER_MAP_BASE + 4096 ∧ osAllocRange gapSpace 16384 = USER_MAP_BASE + 20480 := by
  have hr : SpaceReachable (fun s c => c.Ok s) 0xff 3 gapSpace :=
    .call (.call (.call (.init (by decide) _ _ _) _ (by decide) trivial) _ (by decide) trivial) _ (by decide) trivial
  obtain ⟨l,hl⟩ := hr.inv
  obtain rfl : l = [2,3,4] := hl.scan_eq.symm.trans (by decide +kernel)
  refine ⟨[2,3,4],rfl,?_,?_,by decide +kernel,by decide +kernel⟩
  · exact (findsRange_iff hl.regionMap (by decide +kernel) (by decide +kernel) (by decide)).mpr
      (.inl ⟨USER_MAP_BASE + 4096,by rw [FreeFit, Free]; decide +kernel⟩)
  · exact (findsRange_iff hl.regionMap (by decide +kernel) (by decide +kernel) (by decide)).mpr
      (.inl ⟨USER_MAP_BASE + 20480,by rw [FreeFit, Free]; decide +kernel⟩)

/-- The mapping window is mapped as a whole, and a page above it as well. -/
def fullSpace : LosVmSpace :=
  VmCall.run 0xff 3 (VmCall.run 0xff 3 smallSpace (.mmap USER_MAP_BASE USER_MAP_SIZE 3 0x32 none 0))
    (.mmap (USER_ASPACE_TOP_MAX - 8192) 4096 3 0x32 none 0)

/-- The range that is found for a page starts at the end of the mapping window. -/
theorem findsRange_fails : ¬ ∀ (s : LosVmSpace) (l : List Nat) (n : Nat), RegionMap s l → 0 < s.mapBase →
    s.mapBase + s.mapSize < 2^32 → PAGE_SIZE ∣ n → 0 < n → FindsRange s l n := by
  intro hall
  have hr : SpaceReachable (fun s c => c.Ok s) 0xff 3 fullSpace :=
    .call (.call (.init (by decide) _ _ _) _ (by decide) trivial) _ (by decide) trivial
  obtain ⟨l,hl⟩ := hr.inv
  have h := (hall fullSpace l 4096 hl.regionMap (by decide +kernel) (by decide +kernel) (by decide) (by decide)).1
    (by decide +kernel)
  exact absurd h.2.1 (by decide +kernel)

end LiteOsKernel.Vm
