import LiteOsKernel.Swtmr.SwtmrRun
import Mathlib.Tactic.Linarith

/-! The time that is left of a timer, in ticks. -/
namespace LiteOsKernel.Swtmr

/-- The whole ticks from a time to a response time, as a UINT32 can hold them. -/
def ticksLeft (cfg : SwtmrConfig) (currTime responseTime : Nat) : Nat :=
  min ((responseTime - currTime) / cfg.cyclePerTick) OS_INVALID_VALUE

/-- What is read of timer i and of the timers of a CPU at currTime. -/
structure TimeLaw (cfg : SwtmrConfig) (s : SwtmrState) (i cpuid currTime : Nat) : Prop where
  timeGet : s.losSwtmrTimeGet cfg currTime (s.cb i).usTimerID true = .ok (ticksLeft cfg currTime (s.cb i).responseTime)
  later : ∀ later, currTime ≤ later → ∃ ticks, s.losSwtmrTimeGet cfg later (s.cb i).usTimerID true = .ok ticks ∧
    ticks ≤ ticksLeft cfg currTime (s.cb i).responseTime
  none : (s.runqueue cpuid).swtmrSortLink.sortLink = [] →
    s.osSwtmrGetNextTimeout cfg currTime cpuid = OS_INVALID_VALUE ∧ s.swtmrTaskWait currTime cpuid = OS_SORT_LINK_INVALID_TIME
  next : ∀ first ∈ (s.runqueue cpuid).swtmrSortLink.sortLink,
    (∀ j ∈ (s.runqueue cpuid).swtmrSortLink.sortLink, (s.cb first).responseTime ≤ (s.cb j).responseTime) →
      s.osSwtmrGetNextTimeout cfg currTime cpuid = ticksLeft cfg currTime (s.cb first).responseTime ∧
        s.swtmrTaskWait currTime cpuid = (s.cb first).responseTime - currTime

/-- Timer i and the earliest timer of the CPU are due within 2^32 cycles; where a tick is a cycle, timer i may as well be
due at such a time that all the bits of what is left of its cycles are set. -/
structure NotNarrowed (cfg : SwtmrConfig) (s : SwtmrState) (i cpuid currTime : Nat) : Prop where
  timer : (s.cb i).responseTime - currTime < 2 ^ 32 ∨
    cfg.cyclePerTick = 1 ∧ ((s.cb i).responseTime - currTime) % 2 ^ 32 = OS_INVALID_VALUE
  first : ∀ j, (s.runqueue cpuid).swtmrSortLink.sortLink.head? = some j → (s.cb j).responseTime - currTime < 2 ^ 32

variable {s : SwtmrState} {cfg : SwtmrConfig} {i cpuid currTime later r : Nat} {hole : Set Nat}

private theorem targetExpireTime_eq (currTime r : Nat) : osSortLinkGetTargetExpireTime currTime r = (r - currTime) % 2 ^ 32 := by
  rw [osSortLinkGetTargetExpireTime]
  split_ifs with h
  · rw [Nat.sub_eq_zero_of_le h, Nat.zero_mod]
  · rfl

private theorem saturate_eq (time : Nat) : saturate time = min time OS_INVALID_VALUE := by
  rw [saturate]
  split_ifs with h
  · exact (min_eq_right h.le).symm
  · exact (min_eq_left (not_lt.mp h)).symm

/-- The narrowed time is never more than the time. -/
private theorem saturate_narrowed_le (cfg : SwtmrConfig) (currTime r : Nat) :
    saturate (osSortLinkGetTargetExpireTime currTime r / cfg.cyclePerTick) ≤ ticksLeft cfg currTime r := by
  rw [saturate_eq, targetExpireTime_eq, ticksLeft]
  exact min_le_min_right _ (Nat.div_le_div_right (Nat.mod_le ..))

private theorem saturate_narrowed_iff (cfg : SwtmrConfig) (currTime r : Nat) :
    saturate (osSortLinkGetTargetExpireTime currTime r / cfg.cyclePerTick) = ticksLeft cfg currTime r ↔
      r - currTime < 2 ^ 32 ∨ cfg.cyclePerTick = 1 ∧ (r - currTime) % 2 ^ 32 = OS_INVALID_VALUE := by
  rw [saturate_eq, targetExpireTime_eq, ticksLeft]
  generalize r - currTime = d
  have hinvalid : OS_INVALID_VALUE = 2 ^ 32 - 1 := rfl
  have hr : d % 2 ^ 32 < 2 ^ 32 := Nat.mod_lt _ (by decide)
  constructor
  · intro heq
    by_contra hnot
    rw [not_or, not_lt] at hnot
    obtain ⟨hbig,hnot⟩ := hnot
    -- a whole 2^32 cycles more are at least a tick more
    have hlt : d % 2 ^ 32 / cfg.cyclePerTick < d / cfg.cyclePerTick := by
      have hstep : d % 2 ^ 32 + cfg.cyclePerTick ≤ d := by
        have := Nat.div_add_mod d (2 ^ 32)
        have hq : 1 ≤ d / 2 ^ 32 := (Nat.one_le_div_iff (by decide)).mpr hbig
        have := cfg.lt
        omega
      calc d % 2 ^ 32 / cfg.cyclePerTick < (d % 2 ^ 32 + cfg.cyclePerTick) / cfg.cyclePerTick := by
            rw [Nat.add_div_right _ cfg.pos]
            exact Nat.lt_succ_self _
        _ ≤ d / cfg.cyclePerTick := Nat.div_le_div_right hstep
    have hfull : OS_INVALID_VALUE ≤ d % 2 ^ 32 / cfg.cyclePerTick := by
      rcases le_total OS_INVALID_VALUE (d % 2 ^ 32 / cfg.cyclePerTick) with h | h
      · exact h
      · rw [min_eq_left h] at heq
        rcases min_choice (d / cfg.cyclePerTick) OS_INVALID_VALUE with hm | hm
        · rw [hm] at heq
          exact absurd heq hlt.ne
        · rw [hm] at heq
          exact heq.ge
    have hone : cfg.cyclePerTick = 1 := by
      by_contra hne
      have h2 : 2 ≤ cfg.cyclePerTick := by
        have := cfg.pos
        omega
      have hhalf : d % 2 ^ 32 / cfg.cyclePerTick ≤ d % 2 ^ 32 / 2 := Nat.div_le_div_left h2 (by decide)
      omega
    rw [hone, Nat.div_one] at hfull
    exact hnot ⟨hone,by omega⟩
  · rintro (hsmall | ⟨hone,hfull⟩)
    · rw [Nat.mod_eq_of_lt hsmall]
    · have hle := Nat.mod_le d (2 ^ 32)
      rw [hone, Nat.div_one, Nat.div_one, min_eq_right hfull.ge, min_eq_right (hfull ▸ hle)]

/-- LOS_SwtmrTimeGet of a ticking timer, by its ID. -/
private theorem losSwtmrTimeGet_ticking (h : SwtmrInv hole s) (hi : (s.cb i).ucState = .ticking) (time : Nat) :
    s.losSwtmrTimeGet cfg time (s.cb i).usTimerID true =
      .ok (saturate (osSortLinkGetTargetExpireTime time (s.cb i).responseTime / cfg.cyclePerTick)) := by
  obtain ⟨hlt,hmod⟩ := h.ids i (h.live i (by simp [hi]))
  rw [SwtmrState.losSwtmrTimeGet, hmod, if_neg hlt.not_ge, if_neg (by decide), if_neg (not_not.mpr rfl)]
  rw [hi]
  rfl

private theorem ticksLeft_anti (cfg : SwtmrConfig) (h : currTime ≤ later) (r : Nat) : ticksLeft cfg later r ≤ ticksLeft cfg currTime r :=
  min_le_min_right _ (Nat.div_le_div_right (Nat.sub_le_sub_left h r))

/-- The first timer of a sorted list is the earliest. -/
private theorem head_earliest (h : SwtmrInv hole s) {first j : Nat} {rest : List Nat}
    (hl : (s.runqueue cpuid).swtmrSortLink.sortLink = first :: rest) (hj : j ∈ (s.runqueue cpuid).swtmrSortLink.sortLink) :
    (s.cb first).responseTime ≤ (s.cb j).responseTime := by
  have hsorted := h.sorted cpuid
  rw [hl] at hsorted hj
  rcases List.mem_cons.mp hj with rfl | hj
  · exact le_rfl
  · exact (List.pairwise_cons.mp hsorted).1 j hj

/-- Along every run what is left of a timer is exact just where no difference of more than 32 bits is narrowed. -/
theorem timeLaw_iff (cfg : SwtmrConfig) (s : SwtmrState) (h : Run.Reachable (swtmrSystem cfg) (fun s c => c.Ok cfg s) s) (i : Nat)
    (hi : (s.cb i).ucState = .ticking) (cpuid currTime : Nat) :
    TimeLaw cfg s i cpuid currTime ↔ NotNarrowed cfg s i cpuid currTime := by
  have hinv := (swtmr_inv h).swtmr
  constructor
  · intro hlaw
    refine ⟨?_,fun j hj => ?_⟩
    · have heq := hlaw.timeGet
      rw [losSwtmrTimeGet_ticking hinv hi] at heq
      exact (saturate_narrowed_iff cfg currTime _).mp (Except.ok.inj heq)
    · obtain ⟨rest,hl⟩ : ∃ rest, (s.runqueue cpuid).swtmrSortLink.sortLink = j :: rest := List.head?_eq_some_iff.mp hj
      have hwait := (hlaw.next j (by rw [hl]; exact List.mem_cons_self) fun k hk => head_earliest hinv hl hk).2
      rw [SwtmrState.swtmrTaskWait, SwtmrState.osSortLinkGetNextExpireTime, hl] at hwait
      simp only [targetExpireTime_eq] at hwait
      rw [← hwait]
      exact Nat.mod_lt _ (by decide)
  · intro hnot
    refine ⟨?_,fun later hle => ⟨_,losSwtmrTimeGet_ticking hinv hi later,?_⟩,fun hl => ⟨?_,?_⟩,fun first hfirst hmin => ?_⟩
    · rw [losSwtmrTimeGet_ticking hinv hi]
      exact congrArg Except.ok ((saturate_narrowed_iff cfg currTime _).mpr hnot.timer)
    · exact (saturate_narrowed_le cfg later _).trans (ticksLeft_anti cfg hle _)
    · have hbig : OS_INVALID_VALUE ≤ OS_SORT_LINK_INVALID_TIME / cfg.cyclePerTick := by
        refine (by decide : OS_INVALID_VALUE ≤ OS_SORT_LINK_INVALID_TIME / 2 ^ 32).trans ?_
        exact Nat.div_le_div_left cfg.lt.le cfg.pos
      rw [SwtmrState.osSwtmrGetNextTimeout, SwtmrState.osSortLinkGetNextExpireTime, hl, saturate_eq]
      exact min_eq_right hbig
    · rw [SwtmrState.swtmrTaskWait, SwtmrState.osSortLinkGetNextExpireTime, hl]
    · cases hl : (s.runqueue cpuid).swtmrSortLink.sortLink with
      | nil =>
        rw [hl] at hfirst
        exact absurd hfirst List.not_mem_nil
      | cons j rest =>
        -- the first of the list is as early as the earliest
        have heq : (s.cb first).responseTime = (s.cb j).responseTime :=
          (hmin j (by rw [hl]; exact List.mem_cons_self)).antisymm (head_earliest hinv hl hfirst)
        have hsmall := hnot.first j (by rw [hl]; rfl)
        rw [SwtmrState.osSwtmrGetNextTimeout, SwtmrState.swtmrTaskWait, SwtmrState.osSortLinkGetNextExpireTime, hl, heq]
        refine ⟨(saturate_narrowed_iff cfg currTime _).mpr (.inl hsmall),?_⟩
        simp only [targetExpireTime_eq]
        exact Nat.mod_eq_of_lt hsmall

/-- A timer of 10 ticks has 9 whole ticks left after 50 cycles. -/
theorem timeLaw_ten_ticks : ∃ s, Run.Reachable (swtmrSystem config) (fun s c => c.Ok config s) s ∧
    (s.cb 0).ucState = .ticking ∧ ticksLeft config 50 (s.cb 0).responseTime = 9 ∧
      (TimeLaw config s 0 0 50 ↔ NotNarrowed config s 0 0 50) := by
  obtain ⟨s,-,hs,-,-,-,-,hcb,-⟩ := reachable_started 10 (by decide) (by decide)
  have hi : (s.cb 0).ucState = .ticking := by rw [hcb]
  refine ⟨s,hs,hi,?_,timeLaw_iff config s hs 0 hi 0 50⟩
  rw [hcb]
  decide

/-- A timer that is started for 42949673 ticks of 100 cycles has none left. -/
theorem timeLaw_fails_long : ¬ ∀ s, Run.Reachable (swtmrSystem config) (fun s c => c.Ok config s) s →
    ∀ i, (s.cb i).ucState = .ticking → ∀ cpuid currTime, TimeLaw config s i cpuid currTime := by
  intro hall
  obtain ⟨s,-,hs,-,-,-,-,hcb,-⟩ := reachable_started 42949673 (by decide) (by decide)
  have hi : (s.cb 0).ucState = .ticking := by rw [hcb]
  have hlaw := (hall s hs 0 hi 0 0).timeGet
  rw [losSwtmrTimeGet_ticking (swtmr_inv hs).swtmr hi, hcb] at hlaw
  exact absurd (Except.ok.inj hlaw) (by decide)

end LiteOsKernel.Swtmr
