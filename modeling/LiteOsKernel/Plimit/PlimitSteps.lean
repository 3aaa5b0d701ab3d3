import LiteOsKernel.Plimit.PlimitInv

/-! The functions of the limiters keep the counters of every set those of its processes. -/
namespace LiteOsKernel.Plimit

variable {x : LimitHist} {s s' : PlimitState} {a b p q : Nat} {set set' : ProcLimiterSet} {pcb pcb' : ProcessCB} {l : List Nat}

/-- A process moves to the set, or it is refused and stays where it is. -/
theorem Consistent.add (h : Consistent s) (plimits : Option Nat) (p : Nat) (hlive : s.sets (plimits.getD s.g_rootPLimite) ≠ none)
    (hw : ∀ set ∈ s.sets (plimits.getD s.g_rootPLimite), LimitCall.NoWrap set.mem.usage (s.pcb p).memUsed set.mem.limit) :
    ∃ r, plimitsAddProcess s plimits p = some r ∧ Consistent r.1 ∧ Kept s r.1 ∧ (r.2 ≠ LOS_OK → r.1 = s) := by
  rw [plimitsAddProcess]
  generalize plimits.getD s.g_rootPLimite = a at hlive hw
  obtain ⟨set,ha⟩ := Option.ne_none_iff_exists'.mp hlive
  by_cases hroot : (s.pcb p).plimits = some s.g_rootPLimite
  · rw [if_pos hroot]
    exact ⟨_,rfl,h,.refl s,fun _ => rfl⟩
  rw [if_neg hroot]
  by_cases hsame : (s.pcb p).plimits = some a
  · rw [if_pos hsame]
    exact ⟨_,rfl,h,.refl s,fun _ => rfl⟩
  rw [if_neg hsame, ha, Option.bind_some]
  by_cases hcheck : osPidLimitAddProcessCheck set.pids = false ∨ osMemLimitAddProcessCheck set.mem (s.pcb p) = false
  · rw [if_pos hcheck]
    exact ⟨_,rfl,h,.refl s,fun _ => rfl⟩
  rw [if_neg hcheck]
  rw [not_or, Bool.not_eq_false, Bool.not_eq_false] at hcheck
  have hroom := (h.set a set ha).room (hw set ha) hcheck.1 hcheck.2
  obtain ⟨s₁,hdelete,h₁,hr⟩ := h.delete p
  have ha₁ : s₁.sets a = some set := (hr.sets a hsame).trans ha
  have hmem : (s₁.pcb p).memUsed = (s.pcb p).memUsed := by rw [hr.self]
  obtain ⟨s₂,hlink,h₂,hl⟩ := h₁.link ha₁ (by rw [hr.self]) ⟨hroom.pids,hmem ▸ hroom.mem⟩
  rw [hdelete, Option.bind_some, hlink]
  exact ⟨_,rfl,h₂,.move hr hl,fun hret => absurd rfl hret⟩

/-- The set takes the processes of another one in turn when all of them fit. -/
theorem Consistent.merge (h : Consistent s) (ha : s.sets a = some set) (hb : s.sets b = some set') (hne : b ≠ a)
    (hpids : set.processList.length + set'.processList.length ≤ set'.pids.pidLimit.toNat)
    (hmem : set.mem.usage.toNat + set'.mem.usage.toNat ≤ set'.mem.limit.toNat) (fuel : Nat) (hfuel : fuel = set.processList.length) :
    ∃ s', mergeLoop a b fuel s = some s' ∧ Consistent s' ∧ Kept s s' ∧ s'.g_rootPLimite = s.g_rootPLimite ∧
      ∃ set ∈ s'.sets a, set.processList = [] := by
  induction fuel generalizing s set set' with
  | zero =>
    have hnil : set.processList = [] := List.eq_nil_of_length_eq_zero hfuel.symm
    refine ⟨s,?_,h,.refl s,rfl,set,ha,hnil⟩
    rw [mergeLoop, ha, Option.bind_some, if_pos hnil]
  | succ fuel ih =>
    obtain ⟨p,l,hl⟩ := List.exists_cons_of_length_eq_add_one hfuel.symm
    have hset := h.set a set ha
    have hp : (s.pcb p).plimits = some a := (hset.mem_iff p).mp (by rw [hl]; exact List.mem_cons_self)
    have hle := hset.memUsed_le hp
    obtain ⟨s₁,hdelete,h₁,hr⟩ := h.delete p
    have ha₁ := hr.left a hp set ha
    have hb₁ : s₁.sets b = some set' := (hr.sets b fun hc => hne (Option.some.inj (hc.symm.trans hp))).trans hb
    have hmemp : (s₁.pcb p).memUsed = (s.pcb p).memUsed := by rw [hr.self]
    have hroom : Room set' (s₁.pcb p) := by
      refine ⟨?_,?_⟩
      · rw [hl, List.length_cons] at hpids
        omega
      · rw [hmemp]
        omega
    have hp₁ : (s₁.pcb p).plimits = none := by rw [hr.self]
    obtain ⟨s₂,hlink,h₂,hlinked⟩ := h₁.link hb₁ hp₁ hroom
    have ha₂ : s₂.sets a = some (set.delProcess p (s.pcb p)) := (hlinked.sets a hne.symm).trans ha₁
    have hb₂ := hlinked.joined set' hb₁
    have herase : (set.delProcess p (s.pcb p)).processList = l := by
      change set.processList.erase p = l
      rw [hl, List.erase_cons_head]
    have hlen : set'.processList.length + 1 = (set'.addProcess p (s₁.pcb p)).processList.length := by
      change _ = (set'.processList ++ [p]).length
      rw [List.length_append, List.length_singleton]
    have hsub : (set.delProcess p (s.pcb p)).mem.usage.toNat = set.mem.usage.toNat - (s.pcb p).memUsed.toNat := toNat_sub hle
    have hadd : (set'.addProcess p (s₁.pcb p)).mem.usage.toNat = set'.mem.usage.toNat + (s.pcb p).memUsed.toNat := by
      rw [← hmemp]
      exact toNat_add (hroom.mem.trans_lt set'.mem.limit.toNat_lt)
    obtain ⟨s₃,hloop,h₃,hk,hroot,hempty⟩ := ih h₂ ha₂ hb₂
      (by rw [herase, ← hlen]; rw [hl, List.length_cons] at hpids; change _ ≤ set'.pids.pidLimit.toNat; omega)
      (by rw [hsub, hadd]; change _ ≤ set'.mem.limit.toNat; omega)
      (by rw [herase]; rw [hl, List.length_cons] at hfuel; omega)
    refine ⟨s₃,?_,h₃,(Kept.move hr hlinked).trans hk,hroot.trans (hlinked.root.trans hr.root),hempty⟩
    rw [mergeLoop, ha, Option.bind_some, hl]
    dsimp only
    rw [hdelete, Option.bind_some, plimitsAddProcess_room h₁ hb₁ hp₁ hroom, hlink]
    exact hloop

/-- The processes of the set fit into its parent when the checks of the limiters say so. -/
private theorem plimitsMigrateCheck_ok (h : SetInv s.pcb a set) (h' : SetInv s.pcb b set')
    (hw : LimitCall.NoWrap set.mem.usage set'.mem.usage set'.mem.limit) :
    ∃ ret, plimitsMigrateCheck (some set.pids) (some set.mem) set' = some ret ∧ (ret = LOS_OK →
      set.processList.length + set'.processList.length ≤ set'.pids.pidLimit.toNat ∧
        set.mem.usage.toNat + set'.mem.usage.toNat ≤ set'.mem.limit.toNat) := by
  rw [plimitsMigrateCheck, memLimiteMigrateCheck, Option.map_some, Option.map_some]
  cases hpids : pidLimitMigrateCheck (some set.pids) set'.pids with
  | false => exact ⟨EPERM,rfl,fun he => absurd he (by decide)⟩
  | true =>
    refine ⟨_,rfl,fun hret => ?_⟩
    have hcount : set.pids.pidCount + set'.pids.pidCount < set'.pids.pidLimit := UInt32.not_le.mp (of_decide_eq_true hpids)
    have hsum : (set.pids.pidCount + set'.pids.pidCount).toNat = set.processList.length + set'.processList.length := by
      have := h.le.trans h.max
      have := h'.le.trans h'.max
      rw [UInt32.toNat_add, h.pids, h'.pids]
      exact Nat.mod_eq_of_lt (show _ < 2^32 by omega)
    have hmem : set.mem.usage + set'.mem.usage ≤ set'.mem.limit := by
      by_contra hgt
      have hge : set.mem.usage + set'.mem.usage ≥ set'.mem.limit := UInt64.le_of_lt (UInt64.not_le.mp hgt)
      rw [decide_eq_false (not_not.mpr hge)] at hret
      exact absurd hret (by decide)
    refine ⟨hsum ▸ (UInt32.lt_iff_toNat_lt.mp hcount).le,?_⟩
    rw [← toNat_add (hw hmem)]
    exact UInt64.le_iff_toNat_le.mp hmem

/-- A set without processes is freed. -/
theorem Consistent.drop (h : Consistent s) (ha : s.sets a = some set) (hnil : set.processList = []) (hroot : a ≠ s.g_rootPLimite) :
    Consistent { s with sets := Function.update s.sets a none } := by
  have hother : ∀ b, ∀ set₁ ∈ Function.update s.sets a none b, s.sets b = some set₁ := by
    intro b set₁ hb
    rw [Function.update_apply] at hb
    split_ifs at hb
    · cases hb
    · exact hb
  refine ⟨fun b set₁ hb => h.set b set₁ (hother b set₁ hb),?_,fun p b hp => ?_,fun b set₁ hb => h.parent b set₁ (hother b set₁ hb)⟩
  · change Function.update s.sets a none s.g_rootPLimite ≠ none
    rw [Function.update_of_ne hroot.symm]
    exact h.root
  · change Function.update s.sets a none b ≠ none
    rw [Function.update_of_ne]
    · exact h.live p b hp
    · rintro rfl
      have hmem := (h.set b set ha).mem hp
      rw [hnil] at hmem
      exact absurd hmem List.not_mem_nil

/-- A set is freed when its processes have moved to its parent, or it stays. -/
theorem Consistent.free (h : Consistent s) (curr : Option Nat) (hlive : ∀ a ∈ curr, s.sets a ≠ none ∧ a ≠ s.g_rootPLimite)
    (hok : ∀ a ∈ curr, ∀ set ∈ s.sets a, ∀ b ∈ set.parent, s.sets b ≠ none ∧
      ∀ parent ∈ s.sets b, LimitCall.NoWrap set.mem.usage parent.mem.usage parent.mem.limit) :
    ∃ r, osPLimitsFree s curr = some r ∧ Consistent r.1 ∧ Kept s r.1 ∧ (r.2 ≠ LOS_OK → r.1 = s) := by
  cases curr with
  | none => exact ⟨_,rfl,h,.refl s,fun _ => rfl⟩
  | some a =>
    obtain ⟨hset,hroot⟩ := hlive a rfl
    obtain ⟨set,ha⟩ := Option.ne_none_iff_exists'.mp hset
    obtain ⟨hself,hparent⟩ := h.parent a set ha
    obtain ⟨b,hb⟩ := Option.ne_none_iff_exists'.mp (hparent hroot)
    obtain ⟨hlive,hw⟩ := hok a rfl set ha b hb
    obtain ⟨parent,hp⟩ := Option.ne_none_iff_exists'.mp hlive
    have hne : b ≠ a := by
      rintro rfl
      exact hself hb
    obtain ⟨ret,hcheck,hfits⟩ := plimitsMigrateCheck_ok (h.set a set ha) (h.set b parent hp) (hw parent hp)
    simp only [osPLimitsFree, ha, Option.bind_some, hb, hp, hcheck]
    by_cases hret : ret = LOS_OK
    · obtain ⟨hpids,hmem⟩ := hfits hret
      obtain ⟨s₁,hmerge,h₁,hk,hroot₁,set₁,ha₁,hnil⟩ := h.merge ha hp hne hpids hmem _ rfl
      rw [if_neg (not_not.mpr hret), plimitsProcessMerge, ha, Option.bind_some, hmerge]
      exact ⟨_,rfl,h₁.drop ha₁ hnil (hroot₁ ▸ hroot),⟨hk.memUsed,hk.plimits⟩,fun hr => absurd rfl hr⟩
    · rw [if_pos hret]
      exact ⟨_,rfl,h,.refl s,fun _ => rfl⟩

/-- A set is new, or changes without its processes. -/
theorem Consistent.setSet (h : Consistent s) (hset : SetInv s.pcb a set)
    (hparent : set.parent ≠ some a ∧ (a ≠ s.g_rootPLimite → set.parent ≠ none)) : Consistent (s.setSet a set) := by
  have hlive : ∀ b, s.sets b ≠ none → Function.update s.sets a (some set) b ≠ none := by
    intro b hb
    rw [Function.update_apply]
    split_ifs
    · exact Option.some_ne_none set
    · exact hb
  refine ⟨fun b set₁ hb => ?_,hlive _ h.root,fun p b hp => hlive b (h.live p b hp),fun b set₁ hb => ?_⟩
  · change Function.update s.sets a (some set) b = some set₁ at hb
    rw [Function.update_apply] at hb
    split_ifs at hb with hba
    · rw [hba, ← Option.some.inj hb]
      exact hset
    · exact h.set b set₁ hb
  · change Function.update s.sets a (some set) b = some set₁ at hb
    rw [Function.update_apply] at hb
    split_ifs at hb with hba
    · rw [hba, ← Option.some.inj hb]
      exact hparent
    · exact h.parent b set₁ hb

/-- A new set takes the process that creates it when its bytes fit. -/
theorem Consistent.create (h : Consistent s) (parent run : Nat) (new : Option Nat) (pidAlloc memAlloc : Bool)
    (hp : s.sets parent ≠ none) (hnew : ∀ a ∈ new, s.sets a = none)
    (hok : new ≠ none → pidAlloc = true → ∀ set ∈ s.sets parent,
      if memAlloc = true then (s.pcb run).plimits ≠ none → (s.pcb run).memUsed ≤ set.mem.limit
      else set.pids.pidCount ≥ set.pids.pidLimit) :
    ∃ r, osPLimitsCreate s parent run new pidAlloc memAlloc = some r ∧ Consistent r.1 ∧ Kept s r.1 ∧ (r.2 = none → r.1 = s) := by
  cases new with
  | none => exact ⟨_,rfl,h,.refl s,fun _ => rfl⟩
  | some a =>
    have ha := hnew a rfl
    obtain ⟨set,hset⟩ := Option.ne_none_iff_exists'.mp hp
    have hinv := h.set parent set hset
    simp only [osPLimitsCreate, hset, Option.bind_some]
    cases pidAlloc with
    | false => exact ⟨_,rfl,h,.refl s,fun _ => rfl⟩
    | true =>
      have hcond := hok (Option.some_ne_none a) rfl set hset
      rw [if_neg (by decide)]
      cases memAlloc with
      | false =>
        rw [if_neg (by decide)] at hcond
        have hcheck : plimitsMigrateCheck (some (pidLimiterCopy pidLimiterAlloc set.pids)) none set = some EPERM := by
          rw [plimitsMigrateCheck, if_pos]
          refine decide_eq_false (not_not.mpr ?_)
          change (0 : UInt32) + set.pids.pidCount ≥ set.pids.pidLimit
          rw [UInt32.zero_add]
          exact hcond
        rw [if_pos rfl, hcheck]
        exact ⟨_,rfl,h,.refl s,fun _ => rfl⟩
      | true =>
        rw [if_pos rfl] at hcond
        rw [if_neg (by decide)]
        have hnone : ∀ p, (s.pcb p).plimits ≠ some a := fun p hp => h.live p a hp ha
        have hfresh : SetInv s.pcb a
            ⟨some parent,[],0,pidLimiterCopy pidLimiterAlloc set.pids,osMemLimiterCopy osMemLimiterAlloc set.mem⟩ :=
          ⟨List.nodup_nil,fun p => ⟨fun hm => absurd hm List.not_mem_nil,fun hc => absurd hc (hnone p)⟩,rfl,rfl,Nat.zero_le _,
            hinv.pos,hinv.max,rfl,Nat.zero_le _⟩
        have hne : parent ≠ a := by
          rintro rfl
          exact Option.some_ne_none set (hset.symm.trans ha)
        have h₀ := h.setSet hfresh ⟨fun hc => hne (Option.some.inj hc),fun _ => Option.some_ne_none parent⟩
        obtain ⟨s₁,hdelete,h₁,hr⟩ := h₀.delete run
        have ha₁ : s₁.sets a = some _ := (hr.sets a (hnone run)).trans (Function.update_self _ _ _)
        have hrun : (s₁.pcb run).plimits = none := by rw [hr.self]
        have hmem : (s₁.pcb run).memUsed = (s.pcb run).memUsed := by rw [hr.self]; rfl
        have hw : LimitCall.NoWrap 0 (s₁.pcb run).memUsed set.mem.limit := fun _ => by
          change 0 + (s₁.pcb run).memUsed.toNat < 2^64
          rw [Nat.zero_add]
          exact (s₁.pcb run).memUsed.toNat_lt
        simp only [hdelete, Option.bind_some]
        by_cases hfit : (s.pcb run).memUsed ≤ set.mem.limit
        · have hroom : Room ⟨some parent,[],0,pidLimiterCopy pidLimiterAlloc set.pids,osMemLimiterCopy osMemLimiterAlloc set.mem⟩
              (s₁.pcb run) := by
            refine ⟨hinv.pos,?_⟩
            change 0 + (s₁.pcb run).memUsed.toNat ≤ set.mem.limit.toNat
            rw [Nat.zero_add, hmem]
            exact UInt64.le_iff_toNat_le.mp hfit
          obtain ⟨s₂,hlink,h₂,hlinked⟩ := h₁.link ha₁ hrun hroom
          rw [plimitsAddProcess_room h₁ ha₁ hrun hroom, hlink]
          have hk := Kept.move hr hlinked
          exact ⟨_,rfl,h₂,⟨hk.memUsed,hk.plimits⟩,fun hc => absurd hc (Option.some_ne_none a)⟩
        · have hout : (s.pcb run).plimits = none := by
            by_contra hin
            exact hfit (hcond hin)
          obtain ⟨r,hadd,h₂,hk,-⟩ := h₁.add (some a) run (by rw [Option.getD_some, ha₁]; exact Option.some_ne_none _)
            (fun set₁ hset₁ => by rw [Option.getD_some, ha₁] at hset₁; cases hset₁; exact hw)
          rw [hadd]
          refine ⟨_,rfl,h₂,⟨fun q => (hk.memUsed q).trans ?_,fun q hq => hk.plimits q ?_⟩,fun hc => absurd hc (Option.some_ne_none a)⟩
          · by_cases hq : q = run
            · rw [hq, hmem]
            · rw [hr.other q hq]
              rfl
          · rw [hr.other q (fun he => hq (he ▸ hout))]
            exact hq

theorem SameSets.setSet (ha : s.sets a = some set) (hl : set'.processList = set.processList) : SameSets s (s.setSet a set') := by
  refine ⟨fun _ => rfl,fun b => ?_⟩
  change (Function.update s.sets a (some set') b).map ProcLimiterSet.processList = _
  rw [Function.update_apply]
  split_ifs with hb
  · rw [hb, ha, Option.map_some, Option.map_some, hl]
  · rfl

/-- The bytes of a process and of its set change by the same amount. -/
theorem SetInv.charge (h : SetInv s.pcb a set) (hp : (s.pcb p).plimits = some a) {memUsed : UInt64} {mem : ProcMemLimiter}
    (hsum : mem.usage.toNat + (s.pcb p).memUsed.toNat = set.mem.usage.toNat + memUsed.toNat)
    (hle : mem.usage.toNat ≤ mem.limit.toNat) :
    SetInv (Function.update s.pcb p { s.pcb p with memUsed := memUsed }) a { set with mem := mem } := by
  refine ⟨h.nodup,fun q => (h.mem_iff q).trans ?_,h.pidCount,h.pids,h.le,h.pos,h.max,?_,hle⟩
  · rw [Function.update_apply]
    split_ifs with hq
    · rw [hq]
    · rfl
  · have hother := sum_map_update (f := fun q => (s.pcb q).memUsed.toNat)
      (g := fun q => (Function.update s.pcb p { s.pcb p with memUsed := memUsed } q).memUsed.toNat) h.nodup (h.mem hp)
      fun q _ hq => by rw [Function.update_of_ne hq]
    have husage := h.usage
    simp only [Function.update_self] at hother
    dsimp only
    omega

/-- The bytes of one process become n; no process moves. -/
structure Charged (s : PlimitState) (p n : Nat) (s' : PlimitState) : Prop where
  plimits : ∀ q, (s'.pcb q).plimits = (s.pcb q).plimits
  self : (s'.pcb p).memUsed.toNat = n
  other : ∀ q, q ≠ p → (s'.pcb q).memUsed = (s.pcb q).memUsed

theorem Charged.refl (s : PlimitState) (p : Nat) : Charged s p (s.pcb p).memUsed.toNat s := ⟨fun _ => rfl,rfl,fun _ _ => rfl⟩

private theorem charged_setPcb (m : UInt64) : Charged s p m.toNat ((s.setSet a set).setPcb p { s.pcb p with memUsed := m }) := by
  refine ⟨fun q => ?_,?_,fun q hq => ?_⟩
  · change (Function.update s.pcb p _ q).plimits = _
    rw [Function.update_apply]
    split_ifs with hq
    · rw [hq]
    · rfl
  · change (Function.update s.pcb p _ p).memUsed.toNat = _
    rw [Function.update_self]
  · exact congrArg ProcessCB.memUsed (Function.update_of_ne hq _ _)

/-- The memory of a process and of its set grows, or the limit refuses it. -/
theorem Consistent.memAdd (h : Consistent s) (run : Nat) (size : UInt32)
    (hok : ∀ a ∈ (s.pcb run).plimits, ∀ set ∈ s.sets a, LimitCall.NoWrap set.mem.usage size.toUInt64 set.mem.limit) :
    ∃ r, osMemLimitCheckAndMemAdd s run size = some r ∧ Consistent r.1 ∧ (r.2 ≠ LOS_OK → SameSets s r.1) ∧
      Charged s run ((s.pcb run).memUsed.toNat + if r.2 = LOS_OK ∧ (s.pcb run).plimits.isSome = true then size.toNat else 0) r.1 := by
  rw [osMemLimitCheckAndMemAdd]
  cases hp : (s.pcb run).plimits with
  | none => exact ⟨_,rfl,h,fun _ => .refl s,.refl s run⟩
  | some a =>
    obtain ⟨set,ha⟩ := Option.ne_none_iff_exists'.mp (h.live run a hp)
    have hset := h.set a set ha
    have hparent := h.parent a set ha
    dsimp only
    rw [ha, Option.map_some]
    by_cases hgt : set.mem.usage + size.toUInt64 > set.mem.limit
    · rw [if_pos hgt]
      refine ⟨_,rfl,h.setSet ⟨hset.nodup,hset.mem_iff,hset.pidCount,hset.pids,hset.le,hset.pos,hset.max,hset.usage,hset.usage_le⟩ hparent,
        fun _ => .setSet ha rfl,⟨fun _ => rfl,?_,fun _ _ => rfl⟩⟩
      rw [if_neg fun hret => absurd hret.1 (show ¬ ENOMEM = LOS_OK by decide)]
      rfl
    · rw [if_neg hgt]
      have hle : set.mem.usage + size.toUInt64 ≤ set.mem.limit := UInt64.not_lt.mp hgt
      have hw := hok a hp set ha hle
      have hsum : (set.mem.usage + size.toUInt64).toNat = set.mem.usage.toNat + size.toUInt64.toNat := toNat_add hw
      have hmem : ((s.pcb run).memUsed + size.toUInt64).toNat = (s.pcb run).memUsed.toNat + size.toUInt64.toNat :=
        toNat_add ((Nat.add_le_add_right (hset.memUsed_le hp) _).trans_lt hw)
      refine ⟨_,rfl,h.edit ha (hset.charge hp ?_ ?_) rfl (fun b hb => ?_) (fun b hb => ?_),fun hret => absurd rfl hret,?_⟩
      · change (set.mem.usage + size.toUInt64).toNat + _ = _
        rw [hsum, hmem]
        omega
      · exact UInt64.le_iff_toNat_le.mp hle
      · exact (Option.some.inj (hp.symm.trans hb)).symm
      · exact (Option.some.inj (hp.symm.trans hb)).symm
      · rw [if_pos ⟨rfl,rfl⟩, ← UInt32.toNat_toUInt64, ← hmem]
        exact charged_setPcb _

/-- The memory of a process and of its set shrinks, unless the process has no more than it frees. -/
theorem Consistent.memFree (h : Consistent s) (run : Nat) (size : UInt32) : ∃ s', osMemLimitMemFree s run size = some s' ∧ Consistent s' ∧
    Charged s run ((s.pcb run).memUsed.toNat -
      if size.toNat < (s.pcb run).memUsed.toNat ∧ (s.pcb run).plimits.isSome = true then size.toNat else 0) s' := by
  rw [osMemLimitMemFree]
  cases hp : (s.pcb run).plimits with
  | none => exact ⟨_,rfl,h,by rw [if_neg (by simp), Nat.sub_zero]; exact .refl s run⟩
  | some a =>
    obtain ⟨set,ha⟩ := Option.ne_none_iff_exists'.mp (h.live run a hp)
    have hset := h.set a set ha
    have hused := hset.memUsed_le hp
    have hiff : (s.pcb run).memUsed > size.toUInt64 ↔ size.toNat < (s.pcb run).memUsed.toNat := by
      rw [gt_iff_lt, UInt64.lt_iff_toNat_lt, UInt32.toNat_toUInt64]
    dsimp only
    rw [ha, Option.map_some]
    by_cases hgt : (s.pcb run).memUsed > size.toUInt64
    · have hlt := hiff.mp hgt
      rw [if_pos hgt]
      have husage : (set.mem.usage - size.toUInt64).toNat = set.mem.usage.toNat - size.toNat := by
        rw [toNat_sub, UInt32.toNat_toUInt64]
        rw [UInt32.toNat_toUInt64]
        omega
      have hmem : ((s.pcb run).memUsed - size.toUInt64).toNat = (s.pcb run).memUsed.toNat - size.toNat := by
        rw [toNat_sub, UInt32.toNat_toUInt64]
        rw [UInt32.toNat_toUInt64]
        omega
      refine ⟨_,rfl,h.edit ha (hset.charge hp ?_ ?_) rfl (fun b hb => ?_) (fun b hb => ?_),?_⟩
      · change (set.mem.usage - size.toUInt64).toNat + _ = _
        rw [husage, hmem]
        omega
      · change (set.mem.usage - size.toUInt64).toNat ≤ set.mem.limit.toNat
        rw [husage]
        exact (Nat.sub_le _ _).trans hset.usage_le
      · exact (Option.some.inj (hp.symm.trans hb)).symm
      · exact (Option.some.inj (hp.symm.trans hb)).symm
      · rw [if_pos ⟨hlt,rfl⟩, ← hmem]
        exact charged_setPcb _
    · rw [if_neg hgt, if_neg fun hc => hgt (hiff.mpr hc.1), Nat.sub_zero]
      exact ⟨s,rfl,h,.refl s run⟩

theorem Consistent.setPidLimit (h : Consistent s) (ha : s.sets a ≠ none) (pidMax : UInt32) :
    ∃ r, pidLimitSetPidLimit s a pidMax = some r ∧ Consistent r.1 ∧ r.1.pcb = s.pcb ∧ (r.2 ≠ LOS_OK → r.1 = s) := by
  obtain ⟨set,ha⟩ := Option.ne_none_iff_exists'.mp ha
  have hset := h.set a set ha
  rw [pidLimitSetPidLimit]
  split_ifs with hmax hroot
  · exact ⟨_,rfl,h,rfl,fun _ => rfl⟩
  · exact ⟨_,rfl,h,rfl,fun _ => rfl⟩
  · rw [ha, Option.map_some]
    by_cases hge : set.pids.pidCount ≥ pidMax
    · rw [if_pos hge]
      exact ⟨_,rfl,h,rfl,fun _ => rfl⟩
    · rw [if_neg hge]
      have hlt : set.processList.length < pidMax.toNat := hset.pids ▸ UInt32.lt_iff_toNat_lt.mp (UInt32.not_le.mp hge)
      exact ⟨_,rfl,h.setSet ⟨hset.nodup,hset.mem_iff,hset.pidCount,hset.pids,hlt.le,(Nat.zero_le _).trans_lt hlt,
        UInt32.le_iff_toNat_le.mp (UInt32.not_lt.mp hmax),hset.usage,hset.usage_le⟩ (h.parent a set ha),rfl,fun hr => absurd rfl hr⟩

theorem Consistent.setMemLimit (h : Consistent s) (ha : s.sets a ≠ none) (value : UInt64) :
    ∃ r, osMemLimitSetMemLimit s a value = some r ∧ Consistent r.1 ∧ r.1.pcb = s.pcb ∧ (r.2 ≠ LOS_OK → r.1 = s) := by
  obtain ⟨set,ha⟩ := Option.ne_none_iff_exists'.mp ha
  have hset := h.set a set ha
  rw [osMemLimitSetMemLimit]
  split_ifs with hzero hroot
  · exact ⟨_,rfl,h,rfl,fun _ => rfl⟩
  · exact ⟨_,rfl,h,rfl,fun _ => rfl⟩
  · rw [ha, Option.map_some]
    by_cases hlt : value < set.mem.usage
    · rw [if_pos hlt]
      exact ⟨_,rfl,h,rfl,fun _ => rfl⟩
    · rw [if_neg hlt]
      exact ⟨_,rfl,h.setSet ⟨hset.nodup,hset.mem_iff,hset.pidCount,hset.pids,hset.le,hset.pos,hset.max,hset.usage,
        UInt64.le_iff_toNat_le.mp (UInt64.not_lt.mp hlt)⟩ (h.parent a set ha),rfl,fun hr => absurd rfl hr⟩

end LiteOsKernel.Plimit
