import LiteOsKernel.Ipc.MuxLevel

/-! Priority inheritance between two calls of the mutexes: every owner is at the level of the tasks that wait for it. -/
namespace LiteOsKernel.Ipc.Mux
open LiteOsKernel.Sched.Priority
open MuxState

/-- The task is in LOS_MuxLock for the mutex: it waits, or it timed out and has not run since. -/
def MuxState.Waits (s : MuxState) (u m : Nat) : Prop :=
  (∃ w ∈ (s.mux m).muxList, w.task = u) ∨ ∃ r ∈ s.resumed, r.timeout = true ∧ r.mutex = m ∧ r.task = u

def MuxState.Settled (s : MuxState) (u : Nat) : Prop := ∀ m, ¬ s.Waits u m

/-- The task owns the mutex, and others wait for it. -/
def MuxState.Contended (s : MuxState) (o m : Nat) : Prop := (s.mux m).owner = some o ∧ (s.mux m).muxList ≠ []

/-- Owners, counts and lists, as far as they matter here. -/
structure CountInv (s : MuxState) : Prop where
  owned : ∀ m, 0 < (s.mux m).muxCount ↔ (s.mux m).owner ≠ none
  single : ∀ m, (s.mux m).attr.type ≠ .recursive → (s.mux m).muxCount ≤ 1
  waiting : ∀ m, (s.mux m).muxList ≠ [] → (s.mux m).owner ≠ none
  protocol : ∀ m, (s.mux m).attr.protocol = .inherit
  ops : ∀ t, (s.tcb t).ops = .hpf

/-- Every owner is at least at the level of the tasks that wait for it. A level that it has or has saved is its own, or that of a task
in LOS_MuxLock for the one mutex of its that others wait for. -/
structure InheritInv (s : MuxState) (base : Nat → Nat) : Prop where
  count : CountInv s
  sp : ∀ t, SpInv (s.tcb t).sp (base t)
  above : ∀ m o, (s.mux m).owner = some o → ∀ w ∈ (s.mux m).muxList, AtLeast (s.tcb o).sp (s.tcb w.task).sp
  saved : ∀ o k, k = (s.tcb o).sp.priority ∨ (s.tcb o).sp.priBitmap.testBit k = true → k = base o ∨
    ∃ m u, s.Contended o m ∧ s.Waits u m ∧ (s.tcb u).sp.priority = k
  one : ∀ o m m', s.Contended o m → s.Contended o m' → m = m'

variable {s s' : MuxState} {own : Nat → Nat} {t m : Nat} {w : Waiter} {r : Resumed} {mutex : LosMux}

/-- One mutex changes, and no task its scheduler. -/
theorem CountInv.step (h : CountInv s) (hmux : s'.mux = Function.update s.mux m mutex) (hops : ∀ u, (s'.tcb u).ops = (s.tcb u).ops)
    (howned : 0 < mutex.muxCount ↔ mutex.owner ≠ none) (hsingle : mutex.attr.type ≠ .recursive → mutex.muxCount ≤ 1)
    (hwait : mutex.muxList ≠ [] → mutex.owner ≠ none) (hattr : mutex.attr = (s.mux m).attr) : CountInv s' := by
  refine ⟨fun m' => ?_,fun m' => ?_,fun m' => ?_,fun m' => ?_,fun u => (hops u).trans (h.ops u)⟩ <;> rw [hmux] <;>
    by_cases hm : m' = m
  · subst hm
    rw [Function.update_self]
    exact howned
  · rw [Function.update_of_ne hm]
    exact h.owned m'
  · subst hm
    rw [Function.update_self]
    exact hsingle
  · rw [Function.update_of_ne hm]
    exact h.single m'
  · subst hm
    rw [Function.update_self]
    exact hwait
  · rw [Function.update_of_ne hm]
    exact h.waiting m'
  · subst hm
    rw [Function.update_self, hattr]
    exact h.protocol m'
  · rw [Function.update_of_ne hm]
    exact h.protocol m'

theorem CountInv.same (h : CountInv s) (hs : SameLocks s s') : CountInv s' := by
  refine ⟨?_,?_,?_,?_,fun u => (hs.ops u).trans (h.ops u)⟩ <;> rw [hs.mux]
  · exact h.owned
  · exact h.single
  · exact h.waiting
  · exact h.protocol

/-- A mutex for which no task waits changes its owner or its count. -/
theorem InheritInv.quiet (h : InheritInv s own) (hmux : s'.mux = Function.update s.mux m mutex) (hl : mutex.muxList = (s.mux m).muxList)
    (ho : (s.mux m).muxList = [] ∨ mutex.owner = (s.mux m).owner) (hres : s'.resumed = s.resumed)
    (hsp : ∀ u, (s'.tcb u).sp = (s.tcb u).sp) (hcount : CountInv s') : InheritInv s' own := by
  have hlist : ∀ m', (s'.mux m').muxList = (s.mux m').muxList := by
    intro m'
    rw [hmux]
    by_cases hm : m' = m
    · subst hm
      rw [Function.update_self, hl]
    · rw [Function.update_of_ne hm]
  have howner : ∀ m', (s.mux m').muxList ≠ [] → (s'.mux m').owner = (s.mux m').owner := by
    intro m' hne
    rw [hmux]
    by_cases hm : m' = m
    · subst hm
      rw [Function.update_self]
      exact ho.resolve_left hne
    · rw [Function.update_of_ne hm]
  have hcont : ∀ o m', s'.Contended o m' ↔ s.Contended o m' := by
    intro o m'
    rw [MuxState.Contended, MuxState.Contended, hlist]
    refine and_congr_left fun hne => ?_
    rw [howner m' hne]
  have hwaits : ∀ u m', s'.Waits u m' ↔ s.Waits u m' := by
    intro u m'
    rw [MuxState.Waits, MuxState.Waits, hlist, hres]
  refine ⟨hcount,fun u => ?_,fun m' o ho' w hw => ?_,fun o k => ?_,fun o m1 m2 => ?_⟩
  · rw [hsp]
    exact h.sp u
  · rw [hlist] at hw
    rw [howner m' (List.ne_nil_of_mem hw)] at ho'
    rw [hsp, hsp]
    exact h.above m' o ho' w hw
  · simp only [hsp, hcont, hwaits]
    exact h.saved o k
  · rw [hcont, hcont]
    exact h.one o m1 m2

theorem CountInv.schedParamGet (h : CountInv s) (t : Nat) :
    (s.tcb t).schedParamGet = ⟨some (s.tcb t).sp.policy,(s.tcb t).sp.basePrio,(s.tcb t).sp.priority⟩ := by
  rw [LosTaskCB.schedParamGet, h.ops]

/-- The owner is raised to the level of the task, or it is at that level already. -/
private theorem osMuxBitmapSet_level {o : Nat} (h : CountInv s) (ho : (s.mux m).owner = some o) (hset : s.osMuxBitmapSet m t = some s')
    (hlevel : AtLeast (s.tcb o).sp (s.tcb t).sp ∨
      (s.tcb o).sp.policy = (s.tcb t).sp.policy ∧ (s.tcb o).sp.basePrio = (s.tcb t).sp.basePrio) :
    AtLeast (s.tcb o).sp (s.tcb t).sp ∧ s' = s ∨ ¬ AtLeast (s.tcb o).sp (s.tcb t).sp ∧ (s.tcb o).sp.basePrio = (s.tcb t).sp.basePrio ∧
      (s.tcb t).sp.priority < (s.tcb o).sp.priority ∧
      s' = s.setTcb o { s.tcb o with sp := hpfPriorityInheritance (s.tcb o).sp (s.tcb t).schedParamGet } := by
  rw [MuxState.osMuxBitmapSet, if_neg (not_not.mpr (h.protocol m)), ho, Option.map_some, Option.some.injEq] at hset
  have hcmp : s.cmp o t = if (s.tcb o).sp.policy = (s.tcb t).sp.policy then hpfParamCompare (s.tcb o).sp (s.tcb t).sp else 0 := by
    rw [MuxState.cmp, osSchedParamCompare, h.ops, h.ops]
  by_cases hat : AtLeast (s.tcb o).sp (s.tcb t).sp
  · refine .inl ⟨hat,?_⟩
    have hle : s.cmp o t ≤ 0 := by
      rw [hcmp, hpfParamCompare]
      rw [AtLeast] at hat
      split_ifs <;> omega
    rw [if_neg (by omega)] at hset
    exact hset.symm
  · obtain ⟨hpol,hbase⟩ := hlevel.resolve_left hat
    have hlt : (s.tcb t).sp.priority < (s.tcb o).sp.priority := by
      rw [AtLeast] at hat
      omega
    refine .inr ⟨hat,hbase,hlt,?_⟩
    have hpos : 0 < s.cmp o t := by
      rw [hcmp, if_pos hpol, hpfParamCompare, if_neg (not_not.mpr hbase)]
      omega
    rw [if_pos hpos, MuxState.priorityInheritance, h.ops] at hset
    exact hset.symm

private theorem setTcb_sp (s : MuxState) (o u : Nat) (sp : SchedHPF) :
    ((s.setTcb o { s.tcb o with sp := sp }).tcb u).sp = if u = o then sp else (s.tcb u).sp := by
  rw [MuxState.setTcb]
  by_cases hu : u = o
  · subst hu
    simp
  · simp [hu]

theorem Idle.settled (h : s.Idle t) : s.Settled t := by
  rintro m (⟨w,hw,he⟩ | ⟨r,hr,-,-,he⟩)
  · exact h.1 m w hw he
  · exact h.2 r hr he

private theorem waits_of_mem (hw : w ∈ (s.mux m).muxList) : s.Waits w.task m := .inl ⟨w,hw,rfl⟩

/-- The levels after OsMuxBitmapSet: those of before, but for the owner, which is at the level of the task at least. -/
theorem InheritInv.raise {o : Nat} (h : InheritInv s own) (ho : (s.mux m).owner = some o) (hset : s.osMuxBitmapSet m t = some s')
    (hlevel : AtLeast (s.tcb o).sp (s.tcb t).sp ∨
      (s.tcb o).sp.policy = (s.tcb t).sp.policy ∧ (s.tcb o).sp.basePrio = (s.tcb t).sp.basePrio)
    (hsettled : AtLeast (s.tcb o).sp (s.tcb t).sp ∨ s.Settled o) :
    ∃ sp, (∀ u, (s'.tcb u).sp = if u = o then sp else (s.tcb u).sp) ∧ SpInv sp (own o) ∧ AtLeast sp (s.tcb t).sp ∧
      AtLeast sp (s.tcb o).sp ∧ (sp = (s.tcb o).sp ∨ s.Settled o ∧ o ≠ t) ∧
      ∀ k, k = sp.priority ∨ sp.priBitmap.testBit k = true → k = (s.tcb t).sp.priority ∨ k = (s.tcb o).sp.priority ∨
        (s.tcb o).sp.priBitmap.testBit k = true := by
  rcases osMuxBitmapSet_level h.count ho hset hlevel with ⟨hat,rfl⟩ | ⟨hat,hbase,hlt,rfl⟩
  · refine ⟨(s'.tcb o).sp,fun u => ?_,h.sp o,hat,.inr ⟨rfl,Nat.le_refl _⟩,.inl rfl,fun k hk => .inr hk⟩
    split_ifs with hu
    · rw [hu]
    · rfl
  · have hparam := h.count.schedParamGet t
    obtain ⟨hinv,hp,hbit⟩ := (h.sp o).raise (s.tcb t).schedParamGet (by rw [hparam]; nofun) (by rw [hparam]; exact hlt)
    have hp : _ = (s.tcb t).sp.priority := hp.trans (by rw [hparam])
    have hb := hpfPriorityInheritance_basePrio (s.tcb o).sp (s.tcb t).schedParamGet
    refine ⟨_,fun u => setTcb_sp ..,hinv,.inr ⟨hb.trans hbase,hp.le⟩,.inr ⟨hb,hp.trans_le hlt.le⟩,
      .inr ⟨hsettled.resolve_left hat,?_⟩,fun k hk => ?_⟩
    · rintro rfl
      exact Nat.lt_irrefl _ hlt
    · rcases hk with rfl | hk
      · exact .inl hp
      · exact .inr (hbit k hk)

/-- Where tasks come to wait for the mutex, its owner has tasks that wait for it. -/
private theorem contended_join {o : Nat} {l : List Waiter} (hs : SameLocks s s') (ho : (s.mux m).owner = some o) (hl : l ≠ [])
    (o' m' : Nat) :
    (s'.setMux m { s'.mux m with muxList := l }).Contended o' m' ↔ o' = o ∧ m' = m ∨ s.Contended o' m' := by
  by_cases hm : m' = m
  · subst hm
    rw [MuxState.Contended, setMux_self]
    simp only [hs.mux, ho, Option.some.injEq]
    refine ⟨fun hc => .inl ⟨hc.1.symm,trivial⟩,fun hc => ⟨?_,hl⟩⟩
    refine hc.elim (fun hc => hc.1.symm) fun hc => ?_
    exact Option.some.inj (ho.symm.trans hc.1)
  · rw [MuxState.Contended, setMux_of_ne hm, hs.mux]
    exact ⟨.inr,fun hc => hc.resolve_left fun hc => hm hc.2⟩

private theorem waits_join {l : List Waiter} {u m' : Nat} (hs : SameLocks s s') (hl : ∀ v ∈ (s.mux m).muxList, v ∈ l)
    (hu : s.Waits u m') : (s'.setMux m { s'.mux m with muxList := l }).Waits u m' := by
  rcases hu with ⟨v,hv,he⟩ | ⟨r,hr,hlate⟩
  · refine .inl ⟨v,?_,he⟩
    by_cases hm : m' = m
    · subst hm
      rw [setMux_self]
      exact hl v hv
    · rw [setMux_of_ne hm, hs.mux]
      exact hv
  · exact .inr ⟨r,hs.resumed ▸ hr,hlate⟩

/-- A task comes to wait for a mutex, and its owner is raised where that is needed. -/
theorem InheritInv.wait {o n : Nat} {l : List Waiter} (h : InheritInv s own) (ho : (s.mux m).owner = some o)
    (hset : s.osMuxBitmapSet m t = some s') (hl : l.Perm (⟨t,n⟩ :: (s.mux m).muxList))
    (hlevel : AtLeast (s.tcb o).sp (s.tcb t).sp ∨
      (s.tcb o).sp.policy = (s.tcb t).sp.policy ∧ (s.tcb o).sp.basePrio = (s.tcb t).sp.basePrio)
    (hone : ∀ m', s.Contended o m' → m' = m) (hsettled : AtLeast (s.tcb o).sp (s.tcb t).sp ∨ s.Settled o) :
    InheritInv (s'.setMux m { s'.mux m with muxList := l }) own := by
  have hmem : ∀ v, v ∈ l ↔ v = ⟨t,n⟩ ∨ v ∈ (s.mux m).muxList := fun v => by rw [hl.mem_iff, List.mem_cons]
  obtain ⟨s1,he,hs⟩ := osMuxBitmapSet_eq (s := s) (m := m) (by rw [ho]; nofun) t
  rw [hset, Option.some.injEq] at he
  subst he
  obtain ⟨sp,hsp,hinv,hat,hown,hchange,hlevels⟩ := h.raise ho hset hlevel hsettled
  -- a task in LOS_MuxLock keeps its level
  have hkeep : ∀ u m', s.Waits u m' → (s'.tcb u).sp = (s.tcb u).sp := by
    intro u m' hu
    rw [hsp]
    split_ifs with he
    · subst he
      exact hchange.elim id fun hc => absurd hu (hc.1 m')
    · rfl
  have ht : (s'.tcb t).sp = (s.tcb t).sp := by
    rw [hsp]
    split_ifs with he
    · subst he
      exact hchange.elim id fun hc => absurd rfl hc.2
    · rfl
  have hlower : ∀ a, AtLeast (s.tcb o).sp a → AtLeast sp a := by
    intro a ha
    rw [AtLeast] at ha hown ⊢
    omega
  have hself : (s'.mux m).owner = some o := by rw [hs.mux, ho]
  have hcont := contended_join hs ho (List.ne_nil_of_mem ((hmem ⟨t,n⟩).mpr (.inl rfl)))
  refine ⟨?_,fun u => ?_,fun m' o' ho' v hv => ?_,fun o' k hk => ?_,fun o' m1 m2 h1 h2 => ?_⟩
  · exact (h.count.same hs).step rfl (fun _ => rfl) ((h.count.same hs).owned m) ((h.count.same hs).single m)
      (fun _ => by rw [hself]; nofun) rfl
  · change SpInv (s'.tcb u).sp (own u)
    rw [hsp]
    split_ifs with he
    · exact he ▸ hinv
    · exact h.sp u
  · change AtLeast (s'.tcb o').sp (s'.tcb v.task).sp
    have hc := (hcont o' m').mp ⟨ho',List.ne_nil_of_mem hv⟩
    have hcase : v = ⟨t,n⟩ ∧ o' = o ∨ v ∈ (s.mux m').muxList ∧ (s.mux m').owner = some o' := by
      by_cases hm : m' = m
      · subst hm
        rw [setMux_self] at hv ho'
        rw [hself] at ho'
        have ho' := Option.some.inj ho'
        exact ((hmem v).mp hv).imp (fun hv => ⟨hv,ho'.symm⟩) fun hv => ⟨hv,ho' ▸ ho⟩
      · rw [setMux_of_ne hm, hs.mux] at hv ho'
        exact .inr ⟨hv,ho'⟩
    rcases hcase with ⟨rfl,rfl⟩ | ⟨hv,ho'⟩
    · rw [ht, hsp, if_pos rfl]
      exact hat
    · rw [hkeep _ m' (waits_of_mem hv), hsp]
      have hab := h.above m' o' ho' v hv
      split_ifs with he
      · exact hlower _ (he ▸ hab)
      · exact hab
  · change k = (s'.tcb o').sp.priority ∨ (s'.tcb o').sp.priBitmap.testBit k = true at hk
    have hold : k = (s.tcb o').sp.priority ∨ (s.tcb o').sp.priBitmap.testBit k = true ∨ o' = o ∧ k = (s.tcb t).sp.priority := by
      rw [hsp] at hk
      split_ifs at hk with he
      · subst he
        rcases hlevels k hk with hk | hk | hk
        · exact .inr (.inr ⟨rfl,hk⟩)
        · exact .inl hk
        · exact .inr (.inl hk)
      · exact hk.imp id .inl
    rw [← or_assoc] at hold
    rcases hold with hk | ⟨rfl,rfl⟩
    · refine (h.saved o' k hk).imp id fun ⟨m',u,hc,hu,hp⟩ => ⟨m',u,(hcont o' m').mpr (.inr hc),waits_join hs (fun v hv => (hmem v).mpr (.inr hv)) hu,?_⟩
      change (s'.tcb u).sp.priority = k
      rw [hkeep u m' hu, hp]
    · refine .inr ⟨m,t,(hcont o' m).mpr (.inl ⟨rfl,rfl⟩),.inl ⟨⟨t,n⟩,?_,rfl⟩,congrArg SchedHPF.priority ht⟩
      rw [setMux_self]
      exact (hmem _).mpr (.inl rfl)
  · rcases (hcont o' m1).mp h1 with ⟨rfl,rfl⟩ | hc1 <;> rcases (hcont o' m2).mp h2 with ⟨ho2,rfl⟩ | hc2
    · rfl
    · exact (hone m2 hc2).symm
    · exact hone m1 (ho2 ▸ hc1)
    · exact h.one o' m1 m2 hc1 hc2

/-- What ops->priorityRestore does where all tasks are priority tasks. -/
private theorem CountInv.priorityRestore_sp (h : CountInv s) (o u : Nat) (list : List Waiter) (param : SchedParam) :
    ((s.priorityRestore o list param).tcb u).sp =
      if u = o then hpfPriorityRestore (s.tcb o).sp (list.map fun w => (s.tcb w.task).sp) param else (s.tcb u).sp := by
  have hfilter : ((list.map fun w => s.tcb w.task).filter fun cb => cb.ops = .hpf).map LosTaskCB.sp =
      list.map fun w => (s.tcb w.task).sp := by
    rw [List.filter_eq_self.mpr]
    · rw [List.map_map]
      rfl
    · intro cb hcb
      obtain ⟨w,-,rfl⟩ := List.mem_map.mp hcb
      simp [h.ops]
  rw [MuxState.priorityRestore, h.ops]
  simp only
  rw [setTcb_sp, hfilter]

/-- The owner hands its mutex to the first task that waits, and has its own priority again. -/
theorem InheritInv.pass {rest : List Waiter} (h : InheritInv s own) (hi : s.Idle t) (ho : (s.mux m).owner = some t)
    (hl : (s.mux m).muxList = w :: rest) (hres : s'.resumed = s.resumed ++ [⟨w.task,m,false⟩])
    (hmux : s'.mux = Function.update s.mux m { s.mux m with muxCount := 1, owner := some w.task, muxList := rest })
    (hops : ∀ u, (s'.tcb u).ops = (s.tcb u).ops)
    (hsp : ∀ u, (s'.tcb u).sp = ((s.priorityRestore t (s.mux m).muxList (s.tcb w.task).schedParamGet).tcb u).sp)
    (hlent : (s.tcb t).sp.priority = own t ∨ (s.tcb w.task).sp.priority ≤ (s.tcb t).sp.priority)
    (hone : rest = [] ∨ ∀ m', ¬ s.Contended w.task m') (hfirst : ∀ v ∈ rest, AtLeast (s.tcb w.task).sp (s.tcb v.task).sp)
    (hlate : ∀ r ∈ s.resumed, r.timeout = true → r.mutex = m → (s.tcb t).sp.priBitmap.testBit (s.tcb r.task).sp.priority = true →
      (s.tcb r.task).sp.priority = own t ∨ ∃ v ∈ (s.mux m).muxList, (s.tcb v.task).sp.priority = (s.tcb r.task).sp.priority) :
    InheritInv s' own := by
  have hcm : s.Contended t m := ⟨ho,hl ▸ nofun⟩
  have hparam := h.count.schedParamGet w.task
  have hprio : ∀ u, (s.tcb u).sp.priority < 32 := fun u => (h.sp u).le.trans_lt (h.sp u).base_lt
  obtain ⟨hinv,hp⟩ := (h.sp t).restore ((s.mux m).muxList.map fun v => (s.tcb v.task).sp)
    (s.tcb w.task).schedParamGet (by rw [hparam]; nofun) (by rw [hparam]; exact hlent)
    (fun v hv => by obtain ⟨v,-,rfl⟩ := List.mem_map.mp hv; exact hprio v.task) (fun k hk => by
      refine (h.saved t k (.inr hk)).elim .inl fun ⟨m',u,hc,hu,he⟩ => ?_
      obtain rfl := h.one t m' m hc hcm
      rcases hu with ⟨v,hv,rfl⟩ | ⟨r,hr,hf,hm,rfl⟩
      · exact .inr ⟨_,List.mem_map_of_mem hv,he⟩
      · refine (hlate r hr hf hm (he ▸ hk)).imp (fun hb => he.symm.trans hb) fun ⟨v,hv,hve⟩ => ?_
        exact ⟨_,List.mem_map_of_mem hv,hve.trans he⟩)
  have hspt : ∀ u, u ≠ t → (s'.tcb u).sp = (s.tcb u).sp := fun u hu => by
    rw [hsp, h.count.priorityRestore_sp, if_neg hu]
  have hselft : (s'.tcb t).sp = hpfPriorityRestore (s.tcb t).sp ((s.mux m).muxList.map fun v => (s.tcb v.task).sp)
      (s.tcb w.task).schedParamGet := by
    rw [hsp, h.count.priorityRestore_sp, if_pos rfl]
  have hkeep : ∀ u m', s.Waits u m' → (s'.tcb u).sp = (s.tcb u).sp := fun u m' hu =>
    hspt u fun he => Idle.settled hi m' (he ▸ hu)
  have hww : s.Waits w.task m := waits_of_mem (hl ▸ List.mem_cons_self)
  have hwt : w.task ≠ t := fun he => Idle.settled hi m (he ▸ hww)
  have hselfm : s'.mux m = { s.mux m with muxCount := 1, owner := some w.task, muxList := rest } := by
    rw [hmux, Function.update_self]
  have hother : ∀ m', m' ≠ m → s'.mux m' = s.mux m' := fun m' hm => by rw [hmux, Function.update_of_ne hm]
  have hcont : ∀ o m', s'.Contended o m' → o = w.task ∧ m' = m ∧ rest ≠ [] ∨ m' ≠ m ∧ s.Contended o m' := by
    intro o m' hc
    by_cases hm : m' = m
    · subst hm
      rw [MuxState.Contended, hselfm] at hc
      exact .inl ⟨(Option.some.inj hc.1).symm,rfl,hc.2⟩
    · rw [MuxState.Contended, hother m' hm] at hc
      exact .inr ⟨hm,hc⟩
  refine ⟨h.count.step hmux hops (iff_of_true Nat.one_pos nofun) (fun _ => Nat.le_refl 1) (fun _ => nofun) rfl,fun u => ?_,
    fun m' o ho' v hv => ?_,fun o k hk => ?_,fun o m1 m2 h1 h2 => ?_⟩
  · by_cases hu : u = t
    · subst hu
      rw [hselft]
      exact hinv
    · rw [hspt u hu]
      exact h.sp u
  · rcases hcont o m' ⟨ho',List.ne_nil_of_mem hv⟩ with ⟨rfl,rfl,-⟩ | ⟨hm,hc⟩
    · rw [hselfm] at hv
      have hv' : v ∈ (s.mux m').muxList := hl ▸ List.mem_cons_of_mem _ hv
      rw [hspt _ hwt, hkeep _ m' (waits_of_mem hv')]
      exact hfirst v hv
    · rw [hother m' hm] at hv
      have hot : o ≠ t := fun he => hm (h.one t m' m (he ▸ hc) hcm)
      rw [hspt o hot, hkeep _ m' (waits_of_mem hv)]
      exact h.above m' o hc.1 v hv
  · by_cases hot : o = t
    · subst hot
      rw [hselft] at hk
      refine .inl (hk.elim (fun hk => hk.trans hp) fun hk => ?_)
      rw [hinv.zero hp] at hk
      simp at hk
    · rw [hspt o hot] at hk
      refine (h.saved o k hk).imp id fun ⟨m',u,hc,hu,he⟩ => ?_
      have hm : m' ≠ m := by
        rintro rfl
        exact hot (Option.some.inj (hc.1.symm.trans ho))
      refine ⟨m',u,⟨(hother m' hm) ▸ hc.1,(hother m' hm) ▸ hc.2⟩,?_,(congrArg SchedHPF.priority (hkeep u m' hu)).trans he⟩
      refine hu.imp (fun ⟨v,hv,hve⟩ => ⟨v,(hother m' hm) ▸ hv,hve⟩) fun ⟨r,hr,hrest⟩ => ⟨r,?_,hrest⟩
      rw [hres]
      exact List.mem_append_left _ hr
  · rcases hcont o m1 h1 with ⟨ho1,hm1,hne1⟩ | ⟨hm1,hc1⟩ <;> rcases hcont o m2 h2 with ⟨ho2,hm2,hne2⟩ | ⟨hm2,hc2⟩
    · exact hm1.trans hm2.symm
    · exact absurd (ho1 ▸ hc2) ((hone.resolve_left hne1) m2)
    · exact absurd (ho2 ▸ hc1) ((hone.resolve_left hne2) m1)
    · exact h.one o m1 m2 hc1 hc2

/-- A task times out, and others still wait or the owner has its own priority. -/
theorem InheritInv.expire (h : InheritInv s own) (hw : w ∈ (s.mux m).muxList)
    (hlent : ∀ o, (s.mux m).owner = some o → (s.mux m).muxList.erase w ≠ [] ∨ (s.tcb o).sp.priority = own o) :
    InheritInv (s.muxTimeout m w) own := by
  have hselfm : (s.muxTimeout m w).mux m = { s.mux m with muxList := (s.mux m).muxList.erase w } := setMux_self ..
  have hother : ∀ m', m' ≠ m → (s.muxTimeout m w).mux m' = s.mux m' := fun m' hm => setMux_of_ne hm ..
  have hbit : (s.tcb w.task).ops.timeoutBit = true := by
    rw [h.count.ops]
    rfl
  have hsub : ∀ m' v, v ∈ ((s.muxTimeout m w).mux m').muxList → v ∈ (s.mux m').muxList := by
    intro m' v hv
    by_cases hm : m' = m
    · subst hm
      rw [hselfm] at hv
      exact List.mem_of_mem_erase hv
    · rw [hother m' hm] at hv
      exact hv
  have howner : ∀ m', ((s.muxTimeout m w).mux m').owner = (s.mux m').owner := by
    intro m'
    by_cases hm : m' = m
    · subst hm
      rw [hselfm]
    · rw [hother m' hm]
  have hcont : ∀ o m', (s.muxTimeout m w).Contended o m' → s.Contended o m' := by
    rintro o m' ⟨hc1,hc2⟩
    obtain ⟨v,hv⟩ := List.exists_mem_of_ne_nil _ hc2
    exact ⟨(howner m') ▸ hc1,List.ne_nil_of_mem (hsub m' v hv)⟩
  have hwaits : ∀ u m', s.Waits u m' → (s.muxTimeout m w).Waits u m' := by
    rintro u m' (⟨v,hv,rfl⟩ | ⟨r,hr,hrest⟩)
    · by_cases hm : m' = m
      · subst hm
        by_cases hvw : v = w
        · subst hvw
          exact .inr ⟨_,List.mem_append_right _ List.mem_cons_self,hbit,rfl,rfl⟩
        · refine .inl ⟨v,?_,rfl⟩
          rw [hselfm]
          exact (List.mem_erase_of_ne hvw).mpr hv
      · exact .inl ⟨v,(hother m' hm) ▸ hv,rfl⟩
    · exact .inr ⟨r,List.mem_append_left _ hr,hrest⟩
  refine ⟨h.count.step rfl (fun _ => rfl) (h.count.owned m) (h.count.single m) (fun _ => h.count.waiting m (List.ne_nil_of_mem hw)) rfl,
    h.sp,fun m' o ho v hv => h.above m' o ((howner m') ▸ ho) v (hsub m' v hv),fun o k hk => ?_,
    fun o m1 m2 h1 h2 => h.one o m1 m2 (hcont o m1 h1) (hcont o m2 h2)⟩
  by_cases hp : (s.tcb o).sp.priority = own o
  · refine .inl (hk.elim (fun hk => hk.trans hp) fun hk => ?_)
    change (s.tcb o).sp.priBitmap.testBit k = true at hk
    rw [(h.sp o).zero hp] at hk
    simp at hk
  · refine (h.saved o k hk).imp id fun ⟨m',u,hc,hu,he⟩ => ⟨m',u,⟨(howner m').trans hc.1,?_⟩,hwaits u m' hu,he⟩
    by_cases hm : m' = m
    · subst hm
      rw [hselfm]
      exact (hlent o hc.1).resolve_right hp
    · rw [hother m' hm]
      exact hc.2

/-- A resumed task runs. -/
def MuxState.run (s : MuxState) (r : Resumed) : MuxState := { s with resumed := s.resumed.erase r }

private theorem waits_run {u m' : Nat} (hw : s.Waits u m') :
    (s.run r).Waits u m' ∨ r.timeout = true ∧ r.mutex = m' ∧ r.task = u := by
  rcases hw with ⟨v,hv,he⟩ | ⟨r',hr',hrest⟩
  · exact .inl (.inl ⟨v,hv,he⟩)
  · by_cases hrr : r' = r
    · exact .inr (hrr ▸ hrest)
    · exact .inl (.inr ⟨r',(List.mem_erase_of_ne hrr).mpr hr',hrest⟩)

/-- A task that was granted the mutex runs. -/
theorem InheritInv.granted (h : InheritInv s own) (hf : r.timeout = false) : InheritInv (s.run r) own := by
  refine ⟨⟨h.count.owned,h.count.single,h.count.waiting,h.count.protocol,h.count.ops⟩,h.sp,h.above,fun o k hk => ?_,h.one⟩
  refine (h.saved o k hk).imp id fun ⟨m,u,hc,hu,he⟩ => ⟨m,u,hc,(waits_run hu).resolve_right fun hc => ?_,he⟩
  exact absurd (hf.symm.trans hc.1) (by decide)

/-- A task that timed out runs, and the owner of the mutex has other parameters: what is left to show is that they fit what is lent
to it, and the levels of the tasks that wait for it. -/
private theorem InheritInv.runWith {q : Nat} {sp' : SchedHPF} (h : InheritInv s own) (hq : (s.mux r.mutex).owner = some q)
    (hcount : CountInv (s.run r)) (hsame : SameLocks (s.run r) s')
    (hsp : ∀ u, (s'.tcb u).sp = if u = q then sp' else (s.tcb u).sp) (hbase : sp'.basePrio = (s.tcb q).sp.basePrio)
    (hinv : SpInv sp' (own q)) (habove : ∀ m, (s.mux m).owner = some q → ∀ w ∈ (s.mux m).muxList, AtLeast sp' (s.tcb w.task).sp)
    (hlevel : sp'.priority = (s.tcb q).sp.priority ∨ (s.run r).Settled q)
    (hsaved : ∀ k, k = sp'.priority ∨ sp'.priBitmap.testBit k = true → k = own q ∨
      (k = (s.tcb q).sp.priority ∨ (s.tcb q).sp.priBitmap.testBit k = true) ∧ k ≠ (s.tcb r.task).sp.priority) : InheritInv s' own := by
  have hcont : ∀ o m, s'.Contended o m ↔ s.Contended o m := by
    intro o m
    rw [MuxState.Contended, hsame.mux]
    rfl
  have hwaits : ∀ u m, (s.run r).Waits u m → s'.Waits u m := by
    intro u m hu
    rw [MuxState.Waits, hsame.mux, hsame.resumed]
    exact hu
  have hkeep : ∀ u m, (s.run r).Waits u m → (s'.tcb u).sp.priority = (s.tcb u).sp.priority ∧
      (s'.tcb u).sp.basePrio = (s.tcb u).sp.basePrio := by
    intro u m hu
    rw [hsp]
    split_ifs with he
    · subst he
      exact ⟨hlevel.resolve_right fun hc => hc m hu,hbase⟩
    · exact ⟨rfl,rfl⟩
  have hat : ∀ a w m, w ∈ (s.mux m).muxList → AtLeast a (s.tcb w.task).sp → AtLeast a (s'.tcb w.task).sp := by
    intro a w m hw ha
    obtain ⟨h1,h2⟩ := hkeep w.task m (.inl ⟨w,hw,rfl⟩)
    rw [AtLeast, h1, h2]
    exact ha
  have hmux : s'.mux = s.mux := hsame.mux
  refine ⟨hcount.same hsame,fun u => ?_,fun m o ho w hw => ?_,fun o k hk => ?_,fun o m1 m2 => ?_⟩
  · rw [hsp]
    split_ifs with he
    · exact he ▸ hinv
    · exact h.sp u
  · rw [hmux] at ho hw
    refine hat _ w m hw ?_
    rw [hsp]
    split_ifs with he
    · exact habove m (he ▸ ho) w hw
    · exact h.above m o ho w hw
  · by_cases ho : o = q
    · subst ho
      rw [hsp, if_pos rfl] at hk
      refine (hsaved k hk).elim .inl fun ⟨hk,hne⟩ => (h.saved o k hk).imp id fun ⟨m,u,hc,hu,he⟩ => ?_
      have hu' := (waits_run (r := r) hu).resolve_right fun hc => hne (hc.2.2 ▸ he.symm)
      exact ⟨m,u,(hcont o m).mpr hc,hwaits u m hu',(hkeep u m hu').1.trans he⟩
    · rw [hsp, if_neg ho] at hk
      refine (h.saved o k hk).imp id fun ⟨m,u,hc,hu,he⟩ => ?_
      have hu' := (waits_run (r := r) hu).resolve_right fun hm => ho (Option.some.inj (hc.1.symm.trans (hm.2.1 ▸ hq)))
      exact ⟨m,u,(hcont o m).mpr hc,hwaits u m hu',(hkeep u m hu').1.trans he⟩
  · rw [hcont, hcont]
    exact h.one o m1 m2

/-- A task that timed out runs. The owner keeps its priority, or it gets the lowest one that is saved, where no task that waits for it
is above. -/
theorem InheritInv.late {q : Nat} (h : InheritInv s own) (hq : (s.mux r.mutex).owner = some q)
    (hok : (s.tcb q).sp.priority < (s.tcb r.task).sp.priority ∨ (s.tcb q).sp.priBitmap = 0 ∨
      (s.run r).Settled q ∧ ∀ l, (s.tcb q).sp.priBitmap.testBit l = true → (∀ j, (s.tcb q).sp.priBitmap.testBit j = true → l ≤ j) →
        ∀ m, (s.mux m).owner = some q → ∀ w ∈ (s.mux m).muxList, AtLeast { (s.tcb q).sp with priority := l } (s.tcb w.task).sp) :
    InheritInv ((s.run r).priorityRestore q [] ((s.run r).tcb r.task).schedParamGet) own := by
  have hcount : CountInv (s.run r) := ⟨h.count.owned,h.count.single,h.count.waiting,h.count.protocol,h.count.ops⟩
  have hparam := hcount.schedParamGet r.task
  have hp32 : (s.tcb r.task).sp.priority < 32 := (h.sp r.task).le.trans_lt (h.sp r.task).base_lt
  have hres := (h.sp q).late ((s.run r).tcb r.task).schedParamGet (by rw [hparam]; nofun) (by rw [hparam]; exact hp32)
  have hbase := hpfPriorityRestore_basePrio (s.tcb q).sp [] ((s.run r).tcb r.task).schedParamGet
  have hsame := SameLocks.priorityRestore (s.run r) q [] ((s.run r).tcb r.task).schedParamGet
  have hsp : ∀ u, (((s.run r).priorityRestore q [] ((s.run r).tcb r.task).schedParamGet).tcb u).sp =
      if u = q then hpfPriorityRestore (s.tcb q).sp [] ((s.run r).tcb r.task).schedParamGet else (s.tcb u).sp :=
    fun u => hcount.priorityRestore_sp q u [] _
  generalize (s.run r).priorityRestore q [] ((s.run r).tcb r.task).schedParamGet = s' at hsame hsp
  have hpr : ((s.run r).tcb r.task).schedParamGet.priority = (s.tcb r.task).sp.priority := by
    rw [hparam]
    rfl
  rw [hpr] at hres
  generalize hpfPriorityRestore (s.tcb q).sp [] ((s.run r).tcb r.task).schedParamGet = sp' at hres hsp hbase
  have haboveq : ∀ m, (s.mux m).owner = some q → ∀ w ∈ (s.mux m).muxList, AtLeast (s.tcb q).sp (s.tcb w.task).sp :=
    fun m ho => h.above m q ho
  cases hres with
  | forget _ hlt hp hinv hbit =>
    refine h.runWith hq hcount hsame hsp hbase hinv (fun m ho w hw => ?_) (.inl hp) fun k hk => ?_
    · have := haboveq m ho w hw
      rw [AtLeast, hbase, hp]
      exact this
    · rcases hk with rfl | hk
      · exact .inr ⟨.inl hp,by omega⟩
      · obtain ⟨h1,h2⟩ := hbit k hk
        by_cases he : k = (s.tcb r.task).sp.priority
        · exact .inl (h2 he)
        · exact .inr ⟨.inr h1,he⟩
  | none h0 =>
    refine h.runWith hq hcount hsame hsp hbase (h.sp q) haboveq (.inl rfl) fun k hk => .inl ?_
    rcases hk with rfl | hk
    · by_contra hne
      have hb := (h.sp q).saved (lt_of_le_of_ne (h.sp q).le hne)
      rw [h0] at hb
      simp at hb
    · rw [h0] at hk
      simp at hk
  | lowest _ hle hl hlow hinv hbit =>
    have h0 : (s.tcb q).sp.priBitmap ≠ 0 := by
      intro hc
      rw [hc] at hl
      simp at hl
    obtain ⟨hset,hlev⟩ := (hok.resolve_left (by omega)).resolve_left h0
    refine h.runWith hq hcount hsame hsp hbase hinv (fun m ho w hw => ?_) (.inr hset) fun k hk => .inr ?_
    · have := hlev _ hl hlow m ho w hw
      rw [AtLeast, hbase]
      exact this
    · have hkb : (s.tcb q).sp.priBitmap.testBit k = true := hk.elim (fun hk => hk ▸ hl) (hbit k)
      have := (h.sp q).bits k hkb
      exact ⟨.inr hkb,by omega⟩

/-- The parameters of tasks change that neither wait nor own a mutex for which others wait. -/
theorem InheritInv.modify (h : InheritInv s own) {threads : List Nat} {policy : HpfPolicy} {basePrio priority : Nat}
    (hp : priority ≤ OS_TASK_PRIORITY_LOWEST) (hok : ∀ u, u = t ∨ u ∈ threads ∧ (s.tcb t).sp.basePrio ≠ basePrio →
      s.Settled u ∧ ∀ m, ¬ s.Contended u m) :
    InheritInv (s.schedParamModify t threads policy basePrio priority) (Function.update own t priority) := by
  have hsame := SameLocks.schedParamModify s t threads policy basePrio priority
  have hsp : ∀ u, ((s.schedParamModify t threads policy basePrio priority).tcb u).sp = (s.tcb u).sp ∧ u ≠ t ∨
      u ≠ t ∧ (u ∈ threads ∧ (s.tcb t).sp.basePrio ≠ basePrio) ∧
        ((s.schedParamModify t threads policy basePrio priority).tcb u).sp = { (s.tcb u).sp with basePrio := basePrio } ∨
      u = t ∧ ((s.schedParamModify t threads policy basePrio priority).tcb u).sp =
        { (s.tcb u).sp with policy := policy, basePrio := basePrio, priority := priority } := by
    intro u
    rw [MuxState.schedParamModify]
    simp only
    split_ifs with h1 h2
    · exact .inr (.inr ⟨h1,rfl⟩)
    · exact .inr (.inl ⟨h1,h2,rfl⟩)
    · exact .inl ⟨rfl,h1⟩
  generalize s.schedParamModify t threads policy basePrio priority = s' at hsame hsp
  have hmux := hsame.mux
  have hfree : (s.tcb t).sp.priBitmap = 0 := by
    refine (h.sp t).zero ((h.saved t _ (.inl rfl)).resolve_right ?_)
    rintro ⟨m,u,hc,-⟩
    exact (hok t (.inl rfl)).2 m hc
  have hkeep : ∀ u, (∃ m, s.Waits u m ∨ s.Contended u m) → (s'.tcb u).sp = (s.tcb u).sp := by
    rintro u ⟨m,hm⟩
    have hno : ¬(u = t ∨ u ∈ threads ∧ (s.tcb t).sp.basePrio ≠ basePrio) := fun hc =>
      hm.elim ((hok u hc).1 m) ((hok u hc).2 m)
    rcases hsp u with ⟨he,-⟩ | ⟨-,hth,-⟩ | ⟨he,-⟩
    · exact he
    · exact absurd (.inr hth) hno
    · exact absurd (.inl he) hno
  have hcont : ∀ o m, s'.Contended o m ↔ s.Contended o m := by
    intro o m
    rw [MuxState.Contended, MuxState.Contended, hmux]
  have hwaits : ∀ u m, s'.Waits u m ↔ s.Waits u m := by
    intro u m
    rw [MuxState.Waits, MuxState.Waits, hmux, hsame.resumed]
  refine ⟨h.count.same hsame,fun u => ?_,fun m o ho w hw => ?_,fun o k hk => ?_,fun o m1 m2 => ?_⟩
  · rcases hsp u with ⟨he,hne⟩ | ⟨hne,-,he⟩ | ⟨rfl,he⟩ <;> rw [he]
    · rw [Function.update_of_ne hne]
      exact h.sp u
    · rw [Function.update_of_ne hne]
      exact ⟨(h.sp u).base_lt,(h.sp u).le,(h.sp u).lt,(h.sp u).zero,(h.sp u).saved,(h.sp u).bits⟩
    · rw [Function.update_self]
      refine ⟨Nat.lt_succ_of_le hp,Nat.le_refl _,(h.sp u).lt,fun _ => hfree,fun hc => absurd hc (Nat.lt_irrefl _),fun k hk => ?_⟩
      simp only at hk
      rw [hfree] at hk
      simp at hk
  · rw [hmux] at ho hw
    rw [hkeep o ⟨m,.inr ⟨ho,List.ne_nil_of_mem hw⟩⟩, hkeep w.task ⟨m,.inl (waits_of_mem hw)⟩]
    exact h.above m o ho w hw
  · have hold : ∀ hne : o ≠ t, k = (s.tcb o).sp.priority ∨ (s.tcb o).sp.priBitmap.testBit k = true →
        k = Function.update own t priority o ∨ ∃ m u, s'.Contended o m ∧ s'.Waits u m ∧ (s'.tcb u).sp.priority = k := by
      intro hne hk
      rw [Function.update_of_ne hne]
      rcases h.saved o k hk with he | ⟨m,u,hc,hu,he⟩
      · exact .inl he
      · refine .inr ⟨m,u,(hcont o m).mpr hc,(hwaits u m).mpr hu,?_⟩
        rw [hkeep u ⟨m,.inl hu⟩, he]
    rcases hsp o with ⟨he,hne⟩ | ⟨hne,-,he⟩ | ⟨rfl,he⟩ <;> rw [he] at hk
    · exact hold hne hk
    · exact hold hne hk
    · rw [Function.update_self]
      refine .inl (hk.elim id fun hk => ?_)
      simp only at hk
      rw [hfree] at hk
      simp at hk
  · rw [hcont, hcont]
    exact h.one o m1 m2

end LiteOsKernel.Ipc.Mux
