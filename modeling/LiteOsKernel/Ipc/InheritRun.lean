import LiteOsKernel.Ipc.MuxInherit
import LiteOsKernel.Ipc.MuxRun

/-! Priority inheritance along any run of the mutexes: which priorities are saved, and which one is restored. -/
namespace LiteOsKernel.Ipc.Mux
open LiteOsKernel.Sched.Priority
open MuxState

variable {s s' : MuxState} {own : Nat → Nat} {t m : Nat} {w : Waiter} {r : Resumed} {mutex : LosMux}

namespace MuxCall

/-- The own priorities of the tasks after a call. -/
def setOwn (own : Nat → Nat) : MuxCall → Nat → Nat
  | modify t _ _ _ priority => Function.update own t priority
  | _ => own

/-- The condition. A task waits only for an owner that is at its level, or of its policy and its process and not in LOS_MuxLock
itself, and that has no other mutex for which tasks wait. A mutex passes to a task that is at the level of the others that wait, by an
owner that has no level of a task that timed out. A task times out only where others still wait or its owner is not raised, and
nobody that waits is forgotten when it runs. Parameters are set of no task that waits or for which others wait. -/
def InheritOk (s : MuxState) (own : Nat → Nat) : MuxCall → Prop
  | lock ctx t m timeout => ctx.intActive = false → ctx.preemptable = true → timeout ≠ 0 → ∀ o, (s.mux m).owner = some o →
      (o = t → (s.mux m).attr.type = .normal) →
      (AtLeast (s.tcb o).sp (s.tcb t).sp ∨ (s.tcb o).sp.policy = (s.tcb t).sp.policy ∧
        (s.tcb o).sp.basePrio = (s.tcb t).sp.basePrio ∧ s.Settled o) ∧ ∀ m', s.Contended o m' → m' = m
  | unlock ctx t m => ctx.intActive = false → (s.mux m).owner = some t →
      ((s.mux m).attr.type = .recursive → (s.mux m).muxCount = 1) → ∀ w rest, (s.mux m).muxList = w :: rest →
      ((s.tcb t).sp.priority = own t ∨ (s.tcb w.task).sp.priority ≤ (s.tcb t).sp.priority) ∧
      (rest = [] ∨ ∀ m', ¬ s.Contended w.task m') ∧ (∀ v ∈ rest, AtLeast (s.tcb w.task).sp (s.tcb v.task).sp) ∧
      ∀ r ∈ s.resumed, r.timeout = true → r.mutex = m → (s.tcb t).sp.priBitmap.testBit (s.tcb r.task).sp.priority = true →
        (s.tcb r.task).sp.priority = own t ∨ ∃ v ∈ (s.mux m).muxList, (s.tcb v.task).sp.priority = (s.tcb r.task).sp.priority
  | expire m w => ∀ o, (s.mux m).owner = some o → (s.mux m).muxList.erase w ≠ [] ∨ (s.tcb o).sp.priority = own o
  | resume r => r.timeout = true → ∀ q, (s.mux r.mutex).owner = some q →
      (s.tcb q).sp.priority < (s.tcb r.task).sp.priority ∨ (s.tcb q).sp.priBitmap = 0 ∨
      (s.run r).Settled q ∧ ∀ l, (s.tcb q).sp.priBitmap.testBit l = true → (∀ j, (s.tcb q).sp.priBitmap.testBit j = true → l ≤ j) →
        ∀ m, (s.mux m).owner = some q → ∀ w ∈ (s.mux m).muxList, AtLeast { (s.tcb q).sp with priority := l } (s.tcb w.task).sp
  | modify t threads _ basePrio _ => ∀ u, u = t ∨ u ∈ threads ∧ (s.tcb t).sp.basePrio ≠ basePrio →
      s.Settled u ∧ ∀ m, ¬ s.Contended u m
  | trylock .. | period .. => True

end MuxCall

/-- A lock call, however it ends. -/
theorem InheritInv.lock {preemptable : Bool} {timeout : Nat} {ret : Option MuxRet} (h : InheritInv s own)
    (hres : LockResult s t m preemptable timeout (some (s',ret)))
    (hok : preemptable = true → timeout ≠ 0 → ∀ o, (s.mux m).owner = some o → (o = t → (s.mux m).attr.type = .normal) →
      (AtLeast (s.tcb o).sp (s.tcb t).sp ∨ (s.tcb o).sp.policy = (s.tcb t).sp.policy ∧
        (s.tcb o).sp.basePrio = (s.tcb t).sp.basePrio ∧ s.Settled o) ∧ ∀ m', s.Contended o m' → m' = m) :
    InheritInv s' own := by
  generalize hr : some (s',ret) = res at hres
  cases hres with
  | take s1 h0 hs hp =>
    obtain ⟨rfl,-⟩ := Prod.mk.inj (Option.some.inj hr)
    have hnil : (s.mux m).muxList = [] := by
      by_contra hne
      have := (h.count.owned m).mpr (h.count.waiting m hne)
      omega
    obtain rfl := hp (by rw [h.count.protocol]; decide)
    refine h.quiet rfl rfl (.inl hnil) rfl (fun u => (holdListInsert_sp ..).1) ?_
    exact h.count.step rfl (fun u => (holdListInsert_sp ..).2) (iff_of_true Nat.one_pos nofun) (fun _ => Nat.le_refl 1) (fun _ => nofun) rfl
  | again h0 ho hrec =>
    obtain ⟨rfl,-⟩ := Prod.mk.inj (Option.some.inj hr)
    split_ifs
    · refine h.quiet rfl rfl (.inr rfl) rfl (fun _ => rfl) ?_
      exact h.count.step rfl (fun _ => rfl) (iff_of_true (Nat.succ_pos _) (ho ▸ nofun)) (fun hc => absurd hrec hc)
        (h.count.waiting m) rfl
    · exact h
  | error ret hret =>
    obtain ⟨rfl,-⟩ := Prod.mk.inj (Option.some.inj hr)
    exact h
  | wait s1 l ho hs hset htime hpre hself hl =>
    obtain ⟨rfl,-⟩ := Prod.mk.inj (Option.some.inj hr)
    obtain ⟨o,ho'⟩ := Option.ne_none_iff_exists'.mp ho
    obtain ⟨hlevel,hone⟩ := hok hpre htime o ho' fun he => hself (he ▸ ho')
    exact h.wait ho' hset hl (hlevel.imp id fun hl => ⟨hl.1,hl.2.1⟩) hone (hlevel.imp id fun hl => hl.2.2)

/-- An unlock call, however it ends. -/
theorem InheritInv.unlock {ret : MuxRet} (h : InheritInv s own) (hi : s.Idle t) (hres : UnlockResult s t m (some (s',ret)))
    (hok : (s.mux m).owner = some t → ((s.mux m).attr.type = .recursive → (s.mux m).muxCount = 1) →
      ∀ w rest, (s.mux m).muxList = w :: rest →
      ((s.tcb t).sp.priority = own t ∨ (s.tcb w.task).sp.priority ≤ (s.tcb t).sp.priority) ∧
      (rest = [] ∨ ∀ m', ¬ s.Contended w.task m') ∧ (∀ v ∈ rest, AtLeast (s.tcb w.task).sp (s.tcb v.task).sp) ∧
      ∀ r ∈ s.resumed, r.timeout = true → r.mutex = m → (s.tcb t).sp.priBitmap.testBit (s.tcb r.task).sp.priority = true →
        (s.tcb r.task).sp.priority = own t ∨ ∃ v ∈ (s.mux m).muxList, (s.tcb v.task).sp.priority = (s.tcb r.task).sp.priority) :
    InheritInv s' own := by
  generalize hr : some (s',ret) = res at hres
  cases hres with
  | error ret hret =>
    obtain ⟨rfl,-⟩ := Prod.mk.inj (Option.some.inj hr)
    exact h
  | again ho hrec h1 =>
    obtain ⟨rfl,-⟩ := Prod.mk.inj (Option.some.inj hr)
    refine h.quiet rfl rfl (.inr rfl) rfl (fun _ => rfl) ?_
    exact h.count.step rfl (fun _ => rfl) (iff_of_true (by simp only; omega) (ho ▸ nofun)) (fun hc => absurd hrec hc)
      (h.count.waiting m) rfl
  | free s1 ho h1 hl hres hmux hlock hops hsp =>
    obtain ⟨rfl,-⟩ := Prod.mk.inj (Option.some.inj hr)
    have hone : (s.mux m).muxCount ≤ 1 := by
      by_cases hrec : (s.mux m).attr.type = .recursive
      · exact (h1 hrec).le
      · exact h.count.single m hrec
    refine h.quiet hmux rfl (.inl hl) hres (hsp (by rw [h.count.protocol]; decide)) ?_
    exact h.count.step hmux hops (iff_of_false (by simp only; omega) fun hc => hc rfl) (fun _ => by simp only; omega)
      (fun hc => absurd hl hc) rfl
  | pass s1 w rest ho h1 hl hres hmux hlock hops hsp =>
    obtain ⟨rfl,-⟩ := Prod.mk.inj (Option.some.inj hr)
    obtain ⟨hlent,hone,hfirst,hlate⟩ := hok ho h1 w rest hl
    exact h.pass hi ho hl hres hmux hops (hsp (h.count.protocol m)) hlent hone hfirst hlate

private theorem unlocked_st_eq (x : MuxHist) (t m : Nat) (s : MuxState) (ret : MuxRet) : (x.unlocked t m s ret).st = s := by
  rw [MuxHist.unlocked]
  split_ifs <;> rfl

/-- One call. -/
private theorem MuxCall.step_inherit {x x' : MuxHist} (c : MuxCall) (h : InheritInv x.st own) (hp : c.Pre x.st) (hok : c.InheritOk x.st own)
    (hs : c.run x = some x') : InheritInv x'.st (c.setOwn own) := by
  have howner : ∀ m, 0 < (x.st.mux m).muxCount → (x.st.mux m).owner ≠ none := fun m => (h.count.owned m).mp
  cases c with
  | lock ctx t m timeout =>
    cases hi : ctx.intActive with
    | true =>
      rw [(run_interrupt x hi t m timeout).1, Option.some.injEq] at hs
      exact hs ▸ h
    | false =>
      obtain ⟨⟨s1,ret⟩,he,rfl⟩ := Option.map_eq_some_iff.mp hs
      simp only [locked_st_eq]
      exact h.lock (he ▸ losMuxLock_result howner ctx t m timeout) (hok hi)
  | trylock ctx t m =>
    obtain ⟨⟨s1,ret⟩,he,rfl⟩ := Option.map_eq_some_iff.mp hs
    simp only [locked_st_eq]
    exact h.lock (he ▸ losMuxTrylock_result howner ctx t m) fun _ hc => absurd rfl hc
  | unlock ctx t m =>
    cases hi : ctx.intActive with
    | true =>
      rw [(run_interrupt x hi t m 0).2.2, Option.some.injEq] at hs
      exact hs ▸ h
    | false =>
      obtain ⟨⟨s1,ret⟩,he,rfl⟩ := Option.map_eq_some_iff.mp hs
      simp only [unlocked_st_eq]
      exact h.unlock hp (he ▸ losMuxUnlock_result x.st ctx t m) (hok hi)
  | expire m w =>
    obtain rfl := Option.some.inj hs
    exact h.expire hp.1 hok
  | resume r =>
    obtain ⟨⟨s1,ret⟩,he,rfl⟩ := Option.map_eq_some_iff.mp hs
    rw [MuxState.muxReturn] at he
    cases hf : r.timeout with
    | false =>
      simp only [hf, Bool.false_eq_true, if_false, Option.some.injEq, Prod.mk.injEq] at he
      exact he.1 ▸ h.granted hf
    | true =>
      simp only [hf, if_true] at he
      obtain ⟨s2,hback,hret⟩ := Option.map_eq_some_iff.mp he
      obtain ⟨rfl,-⟩ := Prod.mk.inj hret
      change (x.st.run r).osMuxBitmapRestore r.mutex [] r.task = some s2 at hback
      have hprot : ((x.st.run r).mux r.mutex).attr.protocol = .inherit := h.count.protocol r.mutex
      cases hq : ((x.st.run r).mux r.mutex).owner with
      | none =>
        rw [MuxState.osMuxBitmapRestore, if_neg (not_not.mpr hprot), hq] at hback
        cases hback
      | some q =>
        rw [osMuxBitmapRestore_inherit hprot hq, Option.some.injEq] at hback
        exact hback ▸ h.late hq (hok hf q hq)
  | modify t threads policy basePrio priority =>
    obtain rfl := Option.some.inj hs
    exact h.modify hp hok
  | period t finishTime =>
    obtain rfl := Option.some.inj hs
    have hsame := SameLocks.setFinishTime x.st t finishTime
    refine h.quiet (Function.update_eq_self 0 x.st.mux).symm rfl (.inr rfl) rfl (fun u => ?_)
      (h.count.same hsame)
    rw [MuxState.setFinishTime, MuxState.setTcb]
    by_cases hu : u = t
    · subst hu
      simp
    · simp [hu]

/-- The law of priority inheritance: an owner is at least at the level of every task that waits for it, and a task for which no task
waits has its own priority, which it had before or which was set last. -/
structure InheritLaw (s : MuxState) (own : Nat → Nat) : Prop where
  inherited : ∀ m o, (s.mux m).owner = some o → ∀ w ∈ (s.mux m).muxList, AtLeast (s.tcb o).sp (s.tcb w.task).sp
  restored : ∀ t, (∀ m, (s.mux m).owner = some t → (s.mux m).muxList = []) → (s.tcb t).sp.priority = own t

theorem InheritInv.law (h : InheritInv s own) : InheritLaw s own := by
  refine ⟨h.above,fun t hfree => (h.saved t _ (.inl rfl)).resolve_right ?_⟩
  rintro ⟨m,u,hc,-⟩
  exact hc.2 (hfree m hc.1)

/-- Priority tasks and mutexes with priority inheritance, with the own priorities of the tasks. -/
def inheritSystem : Run.System (MuxHist × (Nat → Nat)) MuxCall where
  init y := ∃ attr sp finishTime, (∀ m, (attr m).protocol = .inherit) ∧ (∀ t, (sp t).priority < 32 ∧ (sp t).priBitmap = 0) ∧
    y = (muxInit attr (fun _ => .hpf) sp finishTime,fun t => (sp t).priority)
  pre y c := muxSystem.pre y.1 c
  run y c := (muxSystem.run y.1 c,c.setOwn y.2)

abbrev InheritReachable (ok : MuxState → (Nat → Nat) → MuxCall → Prop) (x : MuxHist) (own : Nat → Nat) :=
  Run.Reachable inheritSystem (fun y c => ok y.1.st y.2 c) (x,own)

private theorem inheritInv_init (attr : Nat → LosMuxAttr) (sp : Nat → SchedHPF) (finishTime : Nat → Nat)
    (hattr : ∀ m, (attr m).protocol = .inherit) (hsp : ∀ t, (sp t).priority < 32 ∧ (sp t).priBitmap = 0) :
    InheritInv (muxInit attr (fun _ => .hpf) sp finishTime).st fun t => (sp t).priority := by
  have hnone : ∀ o m, ¬ (muxInit attr (fun _ => .hpf) sp finishTime).st.Contended o m := fun o m hc => hc.2 rfl
  have hbit : ∀ t k, (sp t).priBitmap.testBit k ≠ true := by
    intro t k hk
    rw [(hsp t).2] at hk
    simp at hk
  refine ⟨⟨fun m => iff_of_false (Nat.lt_irrefl 0) fun hc => hc rfl,fun m _ => Nat.zero_le 1,fun m hc => absurd rfl hc,hattr,fun _ => rfl⟩,
    fun t => ⟨(hsp t).1,Nat.le_refl _,?_,fun _ => (hsp t).2,fun hc => absurd hc (Nat.lt_irrefl _),fun k hk => absurd hk (hbit t k)⟩,
    nofun,fun o k hk => .inl (hk.elim id fun hk => absurd hk (hbit o k)),fun o m m' hc => absurd hc (hnone o m)⟩
  change (sp t).priBitmap < 2^32
  rw [(hsp t).2]
  norm_num

private theorem inheritInv_of_reachable {x : MuxHist} (h : InheritReachable (fun s own c => c.InheritOk s own) x own) :
    InheritInv x.st own := by
  refine Run.Reachable.invariant (I := fun y => InheritInv y.1.st y.2) h ?_ fun y c hy hp hok => ?_
  · rintro - ⟨attr,sp,finishTime,hattr,hsp,rfl⟩
    exact inheritInv_init attr sp finishTime hattr hsp
  · obtain ⟨x',hx'⟩ := Option.isSome_iff_exists.mp hp.2
    have hrun : inheritSystem.run y c = (x',c.setOwn y.2) := by simp only [inheritSystem, muxSystem, hx', Option.getD_some]
    rw [hrun]
    exact c.step_inherit hy hp.1 hok hx'

/-- Priorities are inherited and restored along every run that meets the condition. -/
theorem inheritLaw_of_reachable (x : MuxHist) (own : Nat → Nat) (h : InheritReachable (fun s own c => c.InheritOk s own) x own) :
    InheritLaw x.st own :=
  (inheritInv_of_reachable h).law

private theorem inheritMux_init (ok : MuxState → (Nat → Nat) → MuxCall → Prop) : InheritReachable ok inheritMux fun t => t % 32 :=
  .init ⟨fun _ => ⟨.inherit,31,.recursive⟩,fun t => ⟨.rr,10,t % 32,0,0⟩,fun _ => 0,fun _ => rfl,
    fun t => ⟨Nat.mod_lt t (by decide),rfl⟩,rfl⟩

/-- Where no task waits, an owner of the same policy and process may be waited for. -/
private theorem inheritOk_lock {o : Nat} (ctx : PendContext) (n : Nat) (hl : ∀ m, (s.mux m).muxList = []) (hr : s.resumed = [])
    (ho : (s.mux m).owner = some o) (hpol : (s.tcb o).sp.policy = (s.tcb t).sp.policy)
    (hbase : (s.tcb o).sp.basePrio = (s.tcb t).sp.basePrio) : (MuxCall.lock ctx t m n).InheritOk s own := by
  intro _ _ _ o' ho' _
  obtain rfl := Option.some.inj (ho.symm.trans ho')
  refine ⟨.inr ⟨hpol,hbase,?_⟩,fun m' hc => absurd (hl m') hc.2⟩
  rintro m' (⟨w,hw,-⟩ | ⟨r,hr',-⟩)
  · rw [hl] at hw
    cases hw
  · rw [hr] at hr'
    cases hr'

/-- A task waits for the mutex of one at a lower level, which is raised. -/
theorem inheritLaw_raised : ∃ x own, InheritReachable (fun s own c => c.InheritOk s own) x own ∧ (x.st.mux 0).muxList = [⟨10,5⟩] ∧
    (x.st.tcb 20).sp.priority = 10 ∧ InheritLaw x.st own := by
  have h1 : InheritReachable (fun s own c => c.InheritOk s own) _ _ := (inheritMux_init _).call (.lock taskContext 20 0 5)
    ⟨idle_of_ne 0 (fun _ _ => rfl) (by decide) (by decide),rfl⟩ (fun _ _ _ _ => nofun)
  have hother : ∀ m, m ≠ 0 → _ := fun m hm => congrArg LosMux.muxList
    ((muxInv_of_reachable mux_init).own.lock_other taskContext 20 0 5 rfl hm)
  have h2 : InheritReachable (fun s own c => c.InheritOk s own) _ _ :=
    h1.call (.lock taskContext 10 0 5) ⟨idle_of_ne 0 hother (by decide) (by decide),rfl⟩
      (inheritOk_lock taskContext 5 (fun m => (Nat.eq_zero_or_pos m).elim (fun hm => by subst hm; rfl) fun hm => hother m hm.ne')
        rfl rfl rfl rfl)
  exact ⟨_,_,h2,by decide,by decide,inheritLaw_of_reachable _ _ h2⟩

/-- The task that lent its level times out while another one still waits. It restores the own level of the owner, and the other one is
forgotten. -/
theorem inheritLaw_fails_late : ¬ ∀ x own, InheritReachable (fun _ _ _ => True) x own → InheritLaw x.st own := by
  intro hall
  have h0 : MuxReachable (fun s c => c.Ok s) inheritMux := mux_init
  have h1 : MuxReachable (fun s c => c.Ok s) _ :=
    h0.call (.lock taskContext 20 0 5) ⟨idle_of_ne 0 (fun _ _ => rfl) (by decide) (by decide),rfl⟩ (fun _ => nofun)
  have g1 : InheritReachable (fun _ _ _ => True) _ _ :=
    (inheritMux_init fun _ _ _ => True).call (.lock taskContext 20 0 5) ⟨idle_of_ne 0 (fun _ _ => rfl) (by decide) (by decide),rfl⟩ trivial
  have hother1 : ∀ m, m ≠ 0 → _ := fun m hm => congrArg LosMux.muxList
    ((muxInv_of_reachable h0).own.lock_other taskContext 20 0 5 rfl hm)
  have g2 : InheritReachable (fun _ _ _ => True) _ _ :=
    g1.call (.lock taskContext 10 0 5) ⟨idle_of_ne 0 hother1 (by decide) (by decide),rfl⟩ trivial
  have hother2 : ∀ m, m ≠ 0 → _ := fun m hm => (congrArg LosMux.muxList
    ((muxInv_of_reachable h1).own.lock_other taskContext 10 0 5 rfl hm)).trans (hother1 m hm)
  have g3 : InheritReachable (fun _ _ _ => True) _ _ :=
    g2.call (.lock taskContext 15 0 9) ⟨idle_of_ne 0 hother2 (by decide) (by decide),rfl⟩ trivial
  have g4 : InheritReachable (fun _ _ _ => True) _ _ := g3.call (.expire 0 ⟨10,5⟩) ⟨⟨by decide,by decide⟩,rfl⟩ trivial
  have g5 : InheritReachable (fun _ _ _ => True) _ _ := g4.call (.resume ⟨10,0,true⟩) ⟨List.mem_cons_self,rfl⟩ trivial
  exact absurd ((hall _ _ g5).inherited 0 20 rfl ⟨15,9⟩ List.mem_cons_self) (by decide)

end LiteOsKernel.Ipc.Mux
