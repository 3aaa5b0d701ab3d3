import LiteOsKernel.Ipc.MuxResult
import LiteOsKernel.Lib.Run

/-! Mutexes along any run of their callers: who owns a mutex, and how often it is locked. -/
namespace LiteOsKernel.Ipc.Mux
open LiteOsKernel.Sched.Priority (HpfPolicy SchedHPF SchedParam)
open MuxState

variable {x : MuxHist} {s s' : MuxState} {t m : Nat} {w : Waiter} {r : Resumed} {rest : List Waiter} {mutex : LosMux}

/-- A call in an interrupt changes nothing. -/
theorem MuxCall.run_interrupt {ctx : PendContext} (x : MuxHist) (hi : ctx.intActive = true) (t m timeout : Nat) :
    (MuxCall.lock ctx t m timeout).run x = some x ∧ (MuxCall.trylock ctx t m).run x = some x ∧
      (MuxCall.unlock ctx t m).run x = some x := by
  simp [MuxCall.run, MuxState.losMuxLock, MuxState.losMuxTrylock, MuxState.losMuxUnlock, hi, MuxHist.locked, MuxHist.unlocked]

/-- One call: no owner that is NULL is dereferenced, and the invariant holds afterwards. -/
theorem MuxCall.step_inv (c : MuxCall) (h : MuxInv x) (hp : c.Pre x.st) (hok : c.Ok x.st) : ∃ x', c.run x = some x' ∧ MuxInv x' := by
  cases c with
  | lock ctx t m timeout =>
    cases hi : ctx.intActive with
    | true => exact ⟨x,(run_interrupt x hi t m timeout).1,h⟩
    | false => exact h.lock hp (losMuxLock_result h.own.owner_of_pos ctx t m timeout) (hok hi)
  | trylock ctx t m =>
    cases hi : ctx.intActive with
    | true => exact ⟨x,(run_interrupt x hi t m 0).2.1,h⟩
    | false => exact h.lock hp (losMuxTrylock_result h.own.owner_of_pos ctx t m) (hok hi)
  | unlock ctx t m =>
    cases hi : ctx.intActive with
    | true => exact ⟨x,(run_interrupt x hi t m 0).2.2,h⟩
    | false => exact h.unlock hp (losMuxUnlock_result x.st ctx t m) (hok hi)
  | expire m w => exact ⟨_,rfl,h.expire hp.1 hok⟩
  | resume r => exact h.resume hp
  | modify t threads policy basePrio priority => exact ⟨_,rfl,h.same (SameLocks.schedParamModify ..)⟩
  | period t finishTime => exact ⟨_,rfl,h.same (SameLocks.setFinishTime ..)⟩

/-- The law of the mutexes: a mutex is locked iff it has an owner, which is the task that holds it, LOS_OK is returned to the owner
only, a mutex becomes free after as many unlocks as locks, a mutex that is given up passes to the first task that waits, and no call
dereferences an owner that is NULL. -/
structure MuxLaw (x : MuxHist) : Prop where
  owned : ∀ m, 0 < (x.st.mux m).muxCount ↔ (x.st.mux m).owner ≠ none
  held : ∀ m t, m ∈ (x.st.tcb t).lockList ↔ (x.st.mux m).owner = some t
  once : ∀ t, (x.st.tcb t).lockList.Nodup
  locked : ∀ ctx t m timeout s', x.st.losMuxLock ctx t m timeout = some (s',some .ok) → (s'.mux m).owner = some t
  trylocked : ∀ ctx t m s', x.st.losMuxTrylock ctx t m = some (s',some .ok) → (s'.mux m).owner = some t
  returned : ∀ r ∈ x.st.resumed, ∀ s', x.st.muxReturn r = some (s',.ok) → (s'.mux r.mutex).owner = some r.task
  count : ∀ m, x.locks m = x.unlocks m + (x.st.mux m).muxCount
  handover : ∀ ctx t m s' w rest, x.st.losMuxUnlock ctx t m = some (s',.ok) → (x.st.mux m).muxList = w :: rest →
    ((x.st.mux m).attr.type = .recursive → (x.st.mux m).muxCount = 1) →
    (s'.mux m).owner = some w.task ∧ (s'.mux m).muxList = rest ∧ ∀ v ∈ rest, v.task ≠ w.task
  safe : ∀ c : MuxCall, c.Pre x.st → c.run x ≠ none

theorem LockResult.owner {preemptable : Bool} {timeout : Nat} {res : Option (MuxState × Option MuxRet)}
    (h : LockResult s t m preemptable timeout res) (hr : res = some (s',some .ok)) :
    (s'.mux m).owner = some t := by
  cases h with
  | take s2 h0 hs _ =>
    obtain ⟨rfl,-⟩ := Prod.mk.inj (Option.some.inj hr)
    rw [hs.mux]
    exact congrArg LosMux.owner (setMux_self ..)
  | again h0 ho hrec =>
    obtain ⟨rfl,-⟩ := Prod.mk.inj (Option.some.inj hr)
    split_ifs
    · rw [setMux_self]
      exact ho
    · exact ho
  | error ret hret =>
    obtain ⟨-,he⟩ := Prod.mk.inj (Option.some.inj hr)
    exact absurd (Option.some.inj he) hret
  | wait s2 l ho hs _ _ _ _ hl =>
    obtain ⟨-,he⟩ := Prod.mk.inj (Option.some.inj hr)
    cases he

private theorem LockResult.ne_none {preemptable : Bool} {timeout : Nat} {res : Option (MuxState × Option MuxRet)}
    (h : LockResult s t m preemptable timeout res) : res ≠ none := by
  cases h <;> nofun

private theorem UnlockResult.ne_none {res : Option (MuxState × MuxRet)} (h : UnlockResult s t m res) : res ≠ none := by
  cases h <;> nofun

/-- Also a call that does not meet the condition dereferences no NULL. -/
theorem MuxInv.safe (h : MuxInv x) (c : MuxCall) (hp : c.Pre x.st) : c.run x ≠ none := by
  cases c with
  | lock ctx t m timeout => exact fun hc => (losMuxLock_result h.own.owner_of_pos ctx t m timeout).ne_none (Option.map_eq_none_iff.mp hc)
  | trylock ctx t m => exact fun hc => (losMuxTrylock_result h.own.owner_of_pos ctx t m).ne_none (Option.map_eq_none_iff.mp hc)
  | unlock ctx t m => exact fun hc => (losMuxUnlock_result x.st ctx t m).ne_none (Option.map_eq_none_iff.mp hc)
  | resume r =>
    obtain ⟨x',he,-⟩ := h.resume hp
    intro hc
    rw [MuxCall.run, he] at hc
    cases hc
  | expire | modify | period => nofun

theorem MuxInv.law (h : MuxInv x) : MuxLaw x := by
  refine ⟨h.own.owned,h.own.held,h.own.once,fun ctx t m timeout s' hr => (losMuxLock_result h.own.owner_of_pos ctx t m timeout).owner hr,
    fun ctx t m s' hr => (losMuxTrylock_result h.own.owner_of_pos ctx t m).owner hr,fun r hr s' he => ?_,h.own.count,
    fun ctx t m s' w rest he hl h1 => ?_,h.safe⟩
  · rw [MuxState.muxReturn] at he
    cases hf : r.timeout with
    | true =>
      simp only [hf, if_true, Option.map_eq_some_iff] at he
      obtain ⟨s2,-,he⟩ := he
      cases he
    | false =>
      simp only [hf] at he
      obtain ⟨rfl,-⟩ := Prod.mk.inj (Option.some.inj he)
      exact h.wait.granted r hr hf
  · have hres := losMuxUnlock_result x.st ctx t m
    rw [he] at hres
    have hnodup := h.wait.tasks m
    rw [hl, List.map_cons, List.nodup_cons] at hnodup
    generalize hs : some (s',MuxRet.ok) = res at hres
    cases hres with
    | error ret hret => exact absurd (Prod.mk.inj (Option.some.inj hs)).2.symm hret
    | again ho hr hgt =>
      have := h1 hr
      omega
    | free s2 ho _ hnil => exact absurd (hl.symm.trans hnil) nofun
    | pass s2 w' rest' ho _ hl' hres hmux hlock _ _ =>
      obtain ⟨rfl,-⟩ := Prod.mk.inj (Option.some.inj hs)
      obtain ⟨rfl,rfl⟩ := List.cons.inj (hl.symm.trans hl')
      rw [hmux, Function.update_self]
      exact ⟨rfl,rfl,fun v hv hc => hnodup.1 (hc ▸ List.mem_map_of_mem hv)⟩

/-- Initialised mutexes, and tasks that hold none. -/
def muxInit (attr : Nat → LosMuxAttr) (ops : Nat → SchedOps) (sp : Nat → SchedHPF) (finishTime : Nat → Nat) : MuxHist where
  st := { mux := fun m => losMuxInit (attr m), tcb := fun t => ⟨ops t,sp t,finishTime t,[]⟩, resumed := [] }
  locks _ := 0
  unlocks _ := 0

/-- The calls on initialised mutexes, as long as no NULL is dereferenced. -/
def muxSystem : Run.System MuxHist MuxCall where
  init x := ∃ attr ops sp finishTime, x = muxInit attr ops sp finishTime
  pre x c := c.Pre x.st ∧ (c.run x).isSome
  run x c := (c.run x).getD x

abbrev MuxReachable (ok : MuxState → MuxCall → Prop) := Run.Reachable muxSystem fun x c => ok x.st c

private theorem muxInv_init (attr : Nat → LosMuxAttr) (ops : Nat → SchedOps) (sp : Nat → SchedHPF) (finishTime : Nat → Nat) :
    MuxInv (muxInit attr ops sp finishTime) := by
  refine ⟨⟨fun m => ?_,fun m t => ?_,fun t => List.nodup_nil,fun m => rfl,fun m _ => Nat.zero_le 1⟩,
    ⟨fun m hc => absurd rfl hc,fun m => List.nodup_nil,?_,nofun,List.nodup_nil,nofun,nofun⟩⟩
  · exact iff_of_false (Nat.lt_irrefl 0) fun hc => hc rfl
  · exact iff_of_false List.not_mem_nil nofun
  · intro m m' w hw
    exact absurd hw List.not_mem_nil

theorem muxInv_of_reachable (h : MuxReachable (fun s c => c.Ok s) x) : MuxInv x := by
  refine h.invariant ?_ fun x c hx hp hok => ?_
  · rintro - ⟨attr,ops,sp,finishTime,rfl⟩
    exact muxInv_init attr ops sp finishTime
  · obtain ⟨x',he,hi⟩ := c.step_inv hx hp.1 hok
    have hrun : muxSystem.run x c = x' := by simp only [muxSystem, he, Option.getD_some]
    exact hrun ▸ hi

/-- The mutexes keep their law along every run that meets the condition. -/
theorem muxLaw_of_reachable (x : MuxHist) (h : MuxReachable (fun s c => c.Ok s) x) : MuxLaw x :=
  (muxInv_of_reachable h).law

theorem locked_st_eq (x : MuxHist) (m : Nat) (s : MuxState) (ret : Option MuxRet) : (x.locked m s ret).st = s := by
  rw [MuxHist.locked]
  split_ifs <;> rfl

/-- A lock call leaves the other mutexes as they are. -/
theorem OwnInv.lock_other {x' : MuxHist} {m' : Nat} (h : OwnInv x) (ctx : PendContext) (t m timeout : Nat)
    (hs : (MuxCall.lock ctx t m timeout).run x = some x') (hm : m' ≠ m) : x'.st.mux m' = x.st.mux m' := by
  have hres := losMuxLock_result h.owner_of_pos ctx t m timeout
  obtain ⟨⟨s1,ret⟩,he,rfl⟩ := Option.map_eq_some_iff.mp hs
  rw [he] at hres
  simp only [locked_st_eq]
  generalize hr : some (s1,ret) = res at hres
  cases hres with
  | take s2 _ hsame _ =>
    obtain ⟨rfl,-⟩ := Prod.mk.inj (Option.some.inj hr)
    rw [hsame.mux]
    exact setMux_of_ne hm ..
  | again _ _ _ =>
    obtain ⟨rfl,-⟩ := Prod.mk.inj (Option.some.inj hr)
    split_ifs
    · exact setMux_of_ne hm ..
    · rfl
  | error _ _ =>
    obtain ⟨rfl,-⟩ := Prod.mk.inj (Option.some.inj hr)
    rfl
  | wait s2 l _ hsame _ _ _ _ _ =>
    obtain ⟨rfl,-⟩ := Prod.mk.inj (Option.some.inj hr)
    rw [setMux_of_ne hm, hsame.mux]

/-- Where the other mutexes have no waiters, the waiters of one mutex and the resumed tasks matter. -/
theorem idle_of_ne (m : Nat) (hother : ∀ m', m' ≠ m → (s.mux m').muxList = []) (hl : ∀ w ∈ (s.mux m).muxList, w.task ≠ t)
    (hr : ∀ r ∈ s.resumed, r.task ≠ t) : s.Idle t := by
  refine ⟨fun m' w hw => ?_,hr⟩
  by_cases hm : m' = m
  · exact hl w (hm ▸ hw)
  · rw [hother m' hm] at hw
    cases hw

/-- Mutexes with priority inheritance, and priority tasks of one process, each one at its own level. -/
abbrev inheritMux : MuxHist :=
  muxInit (fun _ => ⟨.inherit,31,.recursive⟩) (fun _ => .hpf) (fun t => ⟨.rr,10,t % 32,0,0⟩) fun _ => 0

theorem mux_init {ok : MuxState → MuxCall → Prop} : MuxReachable ok inheritMux := .init ⟨_,_,_,_,rfl⟩

/-- A task that may wait. -/
abbrev taskContext : PendContext := ⟨false,false,true⟩

/-- A task waits for the mutex of another one. -/
theorem muxLaw_waiting : ∃ x, MuxReachable (fun s c => c.Ok s) x ∧ (x.st.mux 0).muxList = [⟨10,5⟩] ∧ (x.st.mux 0).owner = some 20 ∧
    MuxLaw x := by
  have h0 : MuxReachable (fun s c => c.Ok s) inheritMux := mux_init
  have h1 : MuxReachable (fun s c => c.Ok s) _ :=
    h0.call (.lock taskContext 20 0 5) ⟨idle_of_ne 0 (fun _ _ => rfl) (by decide) (by decide),rfl⟩ (fun _ => nofun)
  have hother : ∀ m, m ≠ 0 → _ := fun m hm => congrArg LosMux.muxList
    ((muxInv_of_reachable h0).own.lock_other taskContext 20 0 5 rfl hm)
  have h2 : MuxReachable (fun s c => c.Ok s) _ :=
    h1.call (.lock taskContext 10 0 5) ⟨idle_of_ne 0 hother (by decide) (by decide),rfl⟩ (fun _ => by decide)
  exact ⟨_,h2,by decide,by decide,muxLaw_of_reachable _ h2⟩

/-- A task times out, the owner leaves the mutex, and then the task runs: it restores the priority of no owner. -/
theorem muxLaw_fails_timeout : ¬ ∀ x, MuxReachable (fun _ _ => True) x → MuxLaw x := by
  intro hall
  have h0 : MuxReachable (fun s c => c.Ok s) inheritMux := mux_init
  have h1 : MuxReachable (fun s c => c.Ok s) _ :=
    h0.call (.lock taskContext 20 0 5) ⟨idle_of_ne 0 (fun _ _ => rfl) (by decide) (by decide),rfl⟩ (fun _ => nofun)
  have hother1 : ∀ m, m ≠ 0 → _ := fun m hm => congrArg LosMux.muxList
    ((muxInv_of_reachable h0).own.lock_other taskContext 20 0 5 rfl hm)
  have h2 : MuxReachable (fun s c => c.Ok s) _ :=
    h1.call (.lock taskContext 10 0 5) ⟨idle_of_ne 0 hother1 (by decide) (by decide),rfl⟩ (fun _ => by decide)
  have hother2 : ∀ m, m ≠ 0 → _ := fun m hm => (congrArg LosMux.muxList
    ((muxInv_of_reachable h1).own.lock_other taskContext 10 0 5 rfl hm)).trans (hother1 m hm)
  have h3 : MuxReachable (fun _ _ => True) _ :=
    (h2.mono fun _ _ _ => trivial).call (.expire 0 ⟨10,5⟩) ⟨⟨by decide,by decide⟩,rfl⟩ trivial
  have h4 : MuxReachable (fun _ _ => True) _ := h3.call (.unlock taskContext 20 0)
    ⟨idle_of_ne 0 (fun m hm => (congrArg LosMux.muxList (Function.update_of_ne hm ..)).trans (hother2 m hm)) (by decide) (by decide),rfl⟩
    trivial
  exact (hall _ h4).safe (.resume ⟨10,0,true⟩) List.mem_cons_self rfl

end LiteOsKernel.Ipc.Mux
