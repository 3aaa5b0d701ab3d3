import LiteOsKernel.Task.Join
import LiteOsKernel.Lib.Run
import LiteOsKernel.Lib.Threads

/-! One task ID along any run: the tasks that have it one after the other, and the tasks that join, detach and delete them. -/
namespace LiteOsKernel.Task

/-- Where a control block is: it belongs to a task, waits in g_taskRecycleList, or is in g_losFreeTask. -/
inductive SlotPlace where
  | inUse
  | recycle
  | free
  deriving DecidableEq

/-- Where a task is in LOS_TaskJoin or LOS_TaskDetach: own is the task that the call is about, target the one that it joins, each
by the number of tasks that had the ID before, and wants says that it asks for the value. -/
inductive JoinPoint where
  | checked (own : Option Nat) (wants : Bool)
  | waiting (own target : Nat) (wants : Bool)
  | granted (own target : Nat) (wants : Bool)
  | read (own target : Nat) (retval : Option Nat)
  | detaching
  | rejoining (own : Nat)
  deriving DecidableEq

structure JoinThread where
  task : Nat
  processCB : Nat
  point : JoinPoint
  deriving DecidableEq

/-- A LOS_TaskJoin that returned LOS_OK. -/
structure Joined where
  target : Nat
  retval : Option Nat
  deriving DecidableEq

/-- The control block, the number of its task, the tasks inside a call, and what happened: the tasks that exited with their values,
the joins and detaches that returned LOS_OK, and the tasks that joins deleted or killed, each with the one that the call is about. -/
structure JoinHist where
  taskCB : LosTaskCB
  place : SlotPlace
  gen : Nat
  threads : List JoinThread
  exits : List (Nat × Nat)
  joined : List Joined
  detached : List Nat
  deletions : List (Nat × Nat)

def startTask (defaultProcess : Nat) : JoinHist := ⟨osInsertTCBToFreeList defaultProcess,.free,0,[],[],[],[],[]⟩

/-- The arguments of OsTaskJoinCheck that are not in the control block. -/
structure CheckContext where
  valid : Bool
  intActive : Bool
  preemptable : Bool
  current : Bool

inductive JoinCall where
  | create (joinable systemTask noDelete : Bool) (processCB : Nat)
  | start
  | entryReturn (retval : Nat)
  | exit (last : Bool)
  | delete (running : Bool)
  | recycle
  | join (task processCB : Nat) (ctx : CheckContext) (wants : Bool)
  | detach (task processCB : Nat) (ctx : CheckContext)
  | go (t : JoinThread) (ctx : CheckContext) (running : Bool)

namespace JoinHist

/-- The task that waits is woken. -/
def wake (resumedTask : Option Nat) (t : JoinThread) : JoinThread :=
  match t.point with
  | .waiting own target wants => if resumedTask = some t.task then { t with point := .granted own target wants } else t
  | _ => t

/-- The control block after OsTaskJoinPostUnsafe, which the first time is the exit of the task. -/
def post (x : JoinHist) (taskCB : LosTaskCB) (resumedTask : Option Nat) : JoinHist :=
  { x with
    taskCB := taskCB
    place := if taskCB.unused then .recycle else x.place
    threads := x.threads.map (wake resumedTask)
    exits := if x.taskCB.exit then x.exits else x.exits ++ [(x.gen,x.taskCB.joinRetval)] }

def enter (x : JoinHist) (task processCB : Nat) (point : JoinPoint) : JoinHist :=
  { x with threads := ⟨task,processCB,point⟩ :: x.threads }

def move (x : JoinHist) (taskCB : LosTaskCB) (t : JoinThread) (point : JoinPoint) : JoinHist :=
  { x with taskCB := taskCB, threads := Threads.move x.threads t { t with point := point } }

def leave (x : JoinHist) (t : JoinThread) : JoinHist := { x with threads := x.threads.erase t }

/-- LOS_TaskJoin returns LOS_OK. -/
def finish (x : JoinHist) (t : JoinThread) (target : Nat) (retval : Option Nat) : JoinHist :=
  { x.leave t with joined := x.joined ++ [⟨target,retval⟩] }

def logDeletion (x : JoinHist) (own : Nat) : JoinHist := { x with deletions := x.deletions ++ [(own,x.gen)] }

end JoinHist

namespace JoinCall

section
variable (defaultProcess : Nat)

def checkOf (taskCB : LosTaskCB) (ctx : CheckContext) : Nat := osTaskJoinCheck taskCB ctx.valid ctx.intActive ctx.preemptable ctx.current

/-- The next piece of a call. -/
def goRun (x : JoinHist) (t : JoinThread) (ctx : CheckContext) (running : Bool) : JoinHist :=
  match t.point with
  | .checked own wants =>
    match taskJoinPend x.taskCB t.task t.processCB with
    | (taskCB,none) => x.move taskCB t (.waiting (own.getD x.gen) x.gen wants)
    | (taskCB,some ret) => if ret = LOS_OK then x.move taskCB t (.granted (own.getD x.gen) x.gen wants) else x.leave t
  | .waiting .. => x
  | .granted own target wants => x.move x.taskCB t (.read own target (if wants then some x.taskCB.joinRetval else none))
  | .read own target retval =>
    match taskDelete x.taskCB running with
    | .refused => x.finish t target retval
    | .killed => (x.finish t target retval).logDeletion own
    | .deleted taskCB resumedTask => ((x.post taskCB resumedTask).finish t target retval).logDeletion own
  | .detaching =>
    match taskDetachSet x.taskCB t.processCB with
    | (_,none) => x.move x.taskCB t (.rejoining x.gen)
    | (taskCB,some ret) =>
      { x.leave t with taskCB := taskCB, detached := if ret = LOS_OK then x.detached ++ [x.gen] else x.detached }
  | .rejoining own => if checkOf x.taskCB ctx = LOS_OK then x.move x.taskCB t (.checked (some own) false) else x.leave t

def run (x : JoinHist) : JoinCall → JoinHist
  | create joinable systemTask noDelete processCB =>
    { x with taskCB := taskCBInit x.taskCB joinable systemTask noDelete processCB, place := .inUse, gen := x.gen + 1 }
  | start => { x with taskCB := { x.taskCB with init := false } }
  | entryReturn retval => { x with taskCB := osTaskEntryReturn x.taskCB retval }
  | exit last => x.post (osRunningTaskToExit x.taskCB last).1 (osRunningTaskToExit x.taskCB last).2
  | delete running =>
    match taskDelete x.taskCB running with
    | .refused | .killed => x
    | .deleted taskCB resumedTask => x.post taskCB resumedTask
  | recycle => { x with taskCB := osInsertTCBToFreeList defaultProcess, place := .free }
  | join task processCB ctx wants => if checkOf x.taskCB ctx = LOS_OK then x.enter task processCB (.checked none wants) else x
  | detach task processCB ctx => if ctx.valid = true ∧ ctx.intActive = false then x.enter task processCB .detaching else x
  | go t ctx running => goRun x t ctx running

end

/-- A free control block is taken for a new task, which starts, runs and exits, and is recycled after the task is deleted. A task
inside a call goes on with that one, and one that waits when it was woken. -/
def Pre (x : JoinHist) : JoinCall → Prop
  | create .. => x.place = .free
  | start => x.place = .inUse
  | entryReturn _ => x.place = .inUse ∧ x.taskCB.init = false ∧ x.taskCB.exit = false
  | exit _ => x.place = .inUse ∧ x.taskCB.init = false ∧ x.taskCB.exit = false
  | delete _ => True
  | recycle => x.place = .recycle
  | join task .. => ∀ t ∈ x.threads, t.task ≠ task
  | detach task .. => ∀ t ∈ x.threads, t.task ≠ task
  | go t _ _ => t ∈ x.threads ∧ ∀ own target wants, t.point ≠ .waiting own target wants

end JoinCall

namespace JoinHist

/-- A task that will return LOS_OK from its join of the task number g. -/
def holds (g : Nat) (t : JoinThread) : Bool :=
  match t.point with
  | .granted _ target _ => target = g
  | .read _ target _ => target = g
  | _ => false

def waits (t : JoinThread) : Bool :=
  match t.point with
  | .waiting .. => true
  | _ => false

/-- A task that is between two sections of a call and goes on with the ID. -/
def inside (t : JoinThread) : Bool :=
  match t.point with
  | .checked own _ => own.isSome
  | .granted .. | .read .. | .rejoining _ => true
  | .waiting .. | .detaching => false

/-- A task that is going to read joinRetval. -/
def asks (t : JoinThread) : Bool :=
  match t.point with
  | .granted _ _ wants => wants
  | _ => false

/-- The joins of the task number g that were granted. -/
def grants (x : JoinHist) (g : Nat) : Nat := x.threads.countP (holds g) + x.joined.countP fun j => j.target = g

end JoinHist

/-- The condition: the control block is not recycled while a task is going to read its value, nor taken for a new task while one
goes on with its ID; a join comes to the exited task while no other task that joins it is on its way; and it can delete the task,
which is no system task, may be deleted, and does not run on another core. -/
def JoinCall.Ok (x : JoinHist) : JoinCall → Prop
  | create .. => ∀ t ∈ x.threads, JoinHist.inside t = false
  | recycle => ∀ t ∈ x.threads, JoinHist.asks t = false
  | go t _ running => match t.point with
    | .checked .. => x.place = .inUse → x.taskCB.exit = true → t.processCB = x.taskCB.processCB →
        ∀ u ∈ x.threads, JoinHist.holds x.gen u = false
    | .read .. => x.place = .inUse → x.taskCB.systemTask = false ∧ x.taskCB.noDelete = false ∧ running = false
    | .granted .. | .waiting .. | .detaching | .rejoining _ => True
  | start | entryReturn _ | exit _ | delete _ | join .. | detach .. => True

@[reducible] def joinSystem (defaultProcess : Nat) : Run.System JoinHist JoinCall where
  init x := x = startTask defaultProcess
  pre x c := c.Pre x
  run x c := c.run defaultProcess x

structure JoinLaw (x : JoinHist) : Prop where
  once : ∀ g, (x.joined.countP fun j => j.target = g) ≤ 1
  exited : ∀ j ∈ x.joined, ∃ v, (j.target,v) ∈ x.exits ∧ ∀ r, j.retval = some r → r = v
  exits : (x.exits.map Prod.fst).Nodup
  detached : ∀ g ∈ x.detached, ∀ j ∈ x.joined, j.target ≠ g
  own : ∀ d ∈ x.deletions, d.1 = d.2

/-- The value that a join of the task number target reports, if any, is the one that this task exited with. -/
def Reported (exits : List (Nat × Nat)) (target : Nat) (retval : Option Nat) : Prop :=
  ∃ v, (target,v) ∈ exits ∧ ∀ r, retval = some r → r = v

/-- What holds of a task inside a call: it goes on with the task that has the ID now. -/
def JoinHist.Fits (x : JoinHist) (t : JoinThread) : Prop :=
  match t.point with
  | .waiting own target _ => own = x.gen ∧ target = x.gen ∧ t.task ∈ x.taskCB.joinList
  | .granted own target wants => own = x.gen ∧ target = x.gen ∧ target ∈ x.exits.map Prod.fst ∧
      (x.place ≠ .free → x.taskCB.exit = true) ∧ (wants = true → x.place ≠ .free)
  | .read own target retval => own = x.gen ∧ target = x.gen ∧ Reported x.exits target retval
  | .checked own _ => ∀ g ∈ own, g = x.gen
  | .rejoining own => own = x.gen
  | .detaching => True

/-- The control block: at most one task waits in it, and only for a joinable task that runs. -/
structure SlotInv (taskCB : LosTaskCB) (place : SlotPlace) : Prop where
  place : taskCB.unused = false ↔ place = .inUse
  len : taskCB.joinList.length ≤ 1
  awaited : taskCB.joinList ≠ [] → taskCB.pthreadJoin = true ∧ taskCB.exit = false ∧ taskCB.unused = false

structure JoinInv (x : JoinHist) : Prop where
  slot : SlotInv x.taskCB x.place
  count : x.threads.countP JoinHist.waits = x.taskCB.joinList.length
  fits : ∀ t ∈ x.threads, x.Fits t
  once : ∀ g, x.grants g ≤ 1
  fresh : x.taskCB.exit = false → x.taskCB.unused = false → x.grants x.gen = 0 ∧ x.gen ∉ x.exits.map Prod.fst
  later : ∀ g, x.gen < g → x.grants g = 0 ∧ g ∉ x.exits.map Prod.fst
  nodup : (x.exits.map Prod.fst).Nodup
  exited : x.place ≠ .free → x.taskCB.exit = true → (x.gen,x.taskCB.joinRetval) ∈ x.exits
  joined : ∀ j ∈ x.joined, Reported x.exits j.target j.retval
  unjoined : x.taskCB.unused = false → ∀ j ∈ x.joined, j.target ≠ x.gen
  detached : ∀ g ∈ x.detached, g ≤ x.gen ∧ x.grants g = 0 ∧
    (g = x.gen → x.taskCB.unused = false → x.taskCB.exit = false ∧ x.taskCB.pthreadJoin = false)
  own : ∀ d ∈ x.deletions, d.1 = d.2

section
variable {defaultProcess : Nat} {x : JoinHist} {taskCB : LosTaskCB} {place : SlotPlace} {t : JoinThread} {p : JoinPoint} {g : Nat}

theorem JoinInv.law (hx : JoinInv x) : JoinLaw x := by
  refine ⟨fun g => Nat.le_trans (Nat.le_add_left _ _) (hx.once g),hx.joined,hx.nodup,fun g hg j hj he => ?_,hx.own⟩
  have hzero := (hx.detached g hg).2.1
  have hpos : 0 < x.joined.countP fun j => j.target = g := List.countP_pos_iff.mpr ⟨j,hj,decide_eq_true he⟩
  rw [JoinHist.grants] at hzero
  omega

theorem Reported.mono {exits exits' : List (Nat × Nat)} {target : Nat} {retval : Option Nat} (h : Reported exits target retval)
    (hsub : ∀ e ∈ exits, e ∈ exits') : Reported exits' target retval := by
  obtain ⟨v,hv,hr⟩ := h
  exact ⟨v,hsub _ hv,hr⟩

theorem JoinHist.Fits.mono {y : JoinHist} (h : x.Fits t) (hgen : y.gen = x.gen)
    (hw : JoinHist.waits t = true → t.task ∈ y.taskCB.joinList) (hsub : ∀ e ∈ x.exits, e ∈ y.exits)
    (hexit : (x.place ≠ .free → x.taskCB.exit = true) → y.place ≠ .free → y.taskCB.exit = true)
    (hasks : JoinHist.asks t = true → x.place ≠ .free → y.place ≠ .free) : y.Fits t := by
  rcases t with ⟨task,processCB,point⟩
  cases point with
  | waiting own target wants => exact ⟨hgen ▸ h.1,hgen ▸ h.2.1,hw rfl⟩
  | granted own target wants =>
    obtain ⟨ho,ht,hmem,he,hplace⟩ := h
    obtain ⟨e,hmem,heq⟩ := List.mem_map.mp hmem
    exact ⟨hgen ▸ ho,hgen ▸ ht,List.mem_map.mpr ⟨e,hsub e hmem,heq⟩,hexit he,fun hwants => hasks hwants (hplace hwants)⟩
  | read own target retval => exact ⟨hgen ▸ h.1,hgen ▸ h.2.1,Reported.mono h.2.2 hsub⟩
  | checked own wants => exact fun g hg => (h g hg).trans hgen.symm
  | rejoining own => exact Eq.trans h hgen.symm
  | detaching => trivial

/-- A task that goes on with no ID fits every state. -/
theorem JoinHist.Fits.outside (ht : JoinHist.inside t = false) (hw : JoinHist.waits t = false) (x : JoinHist) : x.Fits t := by
  rcases t with ⟨task,processCB,point⟩
  cases point with
  | checked own wants =>
    cases own with
    | none => exact nofun
    | some own => exact absurd ht.symm Bool.false_ne_true
  | detaching => trivial
  | waiting => exact absurd hw.symm Bool.false_ne_true
  | _ => exact absurd ht.symm Bool.false_ne_true

private theorem grants_move (hm : t ∈ x.threads) (taskCB : LosTaskCB) (p : JoinPoint) (g : Nat) :
    (x.move taskCB t p).grants g + (if JoinHist.holds g t then 1 else 0) =
      x.grants g + if JoinHist.holds g { t with point := p } then 1 else 0 := by
  have := Threads.countP_move hm { t with point := p } (JoinHist.holds g)
  rw [JoinHist.grants, JoinHist.grants]
  change (Threads.move x.threads t { t with point := p }).countP _ + _ + _ = _
  change _ + List.countP _ x.joined + _ = _
  omega

private theorem waits_move (hm : t ∈ x.threads) (taskCB : LosTaskCB) (p : JoinPoint) :
    (x.move taskCB t p).threads.countP JoinHist.waits + (if JoinHist.waits t then 1 else 0) =
      x.threads.countP JoinHist.waits + if JoinHist.waits { t with point := p } then 1 else 0 :=
  Threads.countP_move hm { t with point := p } JoinHist.waits

private theorem grants_leave (x : JoinHist) (t : JoinThread) (g : Nat) : (x.leave t).grants g ≤ x.grants g :=
  Nat.add_le_add_right (List.Sublist.countP_le List.erase_sublist) _

private theorem waits_leave (hm : t ∈ x.threads) : (x.leave t).threads.countP JoinHist.waits + (if JoinHist.waits t then 1 else 0) =
    x.threads.countP JoinHist.waits := Threads.countP_erase_add hm JoinHist.waits

/-- A join that was granted and returns is granted still, among those that returned. -/
private theorem grants_finish (hm : t ∈ x.threads) {own target : Nat} {retval : Option Nat} (hp : t.point = .read own target retval) (g : Nat) :
    (x.finish t target retval).grants g = x.grants g := by
  have herase := Threads.countP_erase_add hm (JoinHist.holds g)
  have hholds : JoinHist.holds g t = decide (target = g) := by rw [JoinHist.holds, hp]
  rw [hholds] at herase
  have hone : [(⟨target,retval⟩ : Joined)].countP (fun j => j.target = g) = if decide (target = g) = true then 1 else 0 :=
    List.countP_singleton
  rw [JoinHist.grants, JoinHist.grants]
  change (x.threads.erase t).countP _ + (x.joined ++ [(⟨target,retval⟩ : Joined)]).countP _ = _
  rw [List.countP_append, hone]
  omega

private theorem post_eq (hs : SlotInv taskCB place) :
    osTaskJoinPostUnsafe taskCB = ({ taskCB with joinList := [], exit := true },taskCB.joinList.head?) := by
  have hlen := hs.len
  have haw := hs.awaited
  rcases taskCB with ⟨unused,init,exit,pthreadJoin,systemTask,noDelete,processCB,joinList,joinRetval⟩
  match joinList with
  | [] => cases pthreadJoin <;> rfl
  | [a] =>
    obtain ⟨h,-,-⟩ := haw (List.cons_ne_nil _ _)
    cases h
    rfl
  | _ :: _ :: _ => exact absurd hlen (by simp)

private theorem SlotInv.waits_zero (hs : SlotInv taskCB place) (h : taskCB.exit = true ∨ taskCB.pthreadJoin = false) : taskCB.joinList = [] := by
  by_contra hne
  obtain ⟨hj,he,-⟩ := hs.awaited hne
  rcases h with h | h
  · rw [h] at he; exact absurd he (by decide)
  · rw [h] at hj; exact absurd hj (by decide)

/-- The waiting task is the one that is woken. -/
private theorem wake_waiting (hs : SlotInv taskCB place) {own target : Nat} {wants : Bool} (hp : t.point = .waiting own target wants)
    (ht : t.task ∈ taskCB.joinList) : JoinHist.wake taskCB.joinList.head? t = { t with point := .granted own target wants } := by
  have hhead : taskCB.joinList.head? = some t.task := by
    have hlen := hs.len
    match hl : taskCB.joinList with
    | [] => rw [hl] at ht; exact absurd ht List.not_mem_nil
    | [a] => rw [hl] at ht; rw [List.mem_singleton.mp ht]; rfl
    | _ :: _ :: _ => rw [hl] at hlen; exact absurd hlen (by simp)
  rw [JoinHist.wake, hp, hhead]
  exact if_pos rfl

private theorem wake_other (hp : ∀ own target wants, t.point ≠ .waiting own target wants) (w : Option Nat) : JoinHist.wake w t = t := by
  rw [JoinHist.wake]
  split
  · exact absurd ‹_› (hp _ _ _)
  · rfl

section
variable (unused : Bool)

/-- The control block after a post. -/
def posted (taskCB : LosTaskCB) : LosTaskCB := { taskCB with joinList := [], exit := true, unused := unused }

private theorem exits_post (x : JoinHist) (taskCB : LosTaskCB) (w : Option Nat) : ∀ e ∈ x.exits, e ∈ (x.post taskCB w).exits := by
  intro e he
  change e ∈ if x.taskCB.exit then x.exits else x.exits ++ [(x.gen,x.taskCB.joinRetval)]
  split_ifs
  · exact he
  · exact List.mem_append_left _ he

/-- The task is among those that exited. -/
private theorem exited_post (hx : JoinInv x) (hplace : x.place ≠ .free) (taskCB : LosTaskCB) (w : Option Nat) :
    (x.gen,x.taskCB.joinRetval) ∈ (x.post taskCB w).exits := by
  change _ ∈ if x.taskCB.exit then x.exits else x.exits ++ [(x.gen,x.taskCB.joinRetval)]
  split_ifs with he
  · exact hx.exited hplace he
  · exact List.mem_append_right _ (List.mem_singleton.mpr rfl)

/-- Only the task that waits is granted its join by a post. -/
private theorem grants_post (hx : JoinInv x) (g : Nat) (taskCB : LosTaskCB) :
    (x.post taskCB x.taskCB.joinList.head?).grants g ≤ x.grants g + if g = x.gen then x.taskCB.joinList.length else 0 := by
  have hmap : (x.threads.map (JoinHist.wake x.taskCB.joinList.head?)).countP (JoinHist.holds g) ≤
      x.threads.countP (JoinHist.holds g) + x.threads.countP fun t => JoinHist.waits t && decide (g = x.gen) := by
    refine Threads.countP_map_le fun t ht h => ?_
    have hfit := hx.fits t ht
    cases hp : t.point with
    | waiting own target wants =>
      rw [JoinHist.Fits, hp] at hfit
      rw [wake_waiting hx.slot hp hfit.2.2] at h
      have hg : target = g := of_decide_eq_true h
      right
      rw [JoinHist.waits, hp, ← hg, hfit.2.1, decide_eq_true rfl]
      rfl
    | _ =>
      rw [wake_other (by rw [hp]; nofun)] at h
      exact .inl h
  have hle : (x.threads.countP fun t => JoinHist.waits t && decide (g = x.gen)) ≤ if g = x.gen then x.taskCB.joinList.length else 0 := by
    split_ifs with hg
    · rw [← hx.count]
      exact List.countP_mono_left fun t _ h => (Bool.and_eq_true_iff.mp h).1
    · exact Nat.le_of_eq (List.countP_eq_zero.mpr fun t _ h => hg (of_decide_eq_true (Bool.and_eq_true_iff.mp h).2))
  rw [JoinHist.grants, JoinHist.grants]
  change (x.threads.map _).countP _ + List.countP _ x.joined ≤ _
  omega

theorem JoinInv.post (hx : JoinInv x) (hused : x.taskCB.unused = false) (hu : unused = false → x.taskCB.pthreadJoin = true) :
    JoinInv (x.post (posted unused x.taskCB) x.taskCB.joinList.head?) := by
  have hplace : x.place = .inUse := hx.slot.place.mp hused
  have hfree : x.place ≠ .free := by rw [hplace]; nofun
  have hexited := exited_post hx hfree (posted unused x.taskCB) x.taskCB.joinList.head?
  have hmono := exits_post x (posted unused x.taskCB) x.taskCB.joinList.head?
  have hlen := hx.slot.len
  have hgrants := fun g => grants_post hx g (posted unused x.taskCB)
  have hfree' : (x.post (posted unused x.taskCB) x.taskCB.joinList.head?).place ≠ .free := by
    change (if unused then SlotPlace.recycle else x.place) ≠ .free
    rw [hplace]
    cases unused <;> nofun
  refine ⟨⟨?_,Nat.zero_le _,fun h => absurd rfl h⟩,?_,?_,?_,nofun,?_,?_,fun _ _ => hexited,fun j hj => (hx.joined j hj).mono hmono,
    fun _ => hx.unjoined hused,?_,hx.own⟩
  · change unused = false ↔ (if unused then SlotPlace.recycle else x.place) = .inUse
    cases unused with
    | true => exact ⟨nofun,nofun⟩
    | false => exact ⟨fun _ => hplace,fun _ => rfl⟩
  · refine List.countP_eq_zero.mpr fun u hu' h => ?_
    obtain ⟨t,ht,rfl⟩ := List.mem_map.mp hu'
    have hfit := hx.fits t ht
    cases hp : t.point with
    | waiting own target wants =>
      rw [JoinHist.Fits, hp] at hfit
      rw [wake_waiting hx.slot hp hfit.2.2] at h
      exact absurd h (by simp [JoinHist.waits])
    | _ =>
      rw [wake_other (by rw [hp]; nofun), JoinHist.waits, hp] at h
      exact absurd h Bool.false_ne_true
  · intro u hu'
    obtain ⟨t,ht,rfl⟩ := List.mem_map.mp hu'
    have hfit := hx.fits t ht
    cases hp : t.point with
    | waiting own target wants =>
      rw [JoinHist.Fits, hp] at hfit
      rw [wake_waiting hx.slot hp hfit.2.2]
      exact ⟨hfit.1,hfit.2.1,List.mem_map.mpr ⟨_,hfit.2.1 ▸ hexited,rfl⟩,fun _ => rfl,fun _ => hfree'⟩
    | _ =>
      rw [wake_other (by rw [hp]; nofun)]
      exact hfit.mono rfl (by rw [JoinHist.waits, hp]; nofun) hmono (fun _ _ => rfl) fun _ _ => hfree'
  · intro g
    have := hgrants g
    have honce := hx.once g
    by_cases hg : g = x.gen
    · rw [if_pos hg] at this
      by_cases hl : x.taskCB.joinList = []
      · have hnil := List.length_eq_zero_iff.mpr hl
        omega
      · obtain ⟨-,he,hun⟩ := hx.slot.awaited hl
        have hz := (hx.fresh he hun).1
        rw [← hg] at hz
        omega
    · rw [if_neg hg] at this
      omega
  · intro g hg
    have hlt : x.gen < g := hg
    have := hgrants g
    rw [if_neg (Nat.ne_of_gt hlt)] at this
    have hlater := hx.later g hg
    refine ⟨by omega,fun hmem => ?_⟩
    obtain ⟨e,he,rfl⟩ := List.mem_map.mp hmem
    change e ∈ (if x.taskCB.exit then x.exits else x.exits ++ [(x.gen,x.taskCB.joinRetval)]) at he
    split_ifs at he
    · exact hlater.2 (List.mem_map.mpr ⟨e,he,rfl⟩)
    · rcases List.mem_append.mp he with he | he
      · exact hlater.2 (List.mem_map.mpr ⟨e,he,rfl⟩)
      · rw [List.mem_singleton.mp he] at hlt
        exact absurd hlt (Nat.lt_irrefl _)
  · change ((if x.taskCB.exit then x.exits else x.exits ++ [(x.gen,x.taskCB.joinRetval)]).map Prod.fst).Nodup
    split_ifs with he
    · exact hx.nodup
    · rw [List.map_append]
      refine List.nodup_append.mpr ⟨hx.nodup,List.nodup_cons.mpr ⟨nofun,List.nodup_nil⟩,fun g hg g' hg' heq => ?_⟩
      rw [heq, List.mem_singleton.mp hg'] at hg
      exact (hx.fresh (Bool.of_not_eq_true he) hused).2 hg
  · intro g hg
    obtain ⟨hle,hz,hopen⟩ := hx.detached g hg
    have := hgrants g
    by_cases hgen : g = x.gen
    · obtain ⟨-,hj⟩ := hopen hgen hused
      have hnil := List.length_eq_zero_iff.mpr (hx.slot.waits_zero (.inr hj))
      rw [if_pos hgen] at this
      refine ⟨hle,by omega,fun _ hun => ?_⟩
      exact absurd (hj.symm.trans (hu hun)) (by decide)
    · rw [if_neg hgen] at this
      exact ⟨hle,by omega,fun h => absurd h hgen⟩

end

private theorem fits_move (hx : JoinInv x) (hfit : x.Fits { t with point := p }) : ∀ u ∈ (x.move x.taskCB t p).threads, x.Fits u := by
  intro u hu
  rcases Threads.mem_of_mem_move hu with rfl | hu
  · exact hfit
  · exact hx.fits u hu

/-- A piece of a call that does not change the control block. A join is granted only when no other was. -/
theorem JoinInv.move (hx : JoinInv x) (hm : t ∈ x.threads) (hw : JoinHist.waits t = false)
    (hw' : JoinHist.waits { t with point := p } = false) (hfit : x.Fits { t with point := p })
    (hg : ∀ g, JoinHist.holds g { t with point := p } = true → JoinHist.holds g t = true ∨
      g = x.gen ∧ x.grants g = 0 ∧ x.taskCB.exit = true ∧ x.taskCB.unused = false) : JoinInv (x.move x.taskCB t p) := by
  have hgrants : ∀ g, (x.move x.taskCB t p).grants g ≤ x.grants g ∨
      g = x.gen ∧ x.grants g = 0 ∧ x.taskCB.exit = true ∧ x.taskCB.unused = false ∧ (x.move x.taskCB t p).grants g ≤ 1 := by
    intro g
    have hmove := grants_move hm x.taskCB p g
    cases hnew : JoinHist.holds g { t with point := p } with
    | false =>
      rw [hnew, if_neg Bool.false_ne_true] at hmove
      left
      omega
    | true =>
      rw [hnew, if_pos rfl] at hmove
      rcases hg g hnew with hold | ⟨rfl,hz,he,hu⟩
      · rw [hold, if_pos rfl] at hmove
        left
        omega
      · right
        exact ⟨rfl,hz,he,hu,by omega⟩
  refine ⟨hx.slot,?_,fits_move hx hfit,fun g => ?_,fun he hu => ?_,fun g hlt => ?_,hx.nodup,hx.exited,hx.joined,hx.unjoined,fun g hd => ?_,
    hx.own⟩
  · have hwaits := waits_move hm x.taskCB p
    rw [hw, hw', if_neg Bool.false_ne_true] at hwaits
    exact hwaits.trans hx.count
  · have := hx.once g
    rcases hgrants g with h | ⟨-,-,-,-,h⟩
    · omega
    · exact h
  · obtain ⟨hz,hn⟩ := hx.fresh he hu
    refine ⟨?_,hn⟩
    rcases hgrants x.gen with h | ⟨-,-,he',-⟩
    · exact Nat.eq_zero_of_le_zero (hz ▸ h)
    · exact absurd (he.symm.trans he') (by decide)
  · obtain ⟨hz,hn⟩ := hx.later g hlt
    refine ⟨?_,hn⟩
    rcases hgrants g with h | ⟨he,-⟩
    · exact Nat.eq_zero_of_le_zero (hz ▸ h)
    · exact absurd he (Nat.ne_of_gt hlt)
  · obtain ⟨hle,hz,hopen⟩ := hx.detached g hd
    refine ⟨hle,?_,hopen⟩
    rcases hgrants g with h | ⟨he,-,hexit,hu,-⟩
    · exact Nat.eq_zero_of_le_zero (hz ▸ h)
    · exact absurd ((hopen he hu).1.symm.trans hexit) (by decide)

theorem JoinInv.leave (hx : JoinInv x) (hm : t ∈ x.threads) (hw : JoinHist.waits t = false) : JoinInv (x.leave t) := by
  have hzero : ∀ g, x.grants g = 0 → (x.leave t).grants g = 0 := fun g hz => Nat.eq_zero_of_le_zero (hz ▸ grants_leave x t g)
  refine ⟨hx.slot,?_,fun u hu => hx.fits u (List.mem_of_mem_erase hu),fun g => Nat.le_trans (grants_leave x t g) (hx.once g),
    fun he hu => ⟨hzero _ (hx.fresh he hu).1,(hx.fresh he hu).2⟩,fun g hlt => ⟨hzero g (hx.later g hlt).1,(hx.later g hlt).2⟩,
    hx.nodup,hx.exited,hx.joined,hx.unjoined,fun g hd => ?_,hx.own⟩
  · have hwaits := waits_leave hm
    rw [hw, if_neg Bool.false_ne_true] at hwaits
    exact hwaits.trans hx.count
  · obtain ⟨hle,hz,hopen⟩ := hx.detached g hd
    exact ⟨hle,hzero g hz,hopen⟩

theorem JoinInv.enter (hx : JoinInv x) (task processCB : Nat) (hw : JoinHist.waits ⟨task,processCB,p⟩ = false)
    (hg : ∀ g, JoinHist.holds g ⟨task,processCB,p⟩ = false) (hfit : x.Fits ⟨task,processCB,p⟩) : JoinInv (x.enter task processCB p) := by
  have hgrants : ∀ g, (x.enter task processCB p).grants g = x.grants g := by
    intro g
    rw [JoinHist.grants, JoinHist.grants, JoinHist.enter]
    simp only
    rw [List.countP_cons_of_neg (by rw [hg g]; exact Bool.false_ne_true)]
  refine ⟨hx.slot,?_,fun u hu => ?_,fun g => hgrants g ▸ hx.once g,fun he hu => hgrants x.gen ▸ hx.fresh he hu,
    fun g hlt => hgrants g ▸ hx.later g hlt,hx.nodup,hx.exited,hx.joined,hx.unjoined,fun g hd => hgrants g ▸ hx.detached g hd,hx.own⟩
  · exact (List.countP_cons_of_neg (by rw [hw]; exact Bool.false_ne_true)).trans hx.count
  · rcases List.mem_cons.mp hu with rfl | hu
    · exact hfit
    · exact hx.fits u hu

/-- A task waits for one that runs. -/
theorem JoinInv.wait (hx : JoinInv x) (hm : t ∈ x.threads) (hw : JoinHist.waits t = false) (hg : ∀ g, JoinHist.holds g t = false)
    (hused : x.taskCB.unused = false) (hexit : x.taskCB.exit = false) (hjoin : x.taskCB.pthreadJoin = true)
    (hempty : x.taskCB.joinList = []) {own : Nat} (hown : own = x.gen) (wants : Bool) :
    JoinInv (x.move { x.taskCB with joinList := [t.task] } t (.waiting own x.gen wants)) := by
  have hgrants : ∀ g, (x.move { x.taskCB with joinList := [t.task] } t (.waiting own x.gen wants)).grants g = x.grants g := by
    intro g
    have hmove := grants_move hm { x.taskCB with joinList := [t.task] } (.waiting own x.gen wants) g
    rwa [hg g, show JoinHist.holds g { t with point := .waiting own x.gen wants } = false from rfl, if_neg Bool.false_ne_true] at hmove
  refine ⟨⟨hx.slot.place,Nat.le_refl _,fun _ => ⟨hjoin,hexit,hused⟩⟩,?_,fun u hu => ?_,fun g => hgrants g ▸ hx.once g,
    fun he hu => hgrants x.gen ▸ hx.fresh he hu,fun g hlt => hgrants g ▸ hx.later g hlt,hx.nodup,hx.exited,hx.joined,hx.unjoined,
    fun g hd => hgrants g ▸ hx.detached g hd,hx.own⟩
  · have hwaits := waits_move hm { x.taskCB with joinList := [t.task] } (.waiting own x.gen wants)
    rw [hw, hx.count, hempty, if_neg Bool.false_ne_true] at hwaits
    exact hwaits
  · rcases Threads.mem_of_mem_move hu with rfl | hu
    · exact ⟨hown,rfl,List.mem_singleton.mpr rfl⟩
    · have hcount := hx.count
      rw [hempty] at hcount
      have hnone := List.countP_eq_zero.mp hcount u hu
      exact (hx.fits u hu).mono rfl (fun hw => absurd hw hnone) (fun e he => he) (fun h => h) fun _ h => h

/-- The end of a join of a task that was deleted. -/
theorem JoinInv.finish (hx : JoinInv x) (hu : x.taskCB.unused = true) (hm : t ∈ x.threads) {own target : Nat} {retval : Option Nat}
    (hp : t.point = .read own target retval) : JoinInv (x.finish t target retval) := by
  have hgrants := grants_finish hm hp
  have hwaits := waits_leave hm
  have hrep : Reported x.exits target retval := by
    have := hx.fits t hm
    rw [JoinHist.Fits, hp] at this
    exact this.2.2
  refine ⟨hx.slot,?_,fun u hu => hx.fits u (List.mem_of_mem_erase hu),fun g => hgrants g ▸ hx.once g,
    fun he hu => hgrants x.gen ▸ hx.fresh he hu,fun g hlt => hgrants g ▸ hx.later g hlt,hx.nodup,hx.exited,fun j hj => ?_,
    fun h => absurd (h.symm.trans hu) Bool.false_ne_true,fun g hd => hgrants g ▸ hx.detached g hd,hx.own⟩
  · rw [show JoinHist.waits t = false by rw [JoinHist.waits, hp], if_neg Bool.false_ne_true] at hwaits
    exact hwaits.trans hx.count
  · rcases List.mem_append.mp hj with hj | hj
    · exact hx.joined j hj
    · rw [List.mem_singleton.mp hj]
      exact hrep

private theorem JoinInv.logDeletion (hx : JoinInv x) {own : Nat} (hown : own = x.gen) : JoinInv (x.logDeletion own) := by
  refine ⟨hx.slot,hx.count,hx.fits,hx.once,hx.fresh,hx.later,hx.nodup,hx.exited,hx.joined,hx.unjoined,hx.detached,fun d hd => ?_⟩
  rcases List.mem_append.mp hd with hd | hd
  · exact hx.own d hd
  · rw [List.mem_singleton.mp hd]
    exact hown

/-- A control block that is not used is not awaited. -/
theorem SlotInv.unused (hs : SlotInv taskCB place) (h : place ≠ .inUse) : taskCB.joinList = [] := by
  by_contra hne
  exact h (hs.place.mp (hs.awaited hne).2.2)

private theorem not_waiting (hx : JoinInv x) (hnil : x.taskCB.joinList = []) (hm : t ∈ x.threads) : JoinHist.waits t = false := by
  have hcount := hx.count
  rw [hnil] at hcount
  exact Bool.of_not_eq_true (List.countP_eq_zero.mp hcount t hm)

private theorem mem_joinList (hx : JoinInv x) (hm : t ∈ x.threads) (hw : JoinHist.waits t = true) : t.task ∈ x.taskCB.joinList := by
  have hfit := hx.fits t hm
  rcases t with ⟨task,processCB,point⟩
  cases point with
  | waiting own target wants => exact hfit.2.2
  | _ => exact absurd hw Bool.false_ne_true

/-- A piece of the task's own run. -/
theorem JoinInv.update (hx : JoinInv x) (hu : taskCB.unused = x.taskCB.unused) (he : taskCB.exit = x.taskCB.exit)
    (hj : taskCB.pthreadJoin = x.taskCB.pthreadJoin) (hl : taskCB.joinList = x.taskCB.joinList)
    (hr : x.taskCB.exit = true → taskCB.joinRetval = x.taskCB.joinRetval) : JoinInv { x with taskCB := taskCB } := by
  refine ⟨⟨hu ▸ hx.slot.place,hl ▸ hx.slot.len,fun h => ?_⟩,hl ▸ hx.count,fun t ht => ?_,hx.once,fun h h' => hx.fresh (he ▸ h) (hu ▸ h'),
    hx.later,hx.nodup,fun hf h => ?_,hx.joined,fun h => hx.unjoined (hu ▸ h),fun g hd => ?_,hx.own⟩
  · rw [hj, he, hu]
    exact hx.slot.awaited (hl ▸ h)
  · exact (hx.fits t ht).mono rfl (fun hw => hl ▸ mem_joinList hx ht hw) (fun _ h => h) (fun hsame hf => he ▸ hsame hf) fun _ h => h
  · have hexit : x.taskCB.exit = true := he ▸ h
    simp only
    rw [hr hexit]
    exact hx.exited hf hexit
  · simp only
    rw [hu, he, hj]
    exact hx.detached g hd

theorem JoinInv.create (hx : JoinInv x) (hp : x.place = .free) (hok : ∀ t ∈ x.threads, JoinHist.inside t = false)
    (joinable systemTask noDelete : Bool) (processCB : Nat) :
    JoinInv ((JoinCall.create joinable systemTask noDelete processCB).run defaultProcess x) := by
  have hnil := hx.slot.unused (by rw [hp]; nofun)
  have hcount := hx.count
  rw [hnil] at hcount
  refine ⟨⟨⟨fun _ => rfl,fun _ => rfl⟩,Nat.zero_le _,fun h => absurd rfl h⟩,hcount,fun t ht => ?_,hx.once,
    fun _ _ => hx.later _ (Nat.lt_succ_self _),fun g hlt => hx.later g (Nat.lt_of_succ_lt hlt),hx.nodup,nofun,hx.joined,
    fun _ j hj he => ?_,fun g hd => ?_,hx.own⟩
  · exact JoinHist.Fits.outside (hok t ht) (not_waiting hx hnil ht) _
  · obtain ⟨v,hv,-⟩ := hx.joined j hj
    exact (hx.later j.target (he ▸ Nat.lt_succ_self x.gen)).2 (List.mem_map.mpr ⟨_,hv,rfl⟩)
  · obtain ⟨hle,hz,-⟩ := hx.detached g hd
    exact ⟨Nat.le_succ_of_le hle,hz,fun hg => absurd (hg ▸ hle) (Nat.not_succ_le_self _)⟩

theorem JoinInv.recycle (hx : JoinInv x) (hp : x.place = .recycle) (hok : ∀ t ∈ x.threads, JoinHist.asks t = false) :
    JoinInv (JoinCall.recycle.run defaultProcess x) := by
  have hnil := hx.slot.unused (by rw [hp]; nofun)
  have hcount := hx.count
  rw [hnil] at hcount
  refine ⟨⟨⟨nofun,nofun⟩,Nat.zero_le _,fun h => absurd rfl h⟩,hcount,fun t ht => ?_,hx.once,nofun,hx.later,hx.nodup,
    fun h => absurd rfl h,hx.joined,nofun,fun g hd => ⟨(hx.detached g hd).1,(hx.detached g hd).2.1,nofun⟩,hx.own⟩
  exact (hx.fits t ht).mono rfl (fun h => absurd (h.symm.trans (not_waiting hx hnil ht)) Bool.false_ne_true.symm) (fun _ h => h)
    (fun _ h => absurd rfl h) fun h => absurd (h.symm.trans (hok t ht)) Bool.false_ne_true.symm

private theorem inactiveDelete_eq (hs : SlotInv taskCB place) :
    osInactiveTaskDelete taskCB = (posted true taskCB,taskCB.joinList.head?) := by
  rw [osInactiveTaskDelete, post_eq hs]
  rfl

theorem JoinInv.exit (hx : JoinInv x) (hused : x.taskCB.unused = false) (last : Bool) :
    JoinInv ((JoinCall.exit last).run defaultProcess x) := by
  rw [JoinCall.run, osRunningTaskToExit]
  split_ifs with hl hj
  · rw [inactiveDelete_eq hx.slot]
    exact hx.post true hused nofun
  · rw [post_eq hx.slot]
    have := hx.post false hused fun _ => hj
    rwa [posted, ← hused] at this
  · rw [inactiveDelete_eq hx.slot]
    exact hx.post true hused nofun

private theorem taskDelete_cases (hs : SlotInv taskCB place) (running : Bool) : taskDelete taskCB running = .refused ∧ osTaskIsNotDelete taskCB = true ∨
    osTaskIsNotDelete taskCB = false ∧ taskCB.unused = false ∧ (taskDelete taskCB running = .killed ∨
      taskDelete taskCB running = .deleted (posted true taskCB) taskCB.joinList.head?) := by
  rw [taskDelete, inactiveDelete_eq hs]
  cases hn : osTaskIsNotDelete taskCB with
  | true => exact .inl ⟨rfl,rfl⟩
  | false =>
    have hu : taskCB.unused = false := by
      rw [osTaskIsNotDelete, Bool.or_eq_false_iff, Bool.or_eq_false_iff] at hn
      exact hn.1.1
    right
    refine ⟨rfl,hu,?_⟩
    cases running with
    | true => exact .inl rfl
    | false => exact .inr rfl

/-- The end of a join: it deletes the task, and no other, unless somebody else has deleted it. -/
private theorem JoinInv.reap (hx : JoinInv x) (hm : t ∈ x.threads) {own target : Nat} {retval : Option Nat} (hp : t.point = .read own target retval)
    {running : Bool} (hok : x.place = .inUse → x.taskCB.systemTask = false ∧ x.taskCB.noDelete = false ∧ running = false)
    (ctx : CheckContext) : JoinInv (JoinCall.goRun x t ctx running) := by
  have hfit := hx.fits t hm
  rw [JoinHist.Fits, hp] at hfit
  obtain ⟨hown,htarget,-⟩ := hfit
  rw [JoinCall.goRun, hp]
  simp only
  cases hu : x.taskCB.unused with
  | true =>
    rw [taskDelete, osTaskIsNotDelete, hu]
    exact hx.finish hu hm hp
  | false =>
    obtain ⟨hs,hn,rfl⟩ := hok (hx.slot.place.mp hu)
    rw [taskDelete, osTaskIsNotDelete, hu, hs, hn, inactiveDelete_eq hx.slot]
    have hmem : t ∈ (x.post (posted true x.taskCB) x.taskCB.joinList.head?).threads :=
      List.mem_map.mpr ⟨t,hm,wake_other (by rw [hp]; nofun) _⟩
    exact ((hx.post true hu nofun).finish rfl hmem hp).logDeletion hown

private theorem joinPend_cases (taskCB : LosTaskCB) (runTask runProcess : Nat) :
    ((taskJoinPend taskCB runTask runProcess).1 = taskCB ∧ ∃ ret, (taskJoinPend taskCB runTask runProcess).2 = some ret ∧
      (ret = LOS_OK → taskCB.unused = false ∧ taskCB.exit = true ∧ runProcess = taskCB.processCB)) ∨
    (taskJoinPend taskCB runTask runProcess = ({ taskCB with joinList := [runTask] },none) ∧ taskCB.unused = false ∧ taskCB.exit = false ∧
      taskCB.pthreadJoin = true ∧ taskCB.joinList = []) := by
  rw [taskJoinPend, osTaskJoinPendUnsafe]
  split_ifs with h1 h2 h3 h4 h5
  · exact .inl ⟨rfl,_,rfl,nofun⟩
  · exact .inl ⟨rfl,_,rfl,nofun⟩
  · exact .inl ⟨rfl,_,rfl,nofun⟩
  · exact .inl ⟨rfl,_,rfl,fun _ => ⟨Bool.of_not_eq_true h1,h4,not_not.mp h2⟩⟩
  · exact .inr ⟨rfl,Bool.of_not_eq_true h1,Bool.of_not_eq_true h4,h5.1,h5.2⟩
  · exact .inl ⟨rfl,_,rfl,nofun⟩

/-- The first section of a join. -/
theorem JoinInv.pend (hx : JoinInv x) (hm : t ∈ x.threads) {own : Option Nat} {wants : Bool} (hp : t.point = .checked own wants)
    (hok : x.place = .inUse → x.taskCB.exit = true → t.processCB = x.taskCB.processCB → ∀ u ∈ x.threads, JoinHist.holds x.gen u = false)
    (ctx : CheckContext) (running : Bool) : JoinInv (JoinCall.goRun x t ctx running) := by
  have hw : JoinHist.waits t = false := by rw [JoinHist.waits, hp]
  have hg : ∀ g, JoinHist.holds g t = false := fun g => by rw [JoinHist.holds, hp]
  have hown : own.getD x.gen = x.gen := by
    have hfit := hx.fits t hm
    rw [JoinHist.Fits, hp] at hfit
    cases own with
    | none => rfl
    | some own => exact hfit own rfl
  rw [JoinCall.goRun, hp]
  simp only
  rcases joinPend_cases x.taskCB t.task t.processCB with ⟨hsame,ret,hret,hexit⟩ | ⟨he,hu,hexit,hj,hl⟩
  · rw [show taskJoinPend x.taskCB t.task t.processCB = (x.taskCB,some ret) from Prod.ext hsame hret]
    simp only
    split_ifs with hr
    · obtain ⟨hu,he,hproc⟩ := hexit hr
      have huse := hx.slot.place.mp hu
      have hfree : x.place ≠ .free := by rw [huse]; nofun
      refine hx.move hm hw rfl ⟨hown,rfl,List.mem_map.mpr ⟨_,hx.exited hfree he,rfl⟩,fun _ => he,fun _ => hfree⟩ fun g h => .inr ?_
      obtain rfl : x.gen = g := of_decide_eq_true h
      -- no join of the task is on its way, and none has returned, as the task would be deleted
      refine ⟨rfl,?_,he,hu⟩
      rw [JoinHist.grants, List.countP_eq_zero.mpr fun u hm => Bool.not_eq_true _ ▸ hok huse he hproc u hm,
        List.countP_eq_zero.mpr fun j hj h => hx.unjoined hu j hj (of_decide_eq_true h)]
    · exact hx.leave hm hw
  · rw [he]
    exact hx.wait hm hw hg hu hexit hj hl hown _

private theorem detachSet_cases (taskCB : LosTaskCB) (runProcess : Nat) :
    (taskDetachSet taskCB runProcess).2 = none ∨
    (∃ ret, taskDetachSet taskCB runProcess = (taskCB,some ret) ∧ ret ≠ LOS_OK) ∨
    (taskDetachSet taskCB runProcess = ({ taskCB with pthreadJoin := false },some LOS_OK) ∧ taskCB.unused = false ∧ taskCB.exit = false ∧
      taskCB.joinList = []) := by
  rw [taskDetachSet, osTaskSetDetachUnsafe]
  split_ifs with h1 h2 h3 h4 h5
  · exact .inr (.inl ⟨_,rfl,nofun⟩)
  · exact .inr (.inl ⟨_,rfl,nofun⟩)
  · exact .inl rfl
  · exact .inr (.inr ⟨rfl,Bool.of_not_eq_true h1,Bool.of_not_eq_true h3,h5⟩)
  · exact .inr (.inl ⟨_,rfl,nofun⟩)
  · exact .inr (.inl ⟨_,rfl,nofun⟩)

theorem JoinInv.detach (hx : JoinInv x) (hm : t ∈ x.threads) (hp : t.point = .detaching) (ctx : CheckContext) (running : Bool) :
    JoinInv (JoinCall.goRun x t ctx running) := by
  have hw : JoinHist.waits t = false := by rw [JoinHist.waits, hp]
  have hleave := hx.leave hm hw
  rw [JoinCall.goRun, hp]
  simp only
  rcases detachSet_cases x.taskCB t.processCB with he | ⟨ret,he,hr⟩ | ⟨he,hu,hexit,hnil⟩
  · rw [show taskDetachSet x.taskCB t.processCB = (_,none) from Prod.ext rfl he]
    exact hx.move hm hw rfl rfl nofun
  · rw [he]
    simp only
    rw [if_neg hr]
    exact hleave
  · rw [he]
    simp only
    rw [if_pos trivial]
    refine ⟨⟨hleave.slot.place,hleave.slot.len,fun h => absurd hnil h⟩,hleave.count,hleave.fits,hleave.once,hleave.fresh,hleave.later,
      hleave.nodup,hleave.exited,hleave.joined,hleave.unjoined,fun g hd => ?_,hleave.own⟩
    rcases List.mem_append.mp hd with hd | hd
    · obtain ⟨hle,hz,hopen⟩ := hleave.detached g hd
      exact ⟨hle,hz,fun hg h => ⟨(hopen hg h).1,rfl⟩⟩
    · rw [List.mem_singleton.mp hd]
      exact ⟨Nat.le_refl _,(hleave.fresh hexit hu).1,fun _ _ => ⟨hexit,rfl⟩⟩

theorem JoinInv.go (hx : JoinInv x) (hm : t ∈ x.threads) {ctx : CheckContext} {running : Bool} (hok : (JoinCall.go t ctx running).Ok x) :
    JoinInv (JoinCall.goRun x t ctx running) := by
  rw [JoinCall.Ok] at hok
  cases hp : t.point with
  | checked own wants => exact hx.pend hm hp (by rw [hp] at hok; exact hok) ctx running
  | waiting own target wants =>
    rw [JoinCall.goRun, hp]
    exact hx
  | granted own target wants =>
    have hw : JoinHist.waits t = false := by rw [JoinHist.waits, hp]
    have hfit := hx.fits t hm
    rw [JoinHist.Fits, hp] at hfit
    obtain ⟨hown,hgen,hmem,hexit,hplace⟩ := hfit
    rw [JoinCall.goRun, hp]
    refine hx.move hm hw rfl ⟨hown,hgen,?_⟩ fun g h => .inl (by rw [JoinHist.holds, hp]; exact h)
    cases wants with
    | false =>
      obtain ⟨⟨g,v⟩,he,ht⟩ := List.mem_map.mp hmem
      exact ⟨v,ht ▸ he,nofun⟩
    | true =>
      -- the control block still is that of the task, and holds the value with which it exited
      exact ⟨x.taskCB.joinRetval,hgen ▸ hx.exited (hplace rfl) (hexit (hplace rfl)),fun r hr => (Option.some.inj hr).symm⟩
  | read own target retval => exact hx.reap hm hp (by rw [hp] at hok; exact hok) ctx
  | detaching => exact hx.detach hm hp ctx running
  | rejoining own =>
    have hw : JoinHist.waits t = false := by rw [JoinHist.waits, hp]
    have hown : own = x.gen := by
      have hfit := hx.fits t hm
      rwa [JoinHist.Fits, hp] at hfit
    rw [JoinCall.goRun, hp]
    simp only
    split_ifs
    · exact hx.move hm hw rfl (fun g hg => (Option.some.inj hg).symm.trans hown) nofun
    · exact hx.leave hm hw

theorem JoinCall.step_inv (c : JoinCall) (hx : JoinInv x) (hp : c.Pre x) (hok : c.Ok x) : JoinInv (c.run defaultProcess x) := by
  cases c with
  | create joinable systemTask noDelete processCB => exact hx.create hp hok joinable systemTask noDelete processCB
  | start => exact hx.update rfl rfl rfl rfl fun _ => rfl
  | entryReturn retval =>
    obtain ⟨-,-,hexit⟩ := hp
    exact hx.update rfl rfl rfl rfl fun h => absurd (hexit.symm.trans h) (by decide)
  | exit last => exact hx.exit (hx.slot.place.mpr hp.1) last
  | delete running =>
    rw [run]
    rcases taskDelete_cases hx.slot running with ⟨he,-⟩ | ⟨-,hu,he | he⟩
    · rw [he]
      exact hx
    · rw [he]
      exact hx
    · rw [he]
      exact hx.post true hu nofun
  | recycle => exact hx.recycle hp hok
  | join task processCB ctx wants =>
    rw [run]
    split_ifs
    · exact hx.enter task processCB rfl (fun _ => rfl) nofun
    · exact hx
  | detach task processCB ctx =>
    rw [run]
    split_ifs
    · exact hx.enter task processCB rfl (fun _ => rfl) trivial
    · exact hx
  | go t ctx running => exact hx.go hp.1 hok

theorem start_inv (defaultProcess : Nat) : JoinInv (startTask defaultProcess) :=
  ⟨⟨⟨nofun,nofun⟩,Nat.zero_le _,fun h => absurd rfl h⟩,rfl,nofun,fun _ => Nat.zero_le _,nofun,fun _ _ => ⟨rfl,nofun⟩,List.nodup_nil,
    fun h => absurd rfl h,nofun,nofun,nofun,nofun⟩

/-- A task is joined once at most, with its value, and never when it was detached, and no join or detach deletes another task, along
every run whose calls meet the condition. -/
theorem joinLaw_of_reachable (defaultProcess : Nat) (x : JoinHist)
    (h : Run.Reachable (joinSystem defaultProcess) (fun x c => c.Ok x) x) : JoinLaw x := by
  have hinv : JoinInv x := h.invariant (by rintro x rfl; exact start_inv defaultProcess) fun x c hx hp hok => c.step_inv hx hp hok
  exact hinv.law

end

/-- A caller that may join. -/
def joinContext : CheckContext := ⟨true,false,true,false⟩

def goOn (task : Nat) (point : JoinPoint) : JoinCall := .go ⟨task,1,point⟩ joinContext false

/-- A task exits with the value 7 while another one waits to join it, and the next task with the ID is detached. -/
theorem joinLaw_recycled_id : ∃ x, Run.Reachable (joinSystem 0) (fun x c => c.Ok x) x ∧ x.joined = [⟨1,some 7⟩] ∧
    x.exits = [(1,7),(2,0)] ∧ x.deletions = [(1,1)] ∧ x.detached = [2] ∧ JoinLaw x := by
  have h0 : Run.Reachable (joinSystem 0) (fun x c => c.Ok x) (startTask 0) := .init rfl
  have h1 : Run.Reachable (joinSystem 0) (fun x c => c.Ok x) _ := .call h0 (.create true false false 1) rfl
    fun _ hm => absurd hm List.not_mem_nil
  have h2 : Run.Reachable (joinSystem 0) (fun x c => c.Ok x) _ := .call h1 .start rfl trivial
  have h3 : Run.Reachable (joinSystem 0) (fun x c => c.Ok x) _ := .call h2 (.join 5 1 joinContext true) nofun trivial
  have h4 : Run.Reachable (joinSystem 0) (fun x c => c.Ok x) _ := .call h3 (goOn 5 (.checked none true))
    ⟨by decide +kernel,nofun⟩ fun _ he => absurd he (by decide +kernel)
  have h5 : Run.Reachable (joinSystem 0) (fun x c => c.Ok x) _ := .call h4 (.entryReturn 7) ⟨rfl,rfl,rfl⟩ trivial
  have h6 : Run.Reachable (joinSystem 0) (fun x c => c.Ok x) _ := .call h5 (.exit false) ⟨rfl,rfl,rfl⟩ trivial
  have h7 : Run.Reachable (joinSystem 0) (fun x c => c.Ok x) _ := .call h6 (goOn 5 (.granted 1 1 true)) ⟨by decide +kernel,nofun⟩ trivial
  have h8 : Run.Reachable (joinSystem 0) (fun x c => c.Ok x) _ := .call h7 (goOn 5 (.read 1 1 (some 7)))
    ⟨by decide +kernel,nofun⟩ fun _ => ⟨rfl,rfl,rfl⟩
  have h9 : Run.Reachable (joinSystem 0) (fun x c => c.Ok x) _ := .call h8 .recycle rfl
    (show ∀ t ∈ JoinHist.threads _, JoinHist.asks t = false by decide +kernel)
  have h10 : Run.Reachable (joinSystem 0) (fun x c => c.Ok x) _ := .call h9 (.create true false false 1) rfl
    (show ∀ t ∈ JoinHist.threads _, JoinHist.inside t = false by decide +kernel)
  have h11 : Run.Reachable (joinSystem 0) (fun x c => c.Ok x) _ := .call h10 .start rfl trivial
  have h12 : Run.Reachable (joinSystem 0) (fun x c => c.Ok x) _ := .call h11 (.detach 6 1 joinContext)
    (show ∀ t ∈ JoinHist.threads _, t.task ≠ 6 by decide +kernel) trivial
  have h13 : Run.Reachable (joinSystem 0) (fun x c => c.Ok x) _ := .call h12 (goOn 6 .detaching) ⟨by decide +kernel,nofun⟩ trivial
  have h14 : Run.Reachable (joinSystem 0) (fun x c => c.Ok x) _ := .call h13 (.entryReturn 3) ⟨rfl,rfl,rfl⟩ trivial
  have h15 : Run.Reachable (joinSystem 0) (fun x c => c.Ok x) _ := .call h14 (.exit false) ⟨rfl,rfl,rfl⟩ trivial
  exact ⟨_,h15,by decide +kernel,by decide +kernel,by decide +kernel,by decide +kernel,joinLaw_of_reachable 0 _ h15⟩

/-- A second task joins between the wake-up of the first and its run: both joins return LOS_OK. -/
theorem joinLaw_fails_two_joins : ¬ ∀ defaultProcess x, Run.Reachable (joinSystem defaultProcess) (fun _ _ => True) x → JoinLaw x := by
  intro hall
  have h0 : Run.Reachable (joinSystem 0) (fun _ _ => True) (startTask 0) := .init rfl
  have h1 : Run.Reachable (joinSystem 0) (fun _ _ => True) _ := .call h0 (.create true false false 1) rfl trivial
  have h2 : Run.Reachable (joinSystem 0) (fun _ _ => True) _ := .call h1 .start rfl trivial
  have h3 : Run.Reachable (joinSystem 0) (fun _ _ => True) _ := .call h2 (.join 5 1 joinContext true) nofun trivial
  have h4 : Run.Reachable (joinSystem 0) (fun _ _ => True) _ := .call h3 (goOn 5 (.checked none true)) ⟨by decide +kernel,nofun⟩ trivial
  have h5 : Run.Reachable (joinSystem 0) (fun _ _ => True) _ := .call h4 (.entryReturn 7) ⟨rfl,rfl,rfl⟩ trivial
  have h6 : Run.Reachable (joinSystem 0) (fun _ _ => True) _ := .call h5 (.exit false) ⟨rfl,rfl,rfl⟩ trivial
  have h7 : Run.Reachable (joinSystem 0) (fun _ _ => True) _ := .call h6 (.join 6 1 joinContext true)
    (show ∀ t ∈ JoinHist.threads _, t.task ≠ 6 by decide +kernel) trivial
  have h8 : Run.Reachable (joinSystem 0) (fun _ _ => True) _ := .call h7 (goOn 6 (.checked none true)) ⟨by decide +kernel,nofun⟩ trivial
  have h9 : Run.Reachable (joinSystem 0) (fun _ _ => True) _ := .call h8 (goOn 6 (.granted 1 1 true)) ⟨by decide +kernel,nofun⟩ trivial
  have h10 : Run.Reachable (joinSystem 0) (fun _ _ => True) _ := .call h9 (goOn 6 (.read 1 1 (some 7))) ⟨by decide +kernel,nofun⟩ trivial
  have h11 : Run.Reachable (joinSystem 0) (fun _ _ => True) _ := .call h10 (goOn 5 (.granted 1 1 true)) ⟨by decide +kernel,nofun⟩ trivial
  have h12 : Run.Reachable (joinSystem 0) (fun _ _ => True) _ := .call h11 (goOn 5 (.read 1 1 (some 7))) ⟨by decide +kernel,nofun⟩ trivial
  exact absurd ((hall 0 _ h12).once 1) (by decide +kernel)

end LiteOsKernel.Task
