import LiteOsKernel.Posix.Cond
import LiteOsKernel.Lib.Run
import LiteOsKernel.Lib.Threads

/-! Condition variables along any run: the count covers the tasks that wait, so that no signal or broadcast passes them over, and
a wait that ends without being woken takes its share of the count back. -/
namespace LiteOsKernel.Posix.Cond

open Ipc

/-- Where a task is in one of the calls. The value is that which the wait has read at its start; timed tells
pthread_cond_timedwait from pthread_cond_wait. -/
inductive CondPoint where
  | read (absTime : Option TimeSpec) (oldValue : BitVec 32)
  | counted (absTime : Option TimeSpec) (oldValue : BitVec 32)
  | released (timed : Bool) (oldValue : BitVec 32) (ticks : Nat)
  | waiting (timed : Bool)
  | returned (timed : Bool) (val : Event.EventRet)
  | locked (timed : Bool) (val : Event.EventRet)
  | signalTaken
  | signalModified
  | broadcastTaken
  | broadcastModified
  deriving DecidableEq

/-- A task at this point has taken its share of the count and wakes somebody for it. -/
def CondPoint.wakes : CondPoint → Bool
  | signalTaken | signalModified | broadcastTaken | broadcastModified => true
  | read .. | counted .. | released .. | waiting .. | returned .. | locked .. => false

structure CondThread where
  task : Nat
  point : CondPoint
  deriving DecidableEq

/-- A wait that returned: what it returned, whether it had raised the count and ended by its time, and the count before and
after its end. -/
structure WaitReturn where
  ret : Int
  added : Bool
  expired : Bool
  before : Int
  after : Int
  deriving DecidableEq

/-- The variable, the owner of the mutex that its users share, the tasks inside a call, the waits that returned, the tasks whose
wait has ended by its time, and how many waits have ended by their time or an error with a share of the count that no signal or
broadcast has taken from them since. -/
structure CondHist where
  st : PthreadCond
  mutex : Option Nat
  threads : List CondThread
  waits : List WaitReturn
  expired : List Nat
  late : Nat

def startCond : CondHist := ⟨pthreadCondInit,none,[],[],[],0⟩

inductive CondCall where
  | lock (task : Nat)
  | unlock (task : Nat)
  | wait (ptr : Bool) (task : Nat) (absTime : Option TimeSpec)
  | signal (ptr : Bool) (task : Nat)
  | broadcast (ptr : Bool) (task : Nat)
  | go (t : CondThread) (ctx : PendContext)
  | expire (w : Event.EventWaiter) (ops : SchedOps)
  | resume (t : CondThread) (r : Event.Resumed)

namespace CondHist

/-- A task enters a call, goes on in it, or leaves it; st is the variable then. -/
def enter (x : CondHist) (st : PthreadCond) (task : Nat) (point : CondPoint) : CondHist :=
  { x with st := st, threads := ⟨task,point⟩ :: x.threads }

def move (x : CondHist) (st : PthreadCond) (t : CondThread) (point : CondPoint) : CondHist :=
  { x with st := st, threads := Threads.move x.threads t ⟨t.task,point⟩ }

def leave (x : CondHist) (st : PthreadCond) (t : CondThread) : CondHist := { x with st := st, threads := x.threads.erase t }

/-- The log of a wait that ends with ret. -/
def finish (x : CondHist) (st : PthreadCond) (t : CondThread) (ret : Int) : CondHist :=
  { x.leave st t with
    waits := x.waits ++ [⟨ret,true,decide (t.task ∈ x.expired),x.st.count,st.count⟩]
    expired := x.expired.filter (· ≠ t.task) }

def owned (x : CondHist) (mutex : Option Nat) : CondHist := { x with mutex := mutex }

/-- A wait that has raised the count and would block at its event. -/
def holdsValue (value : BitVec 32) (t : CondThread) : Bool :=
  match t.point with
  | .counted _ oldValue => oldValue = value
  | .released _ oldValue _ => oldValue = value
  | _ => false

/-- What a thread adds to the waits that would block. -/
def share (value : BitVec 32) (t : CondThread) : Nat := if holdsValue value t then 1 else 0

/-- A wait that has released the mutex and would block at its event. -/
def aboutToBlock (value : BitVec 32) (t : CondThread) : Bool :=
  match t.point with
  | .released _ oldValue _ => oldValue = value
  | _ => false

def tasksAt (x : CondHist) (point : CondPoint) : Nat := x.threads.countP fun t => t.point = point

def signalling (x : CondHist) : Nat := x.tasksAt .signalTaken + x.tasksAt .signalModified

def broadcasting (x : CondHist) : Nat := x.tasksAt .broadcastTaken + x.tasksAt .broadcastModified

/-- The tasks that have released the mutex inside a wait and were neither woken nor timed out. -/
def needing (x : CondHist) : Nat := x.st.event.stEventList.length + x.threads.countP (aboutToBlock x.st.value)

/-- The waits that raised the count and are not woken yet. -/
def committed (x : CondHist) : Nat := x.threads.countP (holdsValue x.st.value)

/-- A wait ends by its time or an error. A broadcast on its way has taken its share. -/
def lapse (x : CondHist) : CondHist := { x with late := if x.broadcasting = 0 then x.late + 1 else x.late }

/-- Such a wait comes to its end, or a signal has found nobody else. -/
def settle (x : CondHist) : CondHist := { x with late := x.late - 1 }

end CondHist

/-- What ProcessReturnVal takes for an error. -/
def Fails (val : Event.EventRet) : Prop := val ≠ .ok 0 ∧ val ≠ .ok BROADCAST_EVENT

instance (val : Event.EventRet) : Decidable (Fails val) := inferInstanceAs (Decidable (_ ∧ _))

namespace CondCall

section
variable (TICK_PER_SECOND : Nat)

/-- The next piece of a call. -/
def goRun (x : CondHist) (t : CondThread) (ctx : PendContext) : CondHist :=
  match t.point with
  | .read absTime oldValue => x.move (pthreadCountAdd x.st) t (.counted absTime oldValue)
  | .counted absTime oldValue =>
    match waitTicks TICK_PER_SECOND absTime with
    | .error ret => x.finish x.st t ret
    | .ok ticks => (x.move x.st t (.released absTime.isSome oldValue ticks)).owned none
  | .released timed oldValue ticks =>
    match pthreadCondWaitSub x.st ctx t.task oldValue ticks with
    | (st,some val) =>
      (if Fails val ∧ CondHist.holdsValue x.st.value t = true then x.lapse else x).move st t (.returned timed val)
    | (st,none) => x.move st t (.waiting timed)
  | .waiting _ => x
  | .returned timed val => (x.move x.st t (.locked timed val)).owned (some t.task)
  | .locked timed val =>
    let (st,ret) := if timed then processReturnVal x.st val else waitReturnVal x.st val
    (if Fails val ∨ t.task ∈ x.expired then x.settle else x).finish st t ret
  | .signalTaken => x.move (pthreadCondValueModify x.st) t .signalModified
  | .signalModified => (if x.st.event.stEventList = [] then x.settle else x).leave (signalWrite x.st) t
  | .broadcastTaken => x.move (pthreadCondValueModify x.st) t .broadcastModified
  | .broadcastModified => x.leave (broadcastWrite x.st) t

def run (x : CondHist) : CondCall → CondHist
  | lock task => x.owned (some task)
  | unlock _ => x.owned none
  | wait ptr task absTime =>
    if ptr then x.enter x.st task (.read absTime x.st.value)
    else { x with waits := x.waits ++ [⟨EINVAL,false,false,x.st.count,x.st.count⟩] }
  | signal ptr task =>
    if ptr then match signalTake x.st with
      | (st,true) => x.enter st task .signalTaken
      | (st,false) => { x with st := st }
    else x
  | broadcast ptr task =>
    if ptr then match broadcastTake x.st with
      | (st,true) => { x with late := 0 }.enter st task .broadcastTaken
      | (st,false) => { x with st := st }
    else x
  | go t ctx => goRun TICK_PER_SECOND x t ctx
  | expire w ops =>
    { x.lapse with st := { x.st with event := Event.eventTimeout x.st.event w ops }, expired := w.task :: x.expired }
  | resume t r =>
    let (event,val) := Event.eventReturn x.st.event r
    match t.point with
    | .waiting timed => x.move { x.st with event := event } t (.returned timed val)
    | _ => x

/-- A task inside a call goes on with that one. A wait is called with the mutex, a task that waits goes on when it was resumed,
and one that comes back needs the mutex. -/
def Pre (x : CondHist) : CondCall → Prop
  | lock task => x.mutex = none ∧ ∀ t ∈ x.threads, t.task ≠ task
  | unlock task => x.mutex = some task ∧ ∀ t ∈ x.threads, t.task ≠ task
  | wait _ task _ => x.mutex = some task ∧ ∀ t ∈ x.threads, t.task ≠ task
  | signal _ task => ∀ t ∈ x.threads, t.task ≠ task
  | broadcast _ task => ∀ t ∈ x.threads, t.task ≠ task
  | go t _ => t ∈ x.threads ∧ (∀ timed, t.point ≠ .waiting timed) ∧ ((∃ timed val, t.point = .returned timed val) → x.mutex = none)
  | expire w _ => w ∈ x.st.event.stEventList ∧ w.ticks ≠ LOS_WAIT_FOREVER
  | resume t r => t ∈ x.threads ∧ r ∈ x.st.event.resumed ∧ r.task = t.task ∧ ∃ timed, t.point = .waiting timed

end

end CondCall

/-- The condition: the count does not overflow; a wait does not return for its time while the count has its share; a wait that
timed out keeps OS_TASK_STATUS_TIMEOUT, or the count is 0 at its end; a wait that timed out or failed takes back its share only
where no broadcast has taken it since, and the signals that find nobody at the event leave one to such a wait; and the value
does not come back to one that a wait has read before other values. -/
def CondCall.Ok (TICK_PER_SECOND : Nat) (x : CondHist) : CondCall → Prop
  | go t _ => match t.point with
    | .read .. => x.st.count < 2^31 - 1
    | .counted absTime _ => (∃ ticks, waitTicks TICK_PER_SECOND absTime = .ok ticks) ∨ x.st.count = 0
    | .locked _ val =>
      (t.task ∈ x.expired → Fails val ∨ x.st.count = 0) ∧
        (Fails val → 0 < x.st.count → 0 < x.late ∧ x.tasksAt .signalModified < x.st.event.stEventList.length + x.late)
    | .signalTaken | .broadcastTaken => ∀ u ∈ x.threads,
        CondHist.holdsValue (pthreadCondValueModify x.st).value u = true → CondHist.holdsValue x.st.value u = true
    | _ => True
  | lock .. | unlock .. | wait .. | signal .. | broadcast .. | expire .. | resume .. => True

@[reducible] def condSystem (TICK_PER_SECOND : Nat) : Run.System CondHist CondCall where
  init x := x = startCond
  pre x c := c.Pre x
  run x c := c.run TICK_PER_SECOND x

/-- A wait that was not woken leaves the count as it would be without it, unless its share was taken by a signal or a broadcast. -/
def WaitReturn.Undone (r : WaitReturn) : Prop :=
  if r.added then r.before = 0 ∧ r.after = 0 ∨ 0 < r.before ∧ r.after = r.before - 1 else r.after = r.before

structure CondLaw (x : CondHist) : Prop where
  count : x.broadcasting = 0 → x.needing ≤ x.st.count + x.signalling
  signal : x.broadcasting = 0 → x.signalling < x.needing → (signalTake x.st).2 = true
  broadcast : x.broadcasting = 0 → x.signalling < x.needing → (broadcastTake x.st).2 = true
  modify : ∀ t ∈ x.threads, CondHist.aboutToBlock x.st.value t = true → CondHist.aboutToBlock (pthreadCondValueModify x.st).value t = false
  freed : ∀ t ∈ x.threads, ∀ timed oldValue ticks, t.point = .released timed oldValue ticks →
    CondHist.aboutToBlock x.st.value t = false → ∀ ctx, (pthreadCondWaitSub x.st ctx t.task oldValue ticks).2 ≠ none
  signalWrite : ∀ w ws, x.st.event.stEventList = w :: ws → (signalWrite x.st).event.stEventList = ws ∧
    (signalWrite x.st).event.resumed = x.st.event.resumed ++ [⟨w,false⟩]
  broadcastWrite : (broadcastWrite x.st).event.stEventList = [] ∧
    (broadcastWrite x.st).event.resumed = x.st.event.resumed ++ x.st.event.stEventList.map fun w => ⟨w,false⟩
  returned : ∀ r ∈ x.waits, r.ret ≠ ENOERR ∨ r.expired = true → r.Undone

/-- Together with the signals on their way the count is enough for those who wait and for the waits that still take their share
back; the signals that have changed the value are going to wake tasks at the event, and after those to find such waits. -/
structure CondHist.Covered (x : CondHist) (count : Int) (late : Nat) : Prop where
  committed : x.tasksAt .broadcastTaken = 0 → x.committed ≤ count + x.tasksAt .signalTaken
  all : x.broadcasting = 0 → x.committed + (x.st.event.stEventList.length + late - x.tasksAt .signalModified : Nat) ≤
    count + x.tasksAt .signalTaken

structure CondInv (x : CondHist) : Prop where
  nonneg : 0 ≤ x.st.count
  covered : x.Covered x.st.count x.late
  taken : x.broadcasting ≠ 0 → x.late = 0
  waiters : ∀ w ∈ x.st.event.stEventList, w.eventMask = 0x0f ∧ w.eventMode = Event.LOS_WAITMODE_OR ||| Event.LOS_WAITMODE_CLR
  returned : ∀ r ∈ x.waits, r.ret ≠ ENOERR ∨ r.expired = true → r.Undone

section
variable {TICK_PER_SECOND : Nat} {x : CondHist} {cond : PthreadCond} {t : CondThread} {p q : CondPoint} {w : Event.EventWaiter}
  {ws : List Event.EventWaiter}

/-- The value changes with every round: its low bits are the flags, and the others count down. -/
private theorem modify_ne (cond : PthreadCond) : (pthreadCondValueModify cond).value ≠ cond.value := by
  have hlow : cond.value &&& COND_FLAGS_MASK = (cond.value - COND_COUNTER_STEP) &&& COND_FLAGS_MASK := by
    have hand : ∀ v : BitVec 32, (v &&& COND_FLAGS_MASK).toNat = v.toNat % 4 := fun v => Nat.and_two_pow_sub_one_eq_mod v.toNat 2
    have hstep : COND_COUNTER_STEP.toNat = 4 := rfl
    apply BitVec.eq_of_toNat_eq
    rw [hand, hand, BitVec.toNat_sub, hstep]
    omega
  have hval : (pthreadCondValueModify cond).value = cond.value - COND_COUNTER_STEP := by
    rw [pthreadCondValueModify, hlow, COND_COUNTER_MASK, ← BitVec.and_or_distrib_left]
    have : ~~~COND_FLAGS_MASK ||| COND_FLAGS_MASK = BitVec.allOnes 32 := by decide
    rw [this, BitVec.and_allOnes]
  rw [hval, COND_COUNTER_STEP]
  bv_omega

private theorem tasksAt_enter (st : PthreadCond) (task : Nat) (p q : CondPoint) :
    (x.enter st task p).tasksAt q = x.tasksAt q + if p = q then 1 else 0 := by
  simp [CondHist.tasksAt, CondHist.enter, List.countP_cons]

private theorem tasksAt_move (h : t ∈ x.threads) (st : PthreadCond) (p q : CondPoint) :
    (x.move st t p).tasksAt q + (if t.point = q then 1 else 0) = x.tasksAt q + if p = q then 1 else 0 := by
  have := Threads.countP_move h ⟨t.task,p⟩ fun t => t.point = q
  simpa [CondHist.tasksAt, CondHist.move] using this

private theorem tasksAt_leave (h : t ∈ x.threads) (st : PthreadCond) (q : CondPoint) :
    (x.leave st t).tasksAt q + (if t.point = q then 1 else 0) = x.tasksAt q := by
  have := Threads.countP_erase_add h fun t => t.point = q
  simpa [CondHist.tasksAt, CondHist.leave] using this

/-- A piece of a wait leaves the tasks that wake others where they are. -/
private theorem tasksAt_move_wait (h : t ∈ x.threads) (ht : t.point.wakes = false) (hp : p.wakes = false) (hq : q.wakes = true)
    (st : PthreadCond) : (x.move st t p).tasksAt q = x.tasksAt q := by
  have := tasksAt_move h st p q
  rwa [if_neg (by rintro rfl; rw [ht] at hq; exact absurd hq (by decide)),
    if_neg (by rintro rfl; rw [hp] at hq; exact absurd hq (by decide))] at this

private theorem tasksAt_leave_wait (h : t ∈ x.threads) (ht : t.point.wakes = false) (hq : q.wakes = true) (st : PthreadCond) :
    (x.leave st t).tasksAt q = x.tasksAt q := by
  have := tasksAt_leave h st q
  rwa [if_neg (by rintro rfl; rw [ht] at hq; exact absurd hq (by decide))] at this

private theorem committed_enter {st : PthreadCond} (hv : st.value = x.st.value) (task : Nat)
    (hp : CondHist.holdsValue x.st.value ⟨task,p⟩ = false) : (x.enter st task p).committed = x.committed := by
  rw [CondHist.committed, CondHist.committed, CondHist.enter]
  simp only [hv]
  exact List.countP_cons_of_neg (by rw [hp]; exact Bool.false_ne_true)

private theorem committed_move (h : t ∈ x.threads) (st : PthreadCond) (p : CondPoint) :
    (x.move st t p).committed + CondHist.share st.value t =
      x.threads.countP (CondHist.holdsValue st.value) + CondHist.share st.value ⟨t.task,p⟩ :=
  Threads.countP_move h ⟨t.task,p⟩ _

private theorem committed_leave {st : PthreadCond} (hv : st.value = x.st.value) : (x.leave st t).committed ≤ x.committed := by
  rw [CondHist.committed, CondHist.committed, CondHist.leave]
  simp only [hv]
  exact List.Sublist.countP_le List.erase_sublist

private theorem holdsValue_unique {v v' : BitVec 32} (h : CondHist.holdsValue v t = true) (h' : CondHist.holdsValue v' t = true) : v = v' := by
  rcases t with ⟨task,point⟩
  cases point with
  | counted absTime oldValue => exact (of_decide_eq_true h).symm.trans (of_decide_eq_true h')
  | released timed oldValue ticks => exact (of_decide_eq_true h).symm.trans (of_decide_eq_true h')
  | _ => exact absurd h Bool.false_ne_true

private theorem holdsValue_of_aboutToBlock {v : BitVec 32} (h : CondHist.aboutToBlock v t = true) : CondHist.holdsValue v t = true := by
  rcases t with ⟨task,point⟩
  cases point with
  | released timed oldValue ticks => exact h
  | _ => exact absurd h Bool.false_ne_true

/-- Nobody who waits holds the value after the round. -/
private theorem committed_modify (hok : ∀ u ∈ x.threads,
    CondHist.holdsValue (pthreadCondValueModify x.st).value u = true → CondHist.holdsValue x.st.value u = true) :
    x.threads.countP (CondHist.holdsValue (pthreadCondValueModify x.st).value) = 0 :=
  List.countP_eq_zero.mpr fun u hu hv => modify_ne x.st (holdsValue_unique hv (hok u hu hv))

private theorem readImp_cases (s : Event.EventState) (ctx : PendContext) (task : Nat) (eventMask mode : BitVec 32) (timeout : Nat) :
    (∃ ret, (Event.osEventReadImp s ctx task eventMask mode timeout false).2 = some ret ∧
      (Event.osEventReadImp s ctx task eventMask mode timeout false).1.stEventList = s.stEventList) ∨
    ((Event.osEventReadImp s ctx task eventMask mode timeout false).2 = none ∧
      (Event.osEventReadImp s ctx task eventMask mode timeout false).1.stEventList =
        s.stEventList ++ [⟨⟨task,timeout⟩,eventMask,mode⟩]) := by
  rw [Event.osEventReadImp]
  simp only [if_true]
  split_ifs
  · exact .inl ⟨_,rfl,rfl⟩
  · exact .inl ⟨_,rfl,rfl⟩
  · exact .inl ⟨_,rfl,rfl⟩
  · exact .inr ⟨rfl,rfl⟩

/-- The read of the event returns at once, or the task waits because the value is still that of the start. -/
private theorem waitSub_cases (cond : PthreadCond) (ctx : PendContext) (task : Nat) (value : BitVec 32) (ticks : Nat) :
    ∃ event ret, pthreadCondWaitSub cond ctx task value ticks = ({ cond with event := event },ret) ∧
      (event.stEventList = cond.event.stEventList ∧ ret ≠ none ∨
        value = cond.value ∧ ret = none ∧ event.stEventList = cond.event.stEventList ++
          [⟨⟨task,ticks⟩,0x0f,Event.LOS_WAITMODE_OR ||| Event.LOS_WAITMODE_CLR⟩]) := by
  rw [pthreadCondWaitSub]
  rcases hread : Event.osEventReadWithCond cond.event cond.value value (~~~1) ctx task 0x0f
    (Event.LOS_WAITMODE_OR ||| Event.LOS_WAITMODE_CLR) ticks with ⟨event,ret⟩
  refine ⟨event,ret,rfl,?_⟩
  rw [Event.osEventReadWithCond] at hread
  split at hread
  · obtain ⟨rfl,rfl⟩ := Prod.mk.inj hread
    exact .inl ⟨rfl,nofun⟩
  · split_ifs at hread with hv
    · obtain ⟨rfl,rfl⟩ := Prod.mk.inj hread
      exact .inl ⟨rfl,nofun⟩
    · have hcases := readImp_cases cond.event ctx task 0x0f (Event.LOS_WAITMODE_OR ||| Event.LOS_WAITMODE_CLR) ticks
      rw [hread] at hcases
      rcases hcases with ⟨ret',hr,hl⟩ | ⟨hr,hl⟩
      · exact .inl ⟨hl,fun hn => nomatch hr.symm.trans hn⟩
      · exact .inr ⟨(not_not.mp hv).symm,hr,hl⟩

/-- Every waiter of the event is one that a write wakes. -/
private theorem resume_waiter (hw : w.eventMask = 0x0f ∧ w.eventMode = Event.LOS_WAITMODE_OR ||| Event.LOS_WAITMODE_CLR) (eventID : BitVec 32) :
    Event.osEventResume w eventID 1 = true := by
  rw [Event.osEventResume, hw.1, hw.2]
  rfl

private theorem signalWrite_cons (hws : x.st.event.stEventList = w :: ws)
    (hw : w.eventMask = 0x0f ∧ w.eventMode = Event.LOS_WAITMODE_OR ||| Event.LOS_WAITMODE_CLR) :
    (signalWrite x.st).event.stEventList = ws ∧ (signalWrite x.st).event.resumed = x.st.event.resumed ++ [⟨w,false⟩] := by
  have he : (signalWrite x.st).event = Event.osEventWriteUnsafe x.st.event 1 true := rfl
  rw [he, Event.osEventWriteUnsafe, hws, Event.writeLoop]
  simp only [if_true]
  rw [resume_waiter hw]
  exact ⟨rfl,rfl⟩

private theorem writeLoop_all {eventID : BitVec 32}
    (hall : ∀ w ∈ ws, w.eventMask = 0x0f ∧ w.eventMode = Event.LOS_WAITMODE_OR ||| Event.LOS_WAITMODE_CLR) :
    Event.writeLoop eventID 1 false ws = ([],ws) := by
  induction ws with
  | nil => rfl
  | cons w ws ih =>
    rw [Event.writeLoop, if_neg Bool.false_ne_true, ih fun u hu => hall u (List.mem_cons_of_mem w hu)]
    simp only
    rw [resume_waiter (hall w List.mem_cons_self)]
    rfl

private theorem broadcastWrite_all
    (hall : ∀ w ∈ cond.event.stEventList, w.eventMask = 0x0f ∧ w.eventMode = Event.LOS_WAITMODE_OR ||| Event.LOS_WAITMODE_CLR) :
    (broadcastWrite cond).event.stEventList = [] ∧
      (broadcastWrite cond).event.resumed = cond.event.resumed ++ cond.event.stEventList.map fun w => ⟨w,false⟩ := by
  have he : (broadcastWrite cond).event = Event.osEventWriteUnsafe cond.event 1 false := rfl
  rw [he, Event.osEventWriteUnsafe, writeLoop_all hall]
  exact ⟨rfl,rfl⟩

private theorem signalWrite_nil (hws : x.st.event.stEventList = []) : (signalWrite x.st).event.stEventList = [] := by
  have he : (signalWrite x.st).event = Event.osEventWriteUnsafe x.st.event 1 true := rfl
  rw [he, Event.osEventWriteUnsafe, hws]
  rfl

private theorem broadcasting_move_wait (h : t ∈ x.threads) (ht : t.point.wakes = false) (hp : p.wakes = false) (st : PthreadCond) :
    (x.move st t p).broadcasting = x.broadcasting := by
  rw [CondHist.broadcasting, CondHist.broadcasting, tasksAt_move_wait h ht hp rfl, tasksAt_move_wait h ht hp rfl]

private theorem broadcasting_leave_wait (h : t ∈ x.threads) (ht : t.point.wakes = false) (st : PthreadCond) :
    (x.leave st t).broadcasting = x.broadcasting := by
  rw [CondHist.broadcasting, CondHist.broadcasting, tasksAt_leave_wait h ht rfl, tasksAt_leave_wait h ht rfl]

/-- The count covers those who wait after a piece of a wait, when it covers what the piece changes. -/
private theorem CondHist.Covered.move_wait {n n' : Int} {l l' : Nat} (hc : x.Covered n l) (hm : t ∈ x.threads) (ht : t.point.wakes = false)
    (hp : p.wakes = false) {st : PthreadCond} (hv : st.value = x.st.value)
    (hone : CondHist.share x.st.value ⟨t.task,p⟩ + n ≤ CondHist.share x.st.value t + n')
    (hall : x.broadcasting = 0 → ∀ m : Nat,
      (CondHist.share x.st.value ⟨t.task,p⟩ : Int) + (st.event.stEventList.length + l' - m : Nat) + n ≤
        CondHist.share x.st.value t + (x.st.event.stEventList.length + l - m : Nat) + n') : (x.move st t p).Covered n' l' := by
  have hw : ∀ q : CondPoint, q.wakes = true → (x.move st t p).tasksAt q = x.tasksAt q :=
    fun q hq => tasksAt_move_wait hm ht hp hq st
  have hmove := committed_move hm st p
  rw [hv, ← CondHist.committed] at hmove
  obtain ⟨h1,h2⟩ := hc
  constructor
  · intro hb
    rw [hw _ rfl] at hb ⊢
    have := h1 hb
    omega
  · intro hb
    rw [broadcasting_move_wait hm ht hp] at hb
    have := h2 hb
    have := hall hb (x.tasksAt .signalModified)
    rw [hw _ rfl, hw _ rfl]
    change _ + ((st.event.stEventList.length + l' - _ : Nat) : Int) ≤ _
    omega

private theorem CondHist.Covered.leave_wait {n : Int} {l l' : Nat} (hc : x.Covered n l) (hl : l' ≤ l) (hm : t ∈ x.threads)
    (ht : t.point.wakes = false) {st : PthreadCond} (hv : st.value = x.st.value) (he : st.event = x.st.event) :
    (x.leave st t).Covered n l' := by
  have hw : ∀ q : CondPoint, q.wakes = true → (x.leave st t).tasksAt q = x.tasksAt q :=
    fun q hq => tasksAt_leave_wait hm ht hq st
  have hle := committed_leave (t := t) hv
  obtain ⟨h1,h2⟩ := hc
  constructor
  · intro hb
    rw [hw _ rfl] at hb ⊢
    have := h1 hb
    omega
  · intro hb
    rw [broadcasting_leave_wait hm ht] at hb
    have := h2 hb
    rw [hw _ rfl, hw _ rfl]
    change _ + ((st.event.stEventList.length + l' - _ : Nat) : Int) ≤ _
    rw [he]
    omega

private theorem countSub_cases (cond : PthreadCond) : (pthreadCountSub cond).event = cond.event ∧ (pthreadCountSub cond).value = cond.value ∧
    (cond.count ≤ 0 ∧ (pthreadCountSub cond).count = cond.count ∨ 0 < cond.count ∧ (pthreadCountSub cond).count = cond.count - 1) := by
  rw [pthreadCountSub]
  split_ifs with h
  · exact ⟨rfl,rfl,.inr ⟨h,rfl⟩⟩
  · exact ⟨rfl,rfl,.inl ⟨not_lt.mp h,rfl⟩⟩

/-- A wait that was woken returns 0 and leaves the count, any other takes its share back. -/
private theorem returnVal_cases (cond : PthreadCond) (timed : Bool) (val : Event.EventRet) :
    (¬ Fails val ∧ (if timed then processReturnVal cond val else waitReturnVal cond val) = (cond,ENOERR)) ∨
    (Fails val ∧ ∃ ret, (if timed then processReturnVal cond val else waitReturnVal cond val) = (pthreadCountSub cond,ret)) := by
  cases val with
  | ok flags =>
    by_cases h : flags = 0 ∨ flags = BROADCAST_EVENT
    · left
      refine ⟨fun hf => ?_,?_⟩
      · rcases h with rfl | rfl
        · exact hf.1 rfl
        · exact hf.2 rfl
      · rw [processReturnVal, waitReturnVal, if_pos h, ite_self]
    · right
      refine ⟨⟨fun he => h (.inl (Except.ok.inj he)),fun he => h (.inr (Except.ok.inj he))⟩,EINVAL,?_⟩
      rw [processReturnVal, waitReturnVal, if_neg h, ite_self]
  | error err =>
    right
    refine ⟨⟨nofun,nofun⟩,?_⟩
    cases timed with
    | true => cases err <;> exact ⟨_,rfl⟩
    | false => exact ⟨_,rfl⟩

theorem CondInv.signal (hx : CondInv x) (task : Nat) (hpos : 0 < x.st.count) :
    CondInv (x.enter { x.st with count := x.st.count - 1 } task .signalTaken) := by
  have hnonneg : 0 ≤ x.st.count - 1 := by omega
  have hsame := committed_enter (show ({ x.st with count := x.st.count - 1 } : PthreadCond).value = x.st.value from rfl) task
    (show CondHist.holdsValue x.st.value ⟨task,.signalTaken⟩ = false from rfl)
  obtain ⟨h1,h2⟩ := hx.covered
  refine ⟨hnonneg,⟨fun hb => ?_,fun hb => ?_⟩,fun hb => ?_,hx.waiters,hx.returned⟩
  · rw [tasksAt_enter, if_neg nofun] at hb
    have := h1 hb
    rw [hsame, tasksAt_enter, if_pos rfl]
    change _ ≤ x.st.count - 1 + _
    omega
  · rw [CondHist.broadcasting, tasksAt_enter, tasksAt_enter, if_neg nofun, if_neg nofun] at hb
    have := h2 hb
    rw [hsame, tasksAt_enter, tasksAt_enter, if_pos rfl, if_neg nofun]
    change _ + ((x.st.event.stEventList.length + x.late - _ : Nat) : Int) ≤ x.st.count - 1 + _
    omega
  · rw [CondHist.broadcasting, tasksAt_enter, tasksAt_enter, if_neg nofun, if_neg nofun] at hb
    exact hx.taken hb

theorem CondInv.broadcast (hx : CondInv x) (task : Nat) :
    CondInv ({ x with late := 0 }.enter { x.st with count := 0 } task .broadcastTaken) := by
  refine ⟨le_rfl,⟨fun hb => ?_,fun hb => ?_⟩,fun _ => rfl,hx.waiters,hx.returned⟩
  · rw [tasksAt_enter, if_pos rfl] at hb
    exact absurd hb (Nat.succ_ne_zero _)
  · rw [CondHist.broadcasting, tasksAt_enter, if_pos rfl] at hb
    omega

/-- The round of a signal or a broadcast frees all that do not wait at the event yet. -/
theorem CondInv.modify (hx : CondInv x) (hm : t ∈ x.threads) (hok : ∀ u ∈ x.threads,
      CondHist.holdsValue (pthreadCondValueModify x.st).value u = true → CondHist.holdsValue x.st.value u = true)
    (hpq : t.point = .signalTaken ∧ q = .signalModified ∨ t.point = .broadcastTaken ∧ q = .broadcastModified) :
    CondInv (x.move (pthreadCondValueModify x.st) t q) := by
  have hzero : (x.move (pthreadCondValueModify x.st) t q).committed = 0 := by
    have hmove := committed_move hm (pthreadCondValueModify x.st) q
    have hq : CondHist.share (pthreadCondValueModify x.st).value ⟨t.task,q⟩ = 0 := by
      rcases hpq with ⟨-,rfl⟩ | ⟨-,rfl⟩ <;> rfl
    rw [committed_modify hok, hq] at hmove
    exact Nat.eq_zero_of_add_eq_zero_right hmove
  have hat := tasksAt_move hm (pthreadCondValueModify x.st) q
  have ha := hat .signalTaken
  have hk := hat .signalModified
  have hb1 := hat .broadcastTaken
  have hb2 := hat .broadcastModified
  have hnonneg := hx.nonneg
  obtain ⟨h1,h2⟩ := hx.covered
  refine ⟨hx.nonneg,⟨fun hb => ?_,fun hb => ?_⟩,fun hb => hx.taken ?_,hx.waiters,hx.returned⟩
  · change _ ≤ x.st.count + _
    rw [hzero]
    omega
  · change _ + ((x.st.event.stEventList.length + x.late - _ : Nat) : Int) ≤ x.st.count + _
    rw [CondHist.broadcasting] at hb
    rw [hzero]
    rcases hpq with ⟨hp,rfl⟩ | ⟨hp,rfl⟩
    · rw [hp] at ha hk hb1 hb2
      simp only [if_true, reduceCtorEq, if_false] at ha hk hb1 hb2
      have := h2 (show x.tasksAt .broadcastTaken + x.tasksAt .broadcastModified = 0 by omega)
      omega
    · rw [hp] at hb2
      simp only [if_true, reduceCtorEq, if_false] at hb2
      omega
  · rw [CondHist.broadcasting] at hb ⊢
    rcases hpq with ⟨hp,rfl⟩ | ⟨hp,rfl⟩ <;> rw [hp] at hb1 hb2 <;> simp only [if_true, reduceCtorEq, if_false] at hb1 hb2 <;> omega

private theorem signalWrite_list (hx : CondInv x) : (signalWrite x.st).event.stEventList = x.st.event.stEventList.tail := by
  cases hws : x.st.event.stEventList with
  | nil => exact signalWrite_nil hws
  | cons w ws => exact (signalWrite_cons hws (hx.waiters w (hws ▸ List.mem_cons_self))).1

theorem CondInv.signalWrite (hx : CondInv x) (hm : t ∈ x.threads) (hp : t.point = .signalModified) :
    CondInv ((if x.st.event.stEventList = [] then x.settle else x).leave (signalWrite x.st) t) := by
  have hlate : (if x.st.event.stEventList = [] then x.settle else x) =
      { x with late := if x.st.event.stEventList = [] then x.late - 1 else x.late } := by split_ifs <;> rfl
  have hsettled : (x.st.event.stEventList.tail.length + (if x.st.event.stEventList = [] then x.late - 1 else x.late)) =
      x.st.event.stEventList.length + x.late - 1 := by
    rcases x.st.event.stEventList with _ | ⟨w,ws⟩
    · simp
    · simp only [List.tail_cons, List.length_cons, reduceCtorEq, if_false]
      omega
  have hat := tasksAt_leave hm (Cond.signalWrite x.st)
  have ha := hat .signalTaken
  have hk := hat .signalModified
  have hb1 := hat .broadcastTaken
  have hb2 := hat .broadcastModified
  rw [hp] at ha hk hb1 hb2
  simp only [if_true, reduceCtorEq, if_false, Nat.add_zero] at ha hk hb1 hb2
  have hle := committed_leave (t := t) (show (Cond.signalWrite x.st).value = x.st.value from rfl)
  obtain ⟨h1,h2⟩ := hx.covered
  rw [hlate]
  refine ⟨hx.nonneg,⟨fun hb => ?_,fun hb => ?_⟩,fun hb => ?_,fun w hw => ?_,hx.returned⟩
  · have := h1 (hb1 ▸ hb)
    change (x.leave (Cond.signalWrite x.st) t).committed ≤ x.st.count + (x.leave (Cond.signalWrite x.st) t).tasksAt .signalTaken
    omega
  · change (x.leave (Cond.signalWrite x.st) t).tasksAt .broadcastTaken + (x.leave (Cond.signalWrite x.st) t).tasksAt .broadcastModified = 0 at hb
    have hall := h2 (show x.tasksAt .broadcastTaken + x.tasksAt .broadcastModified = 0 by omega)
    change ((x.leave (Cond.signalWrite x.st) t).committed : Int) + ((Cond.signalWrite x.st).event.stEventList.length +
      (if x.st.event.stEventList = [] then x.late - 1 else x.late) -
        (x.leave (Cond.signalWrite x.st) t).tasksAt .signalModified : Nat) ≤ x.st.count + (x.leave (Cond.signalWrite x.st) t).tasksAt .signalTaken
    rw [signalWrite_list hx, hsettled]
    omega
  · have hzero := hx.taken fun h => hb (by
      change (x.leave (Cond.signalWrite x.st) t).tasksAt .broadcastTaken + (x.leave (Cond.signalWrite x.st) t).tasksAt .broadcastModified = 0
      rw [CondHist.broadcasting] at h
      omega)
    simp only [CondHist.leave, hzero, Nat.zero_sub, ite_self]
  · change w ∈ (Cond.signalWrite x.st).event.stEventList at hw
    rw [signalWrite_list hx] at hw
    exact hx.waiters w (List.mem_of_mem_tail hw)

theorem CondInv.broadcastWrite (hx : CondInv x) (hm : t ∈ x.threads) (hp : t.point = .broadcastModified) :
    CondInv (x.leave (broadcastWrite x.st) t) := by
  have hat := tasksAt_leave hm (Cond.broadcastWrite x.st)
  have ha := hat .signalTaken
  have hb1 := hat .broadcastTaken
  have hb2 := hat .broadcastModified
  rw [hp] at ha hb1 hb2
  simp only [if_true, reduceCtorEq, if_false, Nat.add_zero] at ha hb1 hb2
  have hlate : x.late = 0 := hx.taken (by rw [CondHist.broadcasting]; omega)
  have hle := committed_leave (t := t) (show (Cond.broadcastWrite x.st).value = x.st.value from rfl)
  have hnil := (broadcastWrite_all hx.waiters).1
  have hone := hx.covered.committed
  refine ⟨hx.nonneg,⟨fun hb => ?_,fun hb => ?_⟩,fun _ => hlate,fun w hw => ?_,hx.returned⟩
  · have := hone (hb1 ▸ hb)
    change _ ≤ x.st.count + _
    omega
  · rw [CondHist.broadcasting] at hb
    have := hone (by omega)
    change _ + (((Cond.broadcastWrite x.st).event.stEventList.length + x.late - _ : Nat) : Int) ≤ x.st.count + _
    rw [hnil, List.length_nil, hlate]
    omega
  · change w ∈ (Cond.broadcastWrite x.st).event.stEventList at hw
    rw [hnil] at hw
    exact absurd hw List.not_mem_nil

private theorem share_le (v : BitVec 32) (t : CondThread) : CondHist.share v t ≤ 1 := by
  rw [CondHist.share]
  split_ifs <;> omega

private theorem countAdd_count (h0 : 0 ≤ cond.count) (hlt : cond.count < 2^31 - 1) : (pthreadCountAdd cond).count = cond.count + 1 :=
  Int.bmod_eq_of_le (by omega) (by omega)

private theorem returned_snoc {waits : List WaitReturn} {r : WaitReturn} (h : ∀ r ∈ waits, r.ret ≠ ENOERR ∨ r.expired = true → r.Undone)
    (hr : r.ret ≠ ENOERR ∨ r.expired = true → r.Undone) : ∀ d ∈ waits ++ [r], d.ret ≠ ENOERR ∨ d.expired = true → d.Undone := by
  intro d hd
  rcases List.mem_append.mp hd with hd | hd
  · exact h d hd
  · exact List.mem_singleton.mp hd ▸ hr

private theorem settle_if (c : Prop) [Decidable c] : (if c then x.settle else x) = { x with late := if c then x.late - 1 else x.late } := by
  split_ifs <;> rfl

private theorem lapse_if (c : Prop) [Decidable c] :
    (if c then x.lapse else x) = { x with late := if c then if x.broadcasting = 0 then x.late + 1 else x.late else x.late } := by
  split_ifs <;> simp_all [CondHist.lapse]

/-- A share that nobody has taken goes out of the count, together with the wait that takes it back. -/
theorem CondHist.Covered.giveBack {n : Int} {l : Nat} (hc : x.Covered n l) (hl : 0 < l)
    (hs : x.tasksAt .signalModified < x.st.event.stEventList.length + l) (hb : x.broadcasting ≠ 0 → l = 0) :
    x.Covered (n - 1) (l - 1) := by
  have hb : x.broadcasting = 0 := by
    by_contra h
    exact absurd (hb h) (by omega)
  have hall := hc.all hb
  exact ⟨fun _ => by omega,fun _ => by omega⟩

private theorem CondInv.move_wait (hx : CondInv x) (hm : t ∈ x.threads) (ht : t.point.wakes = false) (hp : p.wakes = false)
    {st : PthreadCond} {late : Nat} (hv : st.value = x.st.value) (h0 : 0 ≤ st.count)
    (hw : ∀ w ∈ st.event.stEventList, w.eventMask = 0x0f ∧ w.eventMode = Event.LOS_WAITMODE_OR ||| Event.LOS_WAITMODE_CLR)
    (hlate : x.broadcasting ≠ 0 → late = 0)
    (hone : CondHist.share x.st.value ⟨t.task,p⟩ + x.st.count ≤ CondHist.share x.st.value t + st.count)
    (hall : x.broadcasting = 0 → ∀ m : Nat,
      (CondHist.share x.st.value ⟨t.task,p⟩ : Int) + (st.event.stEventList.length + late - m : Nat) + x.st.count ≤
        CondHist.share x.st.value t + (x.st.event.stEventList.length + x.late - m : Nat) + st.count) :
    CondInv ({ x with late := late }.move st t p) := by
  have hc := hx.covered.move_wait hm ht hp hv hone hall
  exact ⟨h0,⟨hc.committed,hc.all⟩,fun hb => hlate (broadcasting_move_wait hm ht hp st ▸ hb),hw,hx.returned⟩

private theorem CondInv.finish_wait (hx : CondInv x) (hm : t ∈ x.threads) (ht : t.point.wakes = false) {st : PthreadCond}
    (he : st.event = x.st.event) {late : Nat} (hc : (x.leave st t).Covered st.count late)
    (h0 : 0 ≤ st.count) (hle : late ≤ x.late) {ret : Int} (hr : ret ≠ ENOERR ∨ decide (t.task ∈ x.expired) = true →
      WaitReturn.Undone ⟨ret,true,decide (t.task ∈ x.expired),x.st.count,st.count⟩) :
    CondInv ({ x with late := late }.finish st t ret) := by
  refine ⟨h0,⟨hc.committed,hc.all⟩,fun hb => ?_,fun w hw => hx.waiters w (he ▸ hw),returned_snoc hx.returned hr⟩
  have hzero := hx.taken (broadcasting_leave_wait hm ht st ▸ hb)
  exact Nat.le_zero.mp (hzero ▸ hle)

/-- A wait that returns takes its share of the count back, or was woken. -/
theorem CondInv.finish (hx : CondInv x) (hm : t ∈ x.threads) {timed : Bool} {val : Event.EventRet} (hp : t.point = .locked timed val)
    (hexp : t.task ∈ x.expired → Fails val ∨ x.st.count = 0)
    (hok : Fails val → 0 < x.st.count → 0 < x.late ∧ x.tasksAt .signalModified < x.st.event.stEventList.length + x.late)
    (ctx : PendContext) : CondInv (CondCall.goRun TICK_PER_SECOND x t ctx) := by
  have hwake : t.point.wakes = false := by rw [hp]; rfl
  have hnonneg := hx.nonneg
  rw [CondCall.goRun, hp]
  simp only
  rw [settle_if]
  have hle : (if Fails val ∨ t.task ∈ x.expired then x.late - 1 else x.late) ≤ x.late := by split_ifs <;> omega
  rcases returnVal_cases x.st timed val with ⟨hf,he⟩ | ⟨hf,ret,he⟩
  · rw [he]
    refine hx.finish_wait hm hwake rfl (hx.covered.leave_wait hle hm hwake rfl rfl) hnonneg hle ?_
    rintro (h | h)
    · exact absurd rfl h
    · have hzero := (hexp (of_decide_eq_true h)).resolve_left hf
      exact .inl ⟨hzero,hzero⟩
  · obtain ⟨hev,hval,hcount⟩ := countSub_cases x.st
    rw [he]
    rcases hcount with ⟨hz,hc⟩ | ⟨hpos,hc⟩
    · have hzero := le_antisymm hz hnonneg
      refine hx.finish_wait hm hwake hev ?_ (hc ▸ hnonneg) hle fun _ => .inl ⟨hzero,hc.trans hzero⟩
      exact hc ▸ hx.covered.leave_wait hle hm hwake hval hev
    · refine hx.finish_wait hm hwake hev ?_ (by omega) hle fun _ => .inr ⟨hpos,hc⟩
      -- the share it takes back is its own: no signal or broadcast has taken it
      obtain ⟨hlate,hsignals⟩ := hok hf hpos
      rw [if_pos (.inl hf), hc]
      refine (hx.covered.giveBack hlate hsignals fun hb => hx.taken hb).leave_wait le_rfl hm hwake hval hev

/-- A wait looks at the value and the event, and blocks only when it holds the value. -/
theorem CondInv.block (hx : CondInv x) (hm : t ∈ x.threads) {timed : Bool} {oldValue : BitVec 32} {ticks : Nat}
    (hp : t.point = .released timed oldValue ticks) (ctx : PendContext) : CondInv (CondCall.goRun TICK_PER_SECOND x t ctx) := by
  have hwake : t.point.wakes = false := by rw [hp]; rfl
  obtain ⟨event,ret,he,hcases⟩ := waitSub_cases x.st ctx t.task oldValue ticks
  rw [CondCall.goRun, hp]
  simp only
  rw [he]
  rcases hcases with ⟨hl,hret⟩ | ⟨hv,hret,hl⟩
  · obtain ⟨val,rfl⟩ := Option.ne_none_iff_exists'.mp hret
    have hnew : CondHist.share x.st.value ⟨t.task,.returned timed val⟩ = 0 := rfl
    simp only
    rw [lapse_if]
    refine hx.move_wait hm hwake rfl rfl hx.nonneg (fun w hw => hx.waiters w (hl ▸ hw)) (fun hb => ?_) ?_ fun hb m => ?_
    · rw [if_neg hb, ite_self]
      exact hx.taken hb
    · rw [hnew]
      exact add_le_add_left (Int.natCast_nonneg _) _
    · rw [hnew, if_pos hb]
      simp only [hl]
      split_ifs with hf
      · -- its share was in the count, and is now that of a wait that takes it back
        rw [CondHist.share, if_pos hf.2]
        omega
      · omega
  · have hshare : CondHist.share x.st.value t = 1 := by
      rw [CondHist.share, CondHist.holdsValue, hp]
      exact if_pos (decide_eq_true hv)
    have hnew : CondHist.share x.st.value ⟨t.task,.waiting timed⟩ = 0 := rfl
    rw [hret]
    refine hx.move_wait hm hwake rfl rfl hx.nonneg (fun w hw => ?_) hx.taken ?_ fun _ m => ?_
    rotate_left
    · rw [hshare, hnew]
      exact add_le_add_left (by decide) _
    · rw [hshare, hnew]
      simp only [hl, List.length_append, List.length_singleton]
      omega
    · rcases List.mem_append.mp (hl ▸ hw) with hw | hw
      · exact hx.waiters w hw
      · rw [List.mem_singleton.mp hw]
        exact ⟨rfl,rfl⟩

theorem CondInv.own (hx : CondInv x) (mutex : Option Nat) : CondInv (x.owned mutex) :=
  ⟨hx.nonneg,⟨hx.covered.committed,hx.covered.all⟩,hx.taken,hx.waiters,hx.returned⟩

theorem CondInv.go (hx : CondInv x) (hm : t ∈ x.threads) {ctx : PendContext} (hok : (CondCall.go t ctx).Ok TICK_PER_SECOND x) :
    CondInv (CondCall.goRun TICK_PER_SECOND x t ctx) := by
  rw [CondCall.Ok] at hok
  have hnonneg := hx.nonneg
  cases hp : t.point with
  | read absTime oldValue =>
    have hshare : CondHist.share x.st.value t = 0 := by rw [CondHist.share, CondHist.holdsValue, hp]; rfl
    have hle := share_le x.st.value ⟨t.task,.counted absTime oldValue⟩
    rw [hp] at hok
    rw [CondCall.goRun, hp]
    have hcount := countAdd_count hx.nonneg hok
    have hwake : t.point.wakes = false := by rw [hp]; rfl
    refine hx.move_wait hm hwake rfl rfl (by omega) hx.waiters hx.taken (by omega) fun _ m => ?_
    change _ + ((x.st.event.stEventList.length + x.late - m : Nat) : Int) + _ ≤ _ + (pthreadCountAdd x.st).count
    omega
  | counted absTime oldValue =>
    rw [hp] at hok
    rw [CondCall.goRun, hp]
    simp only
    cases hticks : waitTicks TICK_PER_SECOND absTime with
    | error ret =>
      have hzero : x.st.count = 0 := hok.resolve_left fun ⟨ticks,he⟩ => nomatch hticks.symm.trans he
      have hwake : t.point.wakes = false := by rw [hp]; rfl
      exact hx.finish_wait hm hwake rfl (hx.covered.leave_wait le_rfl hm hwake rfl rfl) hnonneg le_rfl fun _ => .inl ⟨hzero,hzero⟩
    | ok ticks =>
      have hsame : CondHist.share x.st.value ⟨t.task,.released absTime.isSome oldValue ticks⟩ = CondHist.share x.st.value t := by
        rw [CondHist.share, CondHist.share, CondHist.holdsValue, CondHist.holdsValue, hp]
      have hwake : t.point.wakes = false := by rw [hp]; rfl
      exact (hx.move_wait hm hwake rfl rfl hx.nonneg hx.waiters hx.taken (by rw [hsame]) fun _ m => by rw [hsame]).own none
  | released timed oldValue ticks => exact hx.block hm hp ctx
  | waiting timed =>
    rw [CondCall.goRun, hp]
    exact hx
  | returned timed val =>
    have hwake : t.point.wakes = false := by rw [hp]; rfl
    have hnew : CondHist.share x.st.value ⟨t.task,.locked timed val⟩ = 0 := rfl
    rw [CondCall.goRun, hp]
    exact (hx.move_wait hm hwake rfl rfl hx.nonneg hx.waiters hx.taken (by rw [hnew]; omega) fun _ m => by rw [hnew]; omega).own _
  | locked timed val =>
    rw [hp] at hok
    exact hx.finish hm hp hok.1 hok.2 ctx
  | signalTaken =>
    rw [CondCall.goRun, hp]
    exact hx.modify hm (by rw [hp] at hok; exact hok) (.inl ⟨hp,rfl⟩)
  | signalModified =>
    rw [CondCall.goRun, hp]
    exact hx.signalWrite hm hp
  | broadcastTaken =>
    rw [CondCall.goRun, hp]
    exact hx.modify hm (by rw [hp] at hok; exact hok) (.inr ⟨hp,rfl⟩)
  | broadcastModified =>
    rw [CondCall.goRun, hp]
    exact hx.broadcastWrite hm hp

/-- A wait is called: with no variable or no mutex it returns at once. -/
theorem CondInv.wait (hx : CondInv x) (ptr : Bool) (task : Nat) (absTime : Option TimeSpec) :
    CondInv ((CondCall.wait ptr task absTime).run TICK_PER_SECOND x) := by
  rw [CondCall.run]
  cases ptr with
  | false => exact ⟨hx.nonneg,⟨hx.covered.committed,hx.covered.all⟩,hx.taken,hx.waiters,returned_snoc hx.returned fun _ => rfl⟩
  | true =>
    obtain ⟨h1,h2⟩ := hx.covered
    have hsame := committed_enter (show x.st.value = x.st.value from rfl) task (p := .read absTime x.st.value) rfl
    refine ⟨hx.nonneg,⟨fun hb => ?_,fun hb => ?_⟩,fun hb => ?_,hx.waiters,hx.returned⟩
    · rw [if_pos rfl, tasksAt_enter, if_neg nofun] at hb
      rw [if_pos rfl, hsame, tasksAt_enter, if_neg nofun]
      exact h1 hb
    · rw [if_pos rfl, CondHist.broadcasting, tasksAt_enter, tasksAt_enter, if_neg nofun, if_neg nofun] at hb
      rw [if_pos rfl, hsame, tasksAt_enter, tasksAt_enter, if_neg nofun, if_neg nofun]
      exact h2 hb
    · rw [if_pos rfl, CondHist.broadcasting, tasksAt_enter, tasksAt_enter, if_neg nofun, if_neg nofun] at hb
      exact hx.taken hb

theorem CondInv.expire (hx : CondInv x) (hw : w ∈ x.st.event.stEventList) (ops : SchedOps) :
    CondInv ((CondCall.expire w ops).run TICK_PER_SECOND x) := by
  have hlen := List.length_erase_of_mem hw
  have hpos := List.length_pos_of_mem hw
  refine ⟨hx.nonneg,⟨hx.covered.committed,fun (hb : x.broadcasting = 0) => ?_⟩,fun (hb : x.broadcasting ≠ 0) => ?_,
    fun v hv => hx.waiters v (List.mem_of_mem_erase hv),hx.returned⟩
  · -- the waiter leaves the event, and its share is that of a wait that takes it back
    have hall := hx.covered.all hb
    change (x.committed : Int) + ((x.st.event.stEventList.erase w).length + (if x.broadcasting = 0 then x.late + 1 else x.late) -
      x.tasksAt .signalModified : Nat) ≤ x.st.count + x.tasksAt .signalTaken
    rw [if_pos hb, hlen]
    omega
  · exact (if_neg hb).trans (hx.taken hb)

theorem CondInv.resume (hx : CondInv x) (hm : t ∈ x.threads) {timed : Bool} (hp : t.point = .waiting timed) (r : Event.Resumed) :
    CondInv ((CondCall.resume t r).run TICK_PER_SECOND x) := by
  have hlist : (Event.eventReturn x.st.event r).1.stEventList = x.st.event.stEventList := by
    rw [Event.eventReturn]
    split_ifs <;> rfl
  rw [CondCall.run, hp]
  rcases hret : Event.eventReturn x.st.event r with ⟨event,val⟩
  replace hlist : event.stEventList = x.st.event.stEventList := by
    rw [hret] at hlist
    exact hlist
  have hnew : CondHist.share x.st.value ⟨t.task,.returned timed val⟩ = 0 := rfl
  refine hx.move_wait hm (by rw [hp]; rfl) rfl rfl hx.nonneg (fun w hw => hx.waiters w (hlist ▸ hw)) hx.taken ?_ fun _ m => ?_
  · rw [hnew]
    exact add_le_add_left (Int.natCast_nonneg _) _
  · simp only [hlist, hnew]
    omega

theorem CondCall.step_inv (c : CondCall) (hx : CondInv x) (hp : c.Pre x) (hok : c.Ok TICK_PER_SECOND x) :
    CondInv (c.run TICK_PER_SECOND x) := by
  cases c with
  | lock task => exact hx.own _
  | unlock task => exact hx.own _
  | wait ptr task absTime => exact hx.wait ptr task absTime
  | signal ptr task =>
    rw [run, signalTake]
    split_ifs with hptr hpos
    · exact hx.signal task hpos
    · exact hx
    · exact hx
  | broadcast ptr task =>
    rw [run, broadcastTake]
    split_ifs with hptr hpos
    · exact hx.broadcast task
    · exact hx
    · exact hx
  | go t ctx => exact hx.go hp.1 hok
  | expire w ops => exact hx.expire hp.1 ops
  | resume t r =>
    obtain ⟨hm,-,-,timed,ht⟩ := hp
    exact hx.resume hm ht r

theorem start_inv : CondInv startCond := ⟨le_rfl,⟨fun _ => le_rfl,fun _ => le_rfl⟩,fun _ => rfl,nofun,nofun⟩

private theorem needing_le (x : CondHist) : x.needing ≤ x.st.event.stEventList.length + x.committed := by
  rw [CondHist.needing, CondHist.committed]
  exact Nat.add_le_add_left (List.countP_mono_left fun t _ h => holdsValue_of_aboutToBlock h) _

theorem CondInv.law (hx : CondInv x) : CondLaw x := by
  have hcount : x.broadcasting = 0 → x.needing ≤ x.st.count + x.signalling := by
    intro hb
    have := hx.covered.all hb
    have := needing_le x
    rw [CondHist.signalling]
    omega
  have hpos : x.broadcasting = 0 → x.signalling < x.needing → 0 < x.st.count := by
    intro hb hlt
    have := hcount hb
    omega
  refine ⟨hcount,fun hb hlt => ?_,fun hb hlt => ?_,fun t _ h => ?_,fun t _ timed oldValue ticks hp hfree ctx hnone => ?_,
    fun w ws hws => signalWrite_cons hws (hx.waiters w (hws ▸ List.mem_cons_self)),broadcastWrite_all hx.waiters,hx.returned⟩
  · rw [signalTake, if_pos (hpos hb hlt)]
  · rw [broadcastTake, if_pos (hpos hb hlt)]
  · by_contra hc
    have hnew := holdsValue_of_aboutToBlock (Bool.of_not_eq_false hc)
    exact modify_ne x.st (holdsValue_unique hnew (holdsValue_of_aboutToBlock h))
  · obtain ⟨event,ret,he,hcases⟩ := waitSub_cases x.st ctx t.task oldValue ticks
    rw [he] at hnone
    rcases hcases with ⟨-,hret⟩ | ⟨hv,-,-⟩
    · exact hret hnone
    · rw [CondHist.aboutToBlock, hp] at hfree
      exact absurd hv (of_decide_eq_false hfree)

/-- No signal or broadcast passes a waiting task over, and a wait that was not woken takes its share back, along every run whose
calls meet the condition. -/
theorem condLaw_of_reachable (TICK_PER_SECOND : Nat) (x : CondHist)
    (h : Run.Reachable (condSystem TICK_PER_SECOND) (fun x c => c.Ok TICK_PER_SECOND x) x) : CondLaw x := by
  have hinv : CondInv x := h.invariant (by rintro x rfl; exact start_inv) fun x c hx hp hok => c.step_inv hx hp hok
  exact hinv.law

end

/-- A task that may wait. -/
def calmContext : PendContext := ⟨false,false,true⟩

/-- A waiter of the event of a condition variable. -/
def condWaiter (task ticks : Nat) : Event.EventWaiter := ⟨⟨task,ticks⟩,0x0f,Event.LOS_WAITMODE_OR ||| Event.LOS_WAITMODE_CLR⟩

def goOn (task : Nat) (point : CondPoint) : CondCall := .go ⟨task,point⟩ calmContext

/-- A task waits and is signalled, and another one that waits too comes back for its time and takes its share back. -/
theorem condLaw_one_of_two : ∃ x, Run.Reachable (condSystem 100) (fun x c => c.Ok 100 x) x ∧
    x.waits = [⟨ENOERR,true,false,1,1⟩,⟨ETIMEDOUT,true,true,1,0⟩] ∧ CondLaw x := by
  have h0 : Run.Reachable (condSystem 100) (fun x c => c.Ok 100 x) startCond := .init rfl
  have h1 : Run.Reachable (condSystem 100) (fun x c => c.Ok 100 x) _ := .call h0 (.lock 1) ⟨rfl,nofun⟩ trivial
  have h2 : Run.Reachable (condSystem 100) (fun x c => c.Ok 100 x) _ := .call h1 (.wait true 1 none) ⟨rfl,nofun⟩ trivial
  have h3 : Run.Reachable (condSystem 100) (fun x c => c.Ok 100 x) _ := .call h2 (goOn 1 (.read none 0))
    ⟨by decide +kernel,nofun,nofun⟩ (show (0 : Int) < 2^31 - 1 by decide)
  have h4 : Run.Reachable (condSystem 100) (fun x c => c.Ok 100 x) _ := .call h3 (goOn 1 (.counted none 0))
    ⟨by decide +kernel,nofun,nofun⟩ (.inl ⟨_,rfl⟩)
  have h5 : Run.Reachable (condSystem 100) (fun x c => c.Ok 100 x) _ := .call h4 (goOn 1 (.released false 0 LOS_WAIT_FOREVER))
    ⟨by decide +kernel,nofun,nofun⟩ trivial
  have h6 : Run.Reachable (condSystem 100) (fun x c => c.Ok 100 x) _ := .call h5 (.lock 3)
    ⟨rfl,show ∀ t ∈ CondHist.threads _, t.task ≠ 3 by decide +kernel⟩ trivial
  have h7 : Run.Reachable (condSystem 100) (fun x c => c.Ok 100 x) _ := .call h6 (.wait true 3 (some ⟨1,0⟩))
    ⟨rfl,show ∀ t ∈ CondHist.threads _, t.task ≠ 3 by decide +kernel⟩ trivial
  have h8 : Run.Reachable (condSystem 100) (fun x c => c.Ok 100 x) _ := .call h7 (goOn 3 (.read (some ⟨1,0⟩) 0))
    ⟨by decide +kernel,nofun,nofun⟩ (show (1 : Int) < 2^31 - 1 by decide)
  have h9 : Run.Reachable (condSystem 100) (fun x c => c.Ok 100 x) _ := .call h8 (goOn 3 (.counted (some ⟨1,0⟩) 0))
    ⟨by decide +kernel,nofun,nofun⟩ (.inl ⟨_,rfl⟩)
  have h10 : Run.Reachable (condSystem 100) (fun x c => c.Ok 100 x) _ := .call h9 (goOn 3 (.released true 0 100))
    ⟨by decide +kernel,nofun,nofun⟩ trivial
  have h11 : Run.Reachable (condSystem 100) (fun x c => c.Ok 100 x) _ := .call h10 (.signal true 2)
    (show ∀ t ∈ CondHist.threads _, t.task ≠ 2 by decide +kernel) trivial
  have h12 : Run.Reachable (condSystem 100) (fun x c => c.Ok 100 x) _ := .call h11 (goOn 2 .signalTaken)
    ⟨by decide +kernel,nofun,nofun⟩
    (show ∀ u ∈ CondHist.threads _, CondHist.holdsValue _ u = true → CondHist.holdsValue _ u = true by decide +kernel)
  have h13 : Run.Reachable (condSystem 100) (fun x c => c.Ok 100 x) _ := .call h12 (goOn 2 .signalModified)
    ⟨by decide +kernel,nofun,nofun⟩ trivial
  have h14 : Run.Reachable (condSystem 100) (fun x c => c.Ok 100 x) _ := .call h13 (.expire (condWaiter 3 100) .hpf)
    ⟨by decide +kernel,by decide⟩ trivial
  have h15 : Run.Reachable (condSystem 100) (fun x c => c.Ok 100 x) _ := .call h14
    (.resume ⟨1,.waiting false⟩ ⟨condWaiter 1 LOS_WAIT_FOREVER,false⟩) ⟨by decide +kernel,by decide +kernel,rfl,_,rfl⟩ trivial
  have h16 : Run.Reachable (condSystem 100) (fun x c => c.Ok 100 x) _ := .call h15 (goOn 1 (.returned false (.ok 1)))
    ⟨by decide +kernel,nofun,fun _ => rfl⟩ trivial
  have h17 : Run.Reachable (condSystem 100) (fun x c => c.Ok 100 x) _ := .call h16 (goOn 1 (.locked false (.ok 1)))
    ⟨by decide +kernel,nofun,nofun⟩ ⟨fun he => absurd he (by decide +kernel),fun hf => absurd rfl hf.2⟩
  have h18 : Run.Reachable (condSystem 100) (fun x c => c.Ok 100 x) _ := .call h17 (.unlock 1)
    ⟨rfl,show ∀ t ∈ CondHist.threads _, t.task ≠ 1 by decide +kernel⟩ trivial
  have h19 : Run.Reachable (condSystem 100) (fun x c => c.Ok 100 x) _ := .call h18
    (.resume ⟨3,.waiting true⟩ ⟨condWaiter 3 100,true⟩) ⟨by decide +kernel,by decide +kernel,rfl,_,rfl⟩ trivial
  have h20 : Run.Reachable (condSystem 100) (fun x c => c.Ok 100 x) _ := .call h19 (goOn 3 (.returned true (.error .readTimeout)))
    ⟨by decide +kernel,nofun,fun _ => rfl⟩ trivial
  have h21 : Run.Reachable (condSystem 100) (fun x c => c.Ok 100 x) _ := .call h20 (goOn 3 (.locked true (.error .readTimeout)))
    ⟨by decide +kernel,nofun,nofun⟩
    ⟨fun _ => .inl ⟨by decide,by decide⟩,fun _ _ => ⟨show 0 < CondHist.late _ by decide +kernel,
      show CondHist.tasksAt _ _ < _ by decide +kernel⟩⟩
  exact ⟨_,h21,by decide +kernel,condLaw_of_reachable 100 _ h21⟩

/-- A wait until the time 0 returns ETIMEDOUT and leaves the count one too high. -/
theorem condLaw_fails_time_zero : ¬ ∀ TICK_PER_SECOND x, Run.Reachable (condSystem TICK_PER_SECOND) (fun _ _ => True) x → CondLaw x := by
  intro hall
  have h0 : Run.Reachable (condSystem 100) (fun _ _ => True) startCond := .init rfl
  have h1 : Run.Reachable (condSystem 100) (fun _ _ => True) _ := .call h0 (.lock 1) ⟨rfl,nofun⟩ trivial
  have h2 : Run.Reachable (condSystem 100) (fun _ _ => True) _ := .call h1 (.wait true 1 (some ⟨0,0⟩)) ⟨rfl,nofun⟩ trivial
  have h3 : Run.Reachable (condSystem 100) (fun _ _ => True) _ := .call h2 (goOn 1 (.read (some ⟨0,0⟩) 0))
    ⟨by decide +kernel,nofun,nofun⟩ trivial
  have h4 : Run.Reachable (condSystem 100) (fun _ _ => True) _ := .call h3 (goOn 1 (.counted (some ⟨0,0⟩) 0))
    ⟨by decide +kernel,nofun,nofun⟩ trivial
  rcases (hall 100 _ h4).returned ⟨ETIMEDOUT,true,false,1,1⟩ (by decide +kernel) (.inl (by decide)) with ⟨h,-⟩ | ⟨-,h⟩
  · exact absurd h (by decide)
  · exact absurd h (by decide)

end LiteOsKernel.Posix.Cond
