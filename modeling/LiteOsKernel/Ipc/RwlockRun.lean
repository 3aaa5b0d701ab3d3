import LiteOsKernel.Ipc.Rwlock
import LiteOsKernel.Lib.Run

/-! Exclusion by a reader-writer lock along any run of its callers. -/
namespace LiteOsKernel.Ipc.Rwlock

/-- A task that left a list of the lock and has not run since, with its OS_TASK_STATUS_TIMEOUT. granted is not in the source: it
says whether the lock was given to the task when it left. -/
structure Resumed where
  task : Nat
  timeout : Bool
  granted : Bool
  deriving DecidableEq

/-- A lock with its history: each hold is an entry of reads or of writes. -/
structure RwHist where
  lock : LosRwlock
  resumed : List Resumed
  reads : List Nat
  writes : List Nat

inductive RwCall where
  | rdLock (cmp : Compare) (ctx : PendContext) (t timeout : Nat)
  | tryRdLock (cmp : Compare) (ctx : PendContext) (t : Nat)
  | wrLock (cmp : Compare) (ctx : PendContext) (t timeout : Nat)
  | tryWrLock (cmp : Compare) (ctx : PendContext) (t : Nat)
  | unLock (cmp : Compare) (ctx : PendContext) (t : Nat)
  | expireReader (w : Waiter) (ops : SchedOps)
  | expireWriter (w : Waiter) (ops : SchedOps)
  | resume (r : Resumed)

namespace RwHist

/-- The end of a read lock call. -/
def reader (x : RwHist) (t : Nat) (res : LosRwlock × Option RwRet) : RwHist × Option RwRet :=
  ({ x with lock := res.1, reads := if res.2 = some .ok then t :: x.reads else x.reads },res.2)

/-- The end of a write lock call. -/
def writer (x : RwHist) (t : Nat) (res : LosRwlock × Option RwRet) : RwHist × Option RwRet :=
  ({ x with lock := res.1, writes := if res.2 = some .ok then t :: x.writes else x.writes },res.2)

/-- One hold of t is given up, and the woken tasks get the lock in the mode that it is then in. -/
def release (x : RwHist) (t : Nat) (res : LosRwlock × List Nat × RwRet) : RwHist × Option RwRet :=
  let reads := if 0 < x.lock.rwCount then x.reads.erase t else x.reads
  let writes := if 0 < x.lock.rwCount then x.writes else x.writes.erase t
  ({ lock := res.1,
     resumed := x.resumed ++ res.2.1.map fun u => ⟨u,false,true⟩,
     reads := if 0 < res.1.rwCount then reads ++ res.2.1 else reads,
     writes := if 0 < res.1.rwCount then writes else writes ++ res.2.1 },some res.2.2)

end RwHist

namespace RwCall

/-- The history after a call, and the code it returns if it returns. -/
def run (x : RwHist) : RwCall → RwHist × Option RwRet
  | rdLock cmp ctx t timeout => x.reader t (losRwlockRdLock cmp x.lock ctx t timeout)
  | tryRdLock cmp ctx t => x.reader t (losRwlockTryRdLock cmp x.lock ctx t)
  | wrLock cmp ctx t timeout => x.writer t (losRwlockWrLock cmp x.lock ctx t timeout)
  | tryWrLock cmp ctx t => x.writer t (losRwlockTryWrLock cmp x.lock ctx t)
  | unLock cmp ctx t =>
    match losRwlockUnLock cmp x.lock ctx t with
    | (lock,woken,.ok) => x.release t (lock,woken,.ok)
    | (lock,woken,.einval) => x.release t (lock,woken,.einval)
    | (lock,_,ret) => ({ x with lock := lock },some ret)
  | expireReader w ops =>
    ({ x with lock := { x.lock with readList := x.lock.readList.erase w }, resumed := x.resumed ++ [⟨w.task,ops.timeoutBit,false⟩] },none)
  | expireWriter w ops =>
    ({ x with lock := { x.lock with writeList := x.lock.writeList.erase w }, resumed := x.resumed ++ [⟨w.task,ops.timeoutBit,false⟩] },none)
  | resume r => ({ x with resumed := x.resumed.erase r },some (if r.timeout then .etimedout else .ok))

/-- The callers are tasks that run, of which sys says which are system tasks, and unlock only what they hold. A task that times
out waits for a bounded time, and a task that returns was resumed. -/
def Pre (sys : Nat → Bool) (x : RwHist) : RwCall → Prop
  | rdLock _ ctx t _ | tryRdLock _ ctx t | wrLock _ ctx t _ | tryWrLock _ ctx t => ctx.systemTask = sys t
  | unLock _ ctx t => ctx.systemTask = sys t ∧ ctx.intActive = false ∧ t ∈ x.reads ++ x.writes
  | expireReader w _ => w ∈ x.lock.readList ∧ w.ticks ≠ LOS_WAIT_FOREVER
  | expireWriter w _ => w ∈ x.lock.writeList ∧ w.ticks ≠ LOS_WAIT_FOREVER
  | resume r => r ∈ x.resumed

/-- The readers that the last holder's unlock is to wake. -/
def readersToWake (cmp : Compare) (rwlock : LosRwlock) : List Waiter :=
  match osRwlockGetMode cmp rwlock.readList rwlock.writeList, rwlock.readList with
  | .read, readers => readers
  | .readFirst, first :: rest => first :: rest.takeWhile fun w => !stopAt cmp .readFirst rwlock.writeList w.task
  | _, _ => []

/-- The condition: no deadline task times out, and no unlock that gives up the last hold has more than INT8_MAX readers to wake. -/
def Ok (x : RwHist) : RwCall → Prop
  | expireReader _ ops | expireWriter _ ops => ops = .hpf
  | unLock cmp _ _ => (x.lock.rwCount = 1 ∨ x.lock.rwCount = -1) → (readersToWake cmp x.lock).length ≤ 127
  | _ => True

/-- What a call promises: a lock call returns LOS_OK iff the task holds the lock once more; an unlock returns LOS_OK, gives up
one hold of the caller and hands the lock to the woken tasks; a task that waited returns LOS_OK iff it was given the lock. -/
def Law (x : RwHist) (c : RwCall) : Prop :=
  let x' := (c.run x).1
  let holds (y : RwHist) := y.reads ++ y.writes
  match c with
  | rdLock _ _ t _ | tryRdLock _ _ t | wrLock _ _ t _ | tryWrLock _ _ t =>
    ((c.run x).2 = some .ok → (holds x').Perm (t :: holds x)) ∧ ((c.run x).2 ≠ some .ok → holds x' = holds x)
  | unLock _ _ t => (c.run x).2 = some .ok ∧ ∃ woken, x'.resumed = x.resumed ++ woken.map (fun u => ⟨u,false,true⟩) ∧
      (holds x').Perm ((holds x).erase t ++ woken)
  | resume r => (c.run x).2 = some .ok ↔ r.granted = true
  | expireReader _ _ | expireWriter _ _ => holds x' = holds x

end RwCall

/-- How the count stands for the holds. -/
structure RwInv (sys : Nat → Bool) (x : RwHist) : Prop where
  magic : x.lock.magic = true
  read : 0 < x.lock.rwCount → (x.reads.length : Int) = x.lock.rwCount ∧ x.writes = []
  write : x.lock.rwCount < 0 → (x.writes.length : Int) = -x.lock.rwCount ∧ x.reads = []
  free : x.lock.rwCount = 0 → x.reads = [] ∧ x.writes = []
  owner : ∀ t ∈ x.writes, x.lock.writeOwner = some t
  noOwner : 0 ≤ x.lock.rwCount → x.lock.writeOwner = none
  system : ∀ t ∈ x.reads ++ x.writes, sys t = false
  waiters : ∀ w ∈ x.lock.readList ++ x.lock.writeList, sys w.task = false
  resumed : ∀ r ∈ x.resumed, r.timeout = !r.granted

variable {cmp : Compare} {lock : LosRwlock} {ctx : PendContext} {t n : Nat} {sys : Nat → Bool} {x : RwHist}

/-- What a read lock call does: nothing, with an error; one more reader; or the task waits. -/
inductive RdResult (lock : LosRwlock) (ctx : PendContext) (t : Nat) : LosRwlock × Option RwRet → Prop
  | error (ret : RwRet) (h : ret ≠ .ok) : RdResult lock ctx t (lock,some ret)
  | ok (hs : ctx.systemTask = false) (h : 0 ≤ lock.rwCount) : RdResult lock ctx t ({ lock with rwCount := lock.rwCount + 1 },some .ok)
  | wait (hs : ctx.systemTask = false) (l : List Waiter) (n : Nat) (h : l.Perm (⟨t,n⟩ :: lock.readList)) :
    RdResult lock ctx t ({ lock with readList := l },none)

/-- What a write lock call does: nothing, with an error; the lock is taken, for the first time or once more; or the task waits. -/
inductive WrResult (lock : LosRwlock) (ctx : PendContext) (t : Nat) : LosRwlock × Option RwRet → Prop
  | error (ret : RwRet) (h : ret ≠ .ok) : WrResult lock ctx t (lock,some ret)
  | first (hs : ctx.systemTask = false) (h : lock.rwCount = 0) :
    WrResult lock ctx t ({ lock with rwCount := -1, writeOwner := some t },some .ok)
  | again (hs : ctx.systemTask = false) (h : lock.rwCount < 0) (ho : lock.writeOwner = some t) :
    WrResult lock ctx t ({ lock with rwCount := lock.rwCount - 1 },some .ok)
  | wait (hs : ctx.systemTask = false) (l : List Waiter) (n : Nat) (h : l.Perm (⟨t,n⟩ :: lock.writeList)) :
    WrResult lock ctx t ({ lock with writeList := l },none)

private theorem osRwlockCheck_ok (h : osRwlockCheck ctx = .ok) : ctx.intActive = false ∧ ctx.systemTask = false := by
  rw [osRwlockCheck] at h
  split_ifs at h with h1 h2
  exact ⟨Bool.not_eq_true _ ▸ h1,Bool.not_eq_true _ ▸ h2⟩

private theorem rdPendOp_result (cmp : Compare) (lock : LosRwlock) (b : Bool) (t n : Nat) (hs : ctx.systemTask = false) :
    RdResult lock ctx t (osRwlockRdPendOp cmp lock b t n) := by
  rw [osRwlockRdPendOp]
  split_ifs with h1 h2 h3 h4 h5
  · exact .error .einval (by decide)
  · exact .ok hs h1.1
  · exact .error .einval (by decide)
  · exact .error .edeadlk (by decide)
  · exact .error .einval (by decide)
  · exact .wait hs _ n (lockPend_perm ..)

private theorem wrPendOp_result (cmp : Compare) (lock : LosRwlock) (b : Bool) (t n : Nat) (hs : ctx.systemTask = false) :
    WrResult lock ctx t (osRwlockWrPendOp cmp lock b t n) := by
  rw [osRwlockWrPendOp]
  split_ifs with h1 h2 h3 h4 h5
  · exact .first hs h1
  · exact .error .einval (by decide)
  · exact .again hs h2.1 h2.2
  · exact .error .einval (by decide)
  · exact .error .edeadlk (by decide)
  · exact .wait hs _ n (lockPend_perm ..)

private theorem rdLock_result (cmp : Compare) (lock : LosRwlock) (ctx : PendContext) (t n : Nat) :
    RdResult lock ctx t (losRwlockRdLock cmp lock ctx t n) := by
  rw [losRwlockRdLock]
  split_ifs with h1 h2
  · exact .error _ h1
  · exact .error .ebadf (by decide)
  · exact rdPendOp_result _ _ _ _ _ (osRwlockCheck_ok (not_not.mp h1)).2

private theorem tryRdLock_result (cmp : Compare) (lock : LosRwlock) (ctx : PendContext) (t : Nat) :
    RdResult lock ctx t (losRwlockTryRdLock cmp lock ctx t) := by
  rw [losRwlockTryRdLock]
  split_ifs with h1 h2 h3 h4 h5
  · exact .error _ h1
  · exact .error .ebadf (by decide)
  · exact .error .einval (by decide)
  · exact .error .ebusy (by decide)
  · exact .error .ebusy (by decide)
  · exact rdPendOp_result _ _ _ _ _ (osRwlockCheck_ok (not_not.mp h1)).2

private theorem wrLock_result (cmp : Compare) (lock : LosRwlock) (ctx : PendContext) (t n : Nat) :
    WrResult lock ctx t (losRwlockWrLock cmp lock ctx t n) := by
  rw [losRwlockWrLock]
  split_ifs with h1 h2
  · exact .error _ h1
  · exact .error .ebadf (by decide)
  · exact wrPendOp_result _ _ _ _ _ (osRwlockCheck_ok (not_not.mp h1)).2

private theorem tryWrLock_result (cmp : Compare) (lock : LosRwlock) (ctx : PendContext) (t : Nat) :
    WrResult lock ctx t (losRwlockTryWrLock cmp lock ctx t) := by
  rw [losRwlockTryWrLock]
  split_ifs with h1 h2 h3 h4
  · exact .error _ h1
  · exact .error .ebadf (by decide)
  · exact .error .ebusy (by decide)
  · exact .error .ebusy (by decide)
  · exact wrPendOp_result _ _ _ _ _ (osRwlockCheck_ok (not_not.mp h1)).2

theorem RwInv.reader (h : RwInv sys x) {res : LosRwlock × Option RwRet} (hr : RdResult x.lock ctx t res) (hs : ctx.systemTask = sys t) :
    RwInv sys (x.reader t res).1 := by
  cases hr with
  | error ret hret =>
    rw [RwHist.reader, if_neg fun he => hret (Option.some.inj he)]
    exact h
  | ok hsys hc =>
    have hw : x.writes = [] := by
      by_cases h0 : x.lock.rwCount = 0
      · exact (h.free h0).2
      · exact (h.read (by omega)).2
    have hlen : (x.reads.length : Int) = x.lock.rwCount := by
      by_cases h0 : x.lock.rwCount = 0
      · rw [(h.free h0).1, h0]
        rfl
      · exact (h.read (by omega)).1
    refine ⟨h.magic,fun _ => ⟨?_,hw⟩,fun hn => ?_,fun h0 => ?_,?_,fun _ => h.noOwner hc,?_,h.waiters,h.resumed⟩
    · simp [RwHist.reader, hlen]
    · simp only [RwHist.reader] at hn
      omega
    · simp only [RwHist.reader] at h0
      omega
    · exact h.owner
    · intro u hu
      simp only [RwHist.reader, if_true, List.cons_append] at hu
      rcases List.mem_cons.mp hu with rfl | hu
      · rw [← hs, hsys]
      · exact h.system u hu
  | wait hsys l n hl =>
    refine ⟨h.magic,h.read,h.write,h.free,h.owner,h.noOwner,h.system,?_,h.resumed⟩
    intro w hw
    rcases List.mem_append.mp hw with hw | hw
    · rcases List.mem_cons.mp (hl.mem_iff.mp hw) with rfl | hw
      · rw [← hs, hsys]
      · exact h.waiters w (List.mem_append_left _ hw)
    · exact h.waiters w (List.mem_append_right _ hw)

private theorem RwInv.writer (h : RwInv sys x) {res : LosRwlock × Option RwRet} (hr : WrResult x.lock ctx t res) (hs : ctx.systemTask = sys t) :
    RwInv sys (x.writer t res).1 := by
  cases hr with
  | error ret hret =>
    rw [RwHist.writer, if_neg fun he => hret (Option.some.inj he)]
    exact h
  | first hsys hc =>
    obtain ⟨h1,h2⟩ := h.free hc
    refine ⟨h.magic,nofun,fun _ => ⟨?_,h1⟩,nofun,?_,nofun,?_,h.waiters,h.resumed⟩
    · simp [RwHist.writer, h2]
    · simp [RwHist.writer, h2]
    · simp [RwHist.writer, h1, h2, ← hs, hsys]
  | again hsys hc ho =>
    obtain ⟨h1,h2⟩ := h.write hc
    refine ⟨h.magic,fun hp => ?_,fun _ => ⟨?_,h2⟩,fun h0 => ?_,?_,fun hp => ?_,?_,h.waiters,h.resumed⟩
    · simp only [RwHist.writer] at hp
      omega
    · simp [RwHist.writer, h1]
      omega
    · simp only [RwHist.writer] at h0
      omega
    · intro u hu
      simp only [RwHist.writer, if_true] at hu
      rcases List.mem_cons.mp hu with rfl | hu
      · exact ho
      · exact h.owner u hu
    · simp only [RwHist.writer] at hp
      omega
    · intro u hu
      simp only [RwHist.writer, if_true, h2, List.nil_append] at hu
      rcases List.mem_cons.mp hu with rfl | hu
      · rw [← hs, hsys]
      · exact h.system u (List.mem_append_right _ hu)
  | wait hsys l n hl =>
    refine ⟨h.magic,h.read,h.write,h.free,h.owner,h.noOwner,h.system,?_,h.resumed⟩
    intro w hw
    rcases List.mem_append.mp hw with hw | hw
    · exact h.waiters w (List.mem_append_left _ hw)
    · rcases List.mem_cons.mp (hl.mem_iff.mp hw) with rfl | hw
      · rw [← hs, hsys]
      · exact h.waiters w (List.mem_append_right _ hw)

theorem wakeReaders_spec (stop : Nat → Bool) : ∀ (l : List Waiter) (c : Int),
    ∃ l' woken ret, wakeReaders stop c l = (c + woken.length,l',woken,ret) ∧ l.map Waiter.task = woken ++ l'.map Waiter.task ∧
      (ret = .ok ∨ ret = .einval) ∧ (c + (l.takeWhile fun w => !stop w.task).length ≤ INT8_MAX → ret = .ok)
  | [], c => ⟨[],[],.ok,by simp [wakeReaders],rfl,.inl rfl,fun _ => rfl⟩
  | w :: l, c => by
    rw [wakeReaders]
    split_ifs with h1 h2
    · exact ⟨w :: l,[],.ok,by simp,rfl,.inl rfl,fun _ => rfl⟩
    · refine ⟨w :: l,[],.einval,by simp,rfl,.inr rfl,fun hle => ?_⟩
      rw [List.takeWhile_cons_of_pos (by simpa using h1), List.length_cons] at hle
      omega
    · obtain ⟨l',woken,ret,he,hm,hret,hok⟩ := wakeReaders_spec stop l (c + 1)
      rw [he]
      refine ⟨l',w.task :: woken,ret,?_,by simp [hm],hret,fun hle => hok ?_⟩
      · simp only [List.length_cons]
        congr 1
        omega
      · rw [List.takeWhile_cons_of_pos (by simpa using h1), List.length_cons] at hle
        omega

/-- What the last hold is followed by: the lock is free, one writer has it, or some readers have it. -/
inductive PostResult (cmp : Compare) (lock : LosRwlock) : LosRwlock × List Nat × RwRet → Prop
  | free : PostResult cmp lock ({ lock with rwCount := 0, writeOwner := none },[],.ok)
  | write (w : Waiter) (rest : List Waiter) (h : lock.writeList = w :: rest) :
    PostResult cmp lock ({ lock with rwCount := -1, writeOwner := some w.task, writeList := rest },[w.task],.ok)
  | read (l : List Waiter) (woken : List Nat) (ret : RwRet) (h : lock.readList.map Waiter.task = woken ++ l.map Waiter.task)
    (hne : woken ≠ []) (hret : ret = .ok ∨ ret = .einval) (hok : (RwCall.readersToWake cmp lock).length ≤ 127 → ret = .ok) :
    PostResult cmp lock ({ lock with rwCount := woken.length, writeOwner := none, readList := l },woken,ret)

private theorem postOp_result (cmp : Compare) (lock : LosRwlock) : PostResult cmp lock (osRwlockPostOp cmp lock) := by
  obtain ⟨magic,c,o,readList,writeList⟩ := lock
  cases readList with
  | nil =>
    cases writeList with
    | nil => exact .free
    | cons w rest => exact .write w rest rfl
  | cons r readers =>
    cases writeList with
    | nil =>
      obtain ⟨l,woken,ret,he,hm,hret,hok⟩ := wakeReaders_spec (stopAt cmp .read []) readers 1
      have hpost : osRwlockPostOp cmp ⟨magic,c,o,r :: readers,[]⟩ =
          (⟨magic,((r.task :: woken).length : Nat),none,l,[]⟩,r.task :: woken,ret) := by
        simp only [osRwlockPostOp, osRwlockGetMode, he, List.length_cons]
        congr 2
        omega
      rw [hpost]
      refine .read l (r.task :: woken) ret (by simp [hm]) (by simp) hret fun hle => hok ?_
      simp only [RwCall.readersToWake, osRwlockGetMode, List.length_cons] at hle
      have := (List.takeWhile_sublist (fun w : Waiter => !stopAt cmp .read [] w.task) (l := readers)).length_le
      rw [INT8_MAX]
      omega
    | cons w rest =>
      by_cases hc : cmp w.task r.task ≤ 0
      · have hpost : osRwlockPostOp cmp ⟨magic,c,o,r :: readers,w :: rest⟩ =
            (⟨magic,-1,some w.task,r :: readers,rest⟩,[w.task],.ok) := by
          simp only [osRwlockPostOp, osRwlockGetMode, if_pos hc]
        rw [hpost]
        exact .write w rest rfl
      · obtain ⟨l,woken,ret,he,hm,hret,hok⟩ := wakeReaders_spec (stopAt cmp .readFirst (w :: rest)) readers 1
        have hpost : osRwlockPostOp cmp ⟨magic,c,o,r :: readers,w :: rest⟩ =
            (⟨magic,((r.task :: woken).length : Nat),none,l,w :: rest⟩,r.task :: woken,ret) := by
          simp only [osRwlockPostOp, osRwlockGetMode, if_neg hc, he, List.length_cons]
          congr 2
          omega
        rw [hpost]
        refine .read l (r.task :: woken) ret (by simp [hm]) (by simp) hret fun hle => hok ?_
        simp only [RwCall.readersToWake, osRwlockGetMode, if_neg hc, List.length_cons] at hle
        rw [INT8_MAX]
        omega

/-- A holder is a reader in read mode and the owner in write mode. -/
theorem RwInv.holder (h : RwInv sys x) (ht : t ∈ x.reads ++ x.writes) :
    0 < x.lock.rwCount ∧ t ∈ x.reads ∧ x.writes = [] ∨
    x.lock.rwCount < 0 ∧ t ∈ x.writes ∧ x.reads = [] ∧ x.lock.writeOwner = some t := by
  rcases lt_trichotomy x.lock.rwCount 0 with hc | hc | hc
  · obtain ⟨-,h2⟩ := h.write hc
    rw [h2, List.nil_append] at ht
    exact .inr ⟨hc,ht,h2,h.owner t ht⟩
  · obtain ⟨h1,h2⟩ := h.free hc
    rw [h1, h2] at ht
    cases ht
  · obtain ⟨-,h2⟩ := h.read hc
    rw [h2, List.append_nil] at ht
    exact .inl ⟨hc,ht,h2⟩

/-- An unlock by a holder: one hold less in the same mode, or the last hold is given up. -/
private theorem unLock_result (h : RwInv sys x) (hp : (RwCall.unLock cmp ctx t).Pre sys x) :
    (1 < x.lock.rwCount ∧ losRwlockUnLock cmp x.lock ctx t = ({ x.lock with rwCount := x.lock.rwCount - 1 },[],.ok)) ∨
    (x.lock.rwCount < -1 ∧ losRwlockUnLock cmp x.lock ctx t = ({ x.lock with rwCount := x.lock.rwCount + 1 },[],.ok)) ∨
    ((x.lock.rwCount = 1 ∨ x.lock.rwCount = -1) ∧ PostResult cmp x.lock (losRwlockUnLock cmp x.lock ctx t)) := by
  obtain ⟨hs,hi,ht⟩ := hp
  have hcheck : osRwlockCheck ctx = .ok := by
    rw [osRwlockCheck, hi, hs, h.system t ht]
    rfl
  have hmode : x.lock.rwCount ≠ 0 ∧ ¬(x.lock.rwCount < 0 ∧ x.lock.writeOwner ≠ some t) := by
    rcases h.holder ht with ⟨hc,-⟩ | ⟨hc,-,-,ho⟩
    · exact ⟨by omega,fun hn => by omega⟩
    · exact ⟨by omega,fun hn => hn.2 ho⟩
  have hmagic : ¬x.lock.magic = false := by
    rw [h.magic]
    decide
  rw [losRwlockUnLock, if_neg (not_not.mpr hcheck), if_neg hmagic, if_neg hmode.1, if_neg hmode.2]
  split_ifs with h1 h2
  · exact .inl ⟨h1,rfl⟩
  · exact .inr (.inl ⟨h2,rfl⟩)
  · exact .inr (.inr ⟨by omega,postOp_result cmp x.lock⟩)

/-- The only hold is that of t. -/
private theorem RwInv.last_hold (h : RwInv sys x) (ht : t ∈ x.reads ++ x.writes) (hc : x.lock.rwCount = 1 ∨ x.lock.rwCount = -1) :
    (if 0 < x.lock.rwCount then x.reads.erase t else x.reads) = [] ∧
    (if 0 < x.lock.rwCount then x.writes else x.writes.erase t) = [] ∧ (x.reads ++ x.writes).erase t = [] := by
  rcases h.holder ht with ⟨hpos,hm,hw⟩ | ⟨hneg,hm,hr,-⟩
  · have hlen := (h.read hpos).1
    have he : x.reads = [t] := by
      obtain ⟨a,ha⟩ := List.length_eq_one_iff.mp (show x.reads.length = 1 by omega)
      rw [ha] at hm ⊢
      rw [List.mem_singleton.mp hm]
    simp [hpos, he, hw]
  · have hlen := (h.write hneg).1
    have he : x.writes = [t] := by
      obtain ⟨a,ha⟩ := List.length_eq_one_iff.mp (show x.writes.length = 1 by omega)
      rw [ha] at hm ⊢
      rw [List.mem_singleton.mp hm]
    rw [if_neg (by omega), if_neg (by omega)]
    simp [he, hr]

private theorem RwInv.resumed_append (h : RwInv sys x) (woken : List Nat) :
    ∀ r ∈ x.resumed ++ woken.map fun u => (⟨u,false,true⟩ : Resumed), r.timeout = !r.granted := by
  intro r hr
  rcases List.mem_append.mp hr with hr | hr
  · exact h.resumed r hr
  · obtain ⟨u,-,rfl⟩ := List.mem_map.mp hr
    rfl

/-- The invariant after the last hold was given up. -/
theorem RwInv.post (h : RwInv sys x) (ht : t ∈ x.reads ++ x.writes) (hc : x.lock.rwCount = 1 ∨ x.lock.rwCount = -1)
    {res : LosRwlock × List Nat × RwRet} (hr : PostResult cmp x.lock res) :
    RwInv sys (x.release t res).1 ∧ ((x.release t res).1.reads ++ (x.release t res).1.writes).Perm ((x.reads ++ x.writes).erase t ++ res.2.1) := by
  obtain ⟨h1,h2,h3⟩ := h.last_hold ht hc
  cases hr with
  | free =>
    refine ⟨⟨h.magic,nofun,nofun,?_,?_,fun _ => rfl,?_,h.waiters,h.resumed_append []⟩,?_⟩
    all_goals simp [RwHist.release, h1, h2, h3]
  | write w rest hl =>
    have hw : ∀ v ∈ x.lock.readList ++ rest, sys v.task = false := by
      intro v hv
      refine h.waiters v ?_
      rw [hl]
      rcases List.mem_append.mp hv with hv | hv
      · exact List.mem_append_left _ hv
      · exact List.mem_append_right _ (List.mem_cons_of_mem _ hv)
    have hsys : sys w.task = false := h.waiters w (by simp [hl])
    refine ⟨⟨h.magic,nofun,fun _ => ⟨?_,?_⟩,nofun,?_,nofun,?_,hw,h.resumed_append [w.task]⟩,?_⟩
    all_goals simp [RwHist.release, h1, h2, h3, hsys]
  | read l woken ret hm hne hret hok =>
    have hpos : 0 < woken.length := List.length_pos_iff.mpr hne
    have hpos' : (0 : Int) < woken.length := by omega
    have hsysm : ∀ u ∈ woken ++ l.map Waiter.task, sys u = false := by
      rw [← hm]
      intro u hu
      obtain ⟨v,hv,rfl⟩ := List.mem_map.mp hu
      exact h.waiters v (List.mem_append_left _ hv)
    have hw : ∀ v ∈ l ++ x.lock.writeList, sys v.task = false := by
      intro v hv
      rcases List.mem_append.mp hv with hv | hv
      · exact hsysm _ (List.mem_append_right _ (List.mem_map_of_mem hv))
      · exact h.waiters v (List.mem_append_right _ hv)
    refine ⟨⟨h.magic,fun _ => ⟨?_,?_⟩,fun hn => ?_,fun h0 => ?_,?_,fun _ => rfl,?_,hw,h.resumed_append woken⟩,?_⟩
    · simp [RwHist.release, h1, hpos]
    · simp [RwHist.release, h2, hpos]
    · simp only [RwHist.release] at hn
      omega
    · simp only [RwHist.release] at h0
      omega
    · simp [RwHist.release, h2, hpos]
    · intro u hu
      refine hsysm u (List.mem_append_left _ ?_)
      simpa [RwHist.release, h1, h2, hpos] using hu
    · simp [RwHist.release, h1, h2, h3, hpos]

/-- One hold of several is given up. -/
private theorem RwInv.release_one (h : RwInv sys x) (ht : t ∈ x.reads ++ x.writes) {c : Int}
    (hc : 1 < x.lock.rwCount ∧ c = x.lock.rwCount - 1 ∨ x.lock.rwCount < -1 ∧ c = x.lock.rwCount + 1) :
    RwInv sys (x.release t ({ x.lock with rwCount := c },[],.ok)).1 ∧
    ((x.release t ({ x.lock with rwCount := c },[],.ok)).1.reads ++
      (x.release t ({ x.lock with rwCount := c },[],.ok)).1.writes).Perm ((x.reads ++ x.writes).erase t ++ []) := by
  rcases h.holder ht with ⟨hpos,hm,hw⟩ | ⟨hneg,hm,hr,ho⟩
  · have hlen := (h.read hpos).1
    have hpos' : 0 < c := by omega
    have herase := List.length_erase_of_mem hm
    have hlpos := List.length_pos_of_mem hm
    refine ⟨⟨h.magic,fun _ => ⟨?_,?_⟩,fun hn => ?_,fun h0 => ?_,?_,fun _ => h.noOwner (by omega),?_,h.waiters,h.resumed_append []⟩,?_⟩
    · simp only [RwHist.release, if_pos hpos, if_pos hpos', List.append_nil, herase]
      omega
    · simp [RwHist.release, hpos, hpos', hw]
    · simp only [RwHist.release] at hn
      omega
    · simp only [RwHist.release] at h0
      omega
    · simp [RwHist.release, hpos, hpos', hw]
    · intro u hu
      simp only [RwHist.release, if_pos hpos, if_pos hpos', hw, List.append_nil] at hu
      exact h.system u (List.mem_append_left _ (List.mem_of_mem_erase hu))
    · simp [RwHist.release, hpos, hpos', hw]
  · have hlen := (h.write hneg).1
    have hneg' : c < 0 := by omega
    have hnp : ¬0 < x.lock.rwCount := by omega
    have hnp' : ¬0 < c := by omega
    have herase := List.length_erase_of_mem hm
    have hlpos := List.length_pos_of_mem hm
    refine ⟨⟨h.magic,fun hn => ?_,fun _ => ⟨?_,?_⟩,fun h0 => ?_,?_,fun h0 => ?_,?_,h.waiters,h.resumed_append []⟩,?_⟩
    · simp only [RwHist.release] at hn
      omega
    · simp only [RwHist.release, if_neg hnp, if_neg hnp', List.append_nil, herase]
      omega
    · simp [RwHist.release, hnp, hnp', hr]
    · simp only [RwHist.release] at h0
      omega
    · intro u hu
      simp only [RwHist.release, if_neg hnp, if_neg hnp', List.append_nil] at hu
      exact h.owner u (List.mem_of_mem_erase hu)
    · simp only [RwHist.release] at h0
      omega
    · intro u hu
      simp only [RwHist.release, if_neg hnp, if_neg hnp', hr, List.append_nil, List.nil_append] at hu
      exact h.system u (List.mem_append_right _ (List.mem_of_mem_erase hu))
    · simp [RwHist.release, hnp, hnp', hr]

/-- An unlock by a holder keeps the invariant and its promise. -/
theorem RwInv.unLock (h : RwInv sys x) (hp : (RwCall.unLock cmp ctx t).Pre sys x) :
    RwInv sys ((RwCall.unLock cmp ctx t).run x).1 ∧ ((RwCall.unLock cmp ctx t).Ok x → (RwCall.unLock cmp ctx t).Law x) := by
  have ht := hp.2.2
  rcases unLock_result h hp with ⟨hc,he⟩ | ⟨hc,he⟩ | ⟨hc,hr⟩
  · obtain ⟨h1,h2⟩ := h.release_one ht (.inl ⟨hc,rfl⟩)
    simp only [RwCall.run, RwCall.Law, he]
    exact ⟨h1,fun _ => ⟨rfl,[],rfl,h2⟩⟩
  · obtain ⟨h1,h2⟩ := h.release_one ht (.inr ⟨hc,rfl⟩)
    simp only [RwCall.run, RwCall.Law, he]
    exact ⟨h1,fun _ => ⟨rfl,[],rfl,h2⟩⟩
  · obtain ⟨h1,h2⟩ := h.post ht hc hr
    simp only [RwCall.run, RwCall.Law]
    generalize losRwlockUnLock cmp x.lock ctx t = res at hr h1 h2
    cases hr with
    | free => exact ⟨h1,fun _ => ⟨rfl,[],rfl,h2⟩⟩
    | write w rest hl => exact ⟨h1,fun _ => ⟨rfl,[w.task],rfl,h2⟩⟩
    | read l woken ret hm hne hret hok =>
      rcases hret with rfl | rfl
      · exact ⟨h1,fun _ => ⟨rfl,woken,rfl,h2⟩⟩
      · exact ⟨h1,fun hle => nomatch hok (hle hc)⟩

theorem RwInv.expire (h : RwInv sys x) (t : Nat) {readList writeList : List Waiter} (hr : readList.Sublist x.lock.readList)
    (hw : writeList.Sublist x.lock.writeList) :
    RwInv sys { x with lock := { x.lock with readList := readList, writeList := writeList }, resumed := x.resumed ++ [⟨t,true,false⟩] } := by
  refine ⟨h.magic,h.read,h.write,h.free,h.owner,h.noOwner,h.system,fun w hm => ?_,fun r hm => ?_⟩
  · exact h.waiters w ((hr.append hw).subset hm)
  · rcases List.mem_append.mp hm with hm | hm
    · exact h.resumed r hm
    · rw [List.mem_singleton.mp hm]
      rfl

theorem RwCall.run_inv (h : RwInv sys x) (c : RwCall) (hp : c.Pre sys x) (hok : c.Ok x) : RwInv sys (c.run x).1 := by
  cases c with
  | rdLock cmp ctx t n => exact h.reader (rdLock_result cmp x.lock ctx t n) hp
  | tryRdLock cmp ctx t => exact h.reader (tryRdLock_result cmp x.lock ctx t) hp
  | wrLock cmp ctx t n => exact h.writer (wrLock_result cmp x.lock ctx t n) hp
  | tryWrLock cmp ctx t => exact h.writer (tryWrLock_result cmp x.lock ctx t) hp
  | unLock cmp ctx t => exact (h.unLock hp).1
  | expireReader w ops =>
    rw [run, hok]
    exact h.expire w.task List.erase_sublist (List.Sublist.refl _)
  | expireWriter w ops =>
    rw [run, hok]
    exact h.expire w.task (List.Sublist.refl _) List.erase_sublist
  | resume r =>
    exact ⟨h.magic,h.read,h.write,h.free,h.owner,h.noOwner,h.system,h.waiters,fun q hq => h.resumed q (List.mem_of_mem_erase hq)⟩

private theorem reader_law (x : RwHist) (t : Nat) (res : LosRwlock × Option RwRet) :
    ((x.reader t res).2 = some .ok → ((x.reader t res).1.reads ++ (x.reader t res).1.writes).Perm (t :: (x.reads ++ x.writes))) ∧
    ((x.reader t res).2 ≠ some .ok → (x.reader t res).1.reads ++ (x.reader t res).1.writes = x.reads ++ x.writes) := by
  refine ⟨fun hr => ?_,fun hr => ?_⟩
  · simp only [RwHist.reader] at hr ⊢
    rw [if_pos hr]
    exact List.Perm.refl _
  · simp only [RwHist.reader] at hr ⊢
    rw [if_neg hr]

private theorem writer_law (x : RwHist) (t : Nat) (res : LosRwlock × Option RwRet) :
    ((x.writer t res).2 = some .ok → ((x.writer t res).1.reads ++ (x.writer t res).1.writes).Perm (t :: (x.reads ++ x.writes))) ∧
    ((x.writer t res).2 ≠ some .ok → (x.writer t res).1.reads ++ (x.writer t res).1.writes = x.reads ++ x.writes) := by
  refine ⟨fun hr => ?_,fun hr => ?_⟩
  · simp only [RwHist.writer] at hr ⊢
    rw [if_pos hr]
    exact List.perm_middle
  · simp only [RwHist.writer] at hr ⊢
    rw [if_neg hr]

theorem RwCall.law (h : RwInv sys x) (c : RwCall) (hp : c.Pre sys x) (hok : c.Ok x) : c.Law x := by
  cases c with
  | rdLock cmp ctx t n => exact reader_law _ _ _
  | tryRdLock cmp ctx t => exact reader_law _ _ _
  | wrLock cmp ctx t n => exact writer_law _ _ _
  | tryWrLock cmp ctx t => exact writer_law _ _ _
  | unLock cmp ctx t => exact (h.unLock hp).2 hok
  | expireReader w ops => exact rfl
  | expireWriter w ops => exact rfl
  | resume r =>
    have hr := h.resumed r hp
    simp only [Law, run, hr]
    cases r.granted <;> simp

/-- The sign and the amount of the count say who holds the lock. -/
structure RwExclusion (x : RwHist) : Prop where
  read : 0 < x.lock.rwCount ↔ x.reads ≠ [] ∧ (x.reads.length : Int) = x.lock.rwCount ∧ x.writes = []
  write : x.lock.rwCount < 0 ↔ x.writes ≠ [] ∧ (x.writes.length : Int) = -x.lock.rwCount ∧ x.reads = [] ∧
    ∀ t ∈ x.writes, x.lock.writeOwner = some t
  free : x.lock.rwCount = 0 ↔ x.reads = [] ∧ x.writes = []

private theorem RwInv.exclusion (h : RwInv sys x) : RwExclusion x := by
  refine ⟨⟨fun hc => ?_,fun hr => ?_⟩,⟨fun hc => ?_,fun hw => ?_⟩,⟨h.free,fun hf => ?_⟩⟩
  · obtain ⟨h1,h2⟩ := h.read hc
    refine ⟨?_,h1,h2⟩
    rintro he
    rw [he, List.length_nil] at h1
    omega
  · have := List.length_pos_iff.mpr hr.1
    omega
  · obtain ⟨h1,h2⟩ := h.write hc
    refine ⟨?_,h1,h2,h.owner⟩
    rintro he
    rw [he, List.length_nil] at h1
    omega
  · have := List.length_pos_iff.mpr hw.1
    omega
  · rcases lt_trichotomy x.lock.rwCount 0 with hc | hc | hc
    · have := (h.write hc).1
      rw [hf.2, List.length_nil] at this
      omega
    · exact hc
    · have := (h.read hc).1
      rw [hf.1, List.length_nil] at this
      omega

/-- The calls on a new lock. -/
def rwSystem (sys : Nat → Bool) : Run.System RwHist RwCall where
  init x := x = ⟨losRwlockInit,[],[],[]⟩
  pre x c := c.Pre sys x
  run x c := (c.run x).1

abbrev RwReachable (ok : RwHist → RwCall → Prop) (sys : Nat → Bool) := Run.Reachable (rwSystem sys) ok

private theorem rw_init : RwReachable ok sys ⟨losRwlockInit,[],[],[]⟩ := .init rfl

private theorem rwInv_init : RwInv sys ⟨losRwlockInit,[],[],[]⟩ :=
  ⟨rfl,nofun,nofun,fun _ => ⟨rfl,rfl⟩,nofun,fun _ => rfl,nofun,nofun,nofun⟩

private theorem rwInv_of_reachable (h : RwReachable (fun x c => c.Ok x) sys x) : RwInv sys x :=
  h.invariant (fun _ hx => hx ▸ rwInv_init) fun _ c hx hp hok => c.run_inv hx hp hok

/-- Along every run whose calls meet the condition the lock excludes, and each call keeps its promise. -/
theorem rwlock_exclusion (sys : Nat → Bool) (x : RwHist) (h : RwReachable (fun x c => c.Ok x) sys x) :
    RwExclusion x ∧ ∀ c : RwCall, c.Pre sys x → c.Ok x → c.Law x :=
  have hinv := rwInv_of_reachable h
  ⟨hinv.exclusion,fun c hp hok => c.law hinv hp hok⟩

/-- A task context that may wait. -/
def taskContext : PendContext := ⟨false,false,true⟩

/-- A writer, and a reader that waits behind it and gets the lock. -/
theorem rwlock_exclusion_writer_reader : ∃ x, RwReachable (fun x c => c.Ok x) (fun _ => false) x ∧ x.reads = [2] ∧
    RwExclusion x ∧ ∀ c : RwCall, c.Pre (fun _ => false) x → c.Ok x → c.Law x := by
  have h1 : RwReachable (fun x c => c.Ok x) (fun _ => false) _ :=
    rw_init.call (RwCall.wrLock (fun _ _ => 0) taskContext 1 LOS_WAIT_FOREVER) rfl trivial
  have h2 : RwReachable (fun x c => c.Ok x) (fun _ => false) _ :=
    .call h1 (.rdLock (fun _ _ => 0) taskContext 2 LOS_WAIT_FOREVER) rfl trivial
  have h3 : RwReachable (fun x c => c.Ok x) (fun _ => false) _ :=
    .call h2 (.unLock (fun _ _ => 0) taskContext 1) ⟨rfl,rfl,by decide⟩ (fun _ => by decide)
  exact ⟨_,h3,by decide,rwlock_exclusion _ _ h3⟩

/-- Tasks of one priority wait in the order in which they come. -/
private theorem lockPend_zero (w : Waiter) (l : List Waiter) : lockPend (fun _ _ => 0) w l = l ++ [w] := by
  cases l with
  | nil => rfl
  | cons a l =>
    unfold lockPend
    simp only [List.getLast?_cons]
    rfl

/-- The lock is held by the writer 0, and n readers wait behind it. -/
def readersWait (n : Nat) : RwHist :=
  ⟨⟨true,-1,some 0,(List.range n).map fun i => ⟨i+1,LOS_WAIT_FOREVER⟩,[]⟩,[],[],[0]⟩

private theorem readersWait_reachable : ∀ n, RwReachable (fun _ _ => True) (fun _ => false) (readersWait n)
  | 0 => rw_init.call (RwCall.wrLock (fun _ _ => 0) taskContext 0 LOS_WAIT_FOREVER) rfl trivial
  | n+1 => by
    have h := (readersWait_reachable n).call (RwCall.rdLock (fun _ _ => 0) taskContext (n+1) LOS_WAIT_FOREVER) rfl trivial
    have he : ((RwCall.rdLock (fun _ _ => 0) taskContext (n+1) LOS_WAIT_FOREVER).run (readersWait n)).1 = readersWait (n+1) := by
      simp [RwCall.run, RwHist.reader, losRwlockRdLock, osRwlockCheck, taskContext, readersWait, osRwlockRdPendOp, lockPend_zero,
        LOS_WAIT_FOREVER, List.range_succ]
    exact he ▸ h

/-- With 128 waiting readers the unlock of the writer returns EINVAL. -/
theorem rwlock_law_fails_128_readers :
    ¬ ∀ sys x, RwReachable (fun _ _ => True) sys x → RwExclusion x ∧ ∀ c : RwCall, c.Pre sys x → c.Law x := by
  intro hall
  have h := (hall _ _ (readersWait_reachable 128)).2 (.unLock (fun _ _ => 0) taskContext 0) ⟨rfl,rfl,List.mem_singleton.mpr rfl⟩
  exact absurd h.1 (by decide +kernel)

end LiteOsKernel.Ipc.Rwlock
