import LiteOsKernel.Ipc.RwlockRun
import LiteOsKernel.Lib.Run

/-! Who waits for a reader-writer lock along any run: readers wait for a writer only, and nobody waits for a free lock. -/
namespace LiteOsKernel.Ipc.Rwlock

variable {cmp : Compare} {lock : LosRwlock} {ctx : PendContext} {t n : Nat}

/-- The lock after a call. A timeout takes the task off its list, and a task that runs again leaves the lock as it is. -/
def RwCall.lockRun (lock : LosRwlock) : RwCall → LosRwlock
  | rdLock cmp ctx t timeout => (losRwlockRdLock cmp lock ctx t timeout).1
  | tryRdLock cmp ctx t => (losRwlockTryRdLock cmp lock ctx t).1
  | wrLock cmp ctx t timeout => (losRwlockWrLock cmp lock ctx t timeout).1
  | tryWrLock cmp ctx t => (losRwlockTryWrLock cmp lock ctx t).1
  | unLock cmp ctx t => (losRwlockUnLock cmp lock ctx t).1
  | expireReader w _ => { lock with readList := lock.readList.erase w }
  | expireWriter w _ => { lock with writeList := lock.writeList.erase w }
  | resume _ => lock

/-- Any task may call at any time, and those that wait for a bounded time may time out. -/
@[reducible] def lockSystem : Run.System LosRwlock RwCall where
  init lock := lock = losRwlockInit
  pre lock
    | .expireReader w _ => w ∈ lock.readList ∧ w.ticks ≠ LOS_WAIT_FOREVER
    | .expireWriter w _ => w ∈ lock.writeList ∧ w.ticks ≠ LOS_WAIT_FOREVER
    | _ => True
  run lock c := c.lockRun lock

/-- A lock that is free or in read mode, with room for another reader. -/
def HasRoom (lock : LosRwlock) : Prop := 0 ≤ lock.rwCount ∧ lock.rwCount < INT8_MAX

structure NoNeedlessWait (lock : LosRwlock) : Prop where
  readers : HasRoom lock → lock.writeList = [] → lock.readList = []
  free : lock.rwCount = 0 → lock.readList = [] ∧ lock.writeList = []

/-- The last writer that waits for a lock with room does not time out while readers wait, and no unlock makes room in a full lock
for which readers wait and no writer. -/
def RwCall.WaitOk (lock : LosRwlock) : RwCall → Prop
  | expireWriter w _ => lock.writeList = [w] → HasRoom lock → lock.readList = []
  | unLock _ ctx _ => osRwlockCheck ctx = .ok → lock.rwCount = INT8_MAX → lock.writeList = [] → lock.readList = []
  | _ => True

structure WaitInv (lock : LosRwlock) : Prop where
  magic : lock.magic = true
  law : NoNeedlessWait lock

/-- In write mode the law asks for nothing. -/
private theorem written (hm : lock.magic = true) (hc : lock.rwCount < 0) : WaitInv lock :=
  ⟨hm,fun hr => absurd hr.1 (not_le.mpr hc),fun h0 => absurd h0 hc.ne⟩

/-- A reader waits behind a holder in write mode, or behind a writer. -/
private theorem rdPendOp_wait (h : WaitInv lock) (b : Bool) (t n : Nat) : WaitInv (osRwlockRdPendOp cmp lock b t n).1 := by
  rw [osRwlockRdPendOp]
  split_ifs with h1 h2 h3 h4 h5
  · exact h
  · refine ⟨h.magic,fun hr hw => h.law.readers ⟨h1.1,?_⟩ hw,fun hc => ?_⟩
    · have : lock.rwCount + 1 < INT8_MAX := hr.2
      omega
    · have : lock.rwCount + 1 = 0 := hc
      have := h1.1
      omega
  · exact h
  · exact h
  · exact h
  · -- in read mode the first writer is not behind the reader, so there is one
    have hbehind : 0 ≤ lock.rwCount → lock.writeList ≠ [] := by
      intro hc hw
      exact h1 ⟨hc,by rw [hw]; rfl⟩
    refine ⟨h.magic,fun hr hw => absurd hw (hbehind hr.1),fun hc => ?_⟩
    exact absurd (h.law.free hc).2 (hbehind (le_of_eq (Eq.symm hc)))

private theorem wrPendOp_wait (h : WaitInv lock) (b : Bool) (t n : Nat) : WaitInv (osRwlockWrPendOp cmp lock b t n).1 := by
  rw [osRwlockWrPendOp]
  split_ifs with h1 h2 h3 h4 h5
  · exact written h.magic (show (-1 : Int) < 0 by decide)
  · exact h
  · exact written h.magic (show lock.rwCount - 1 < 0 by omega)
  · exact h
  · exact h
  · refine ⟨h.magic,fun _ hw => ?_,fun hc => absurd hc h1⟩
    have := (lockPend_perm cmp ⟨t,n⟩ lock.writeList).length_eq
    rw [show lockPend cmp ⟨t,n⟩ lock.writeList = [] from hw] at this
    cases this

/-- Where no writer stops them, readers wait on only for a full lock. -/
private theorem wakeReaders_rest {stop : Nat → Bool} (hstop : ∀ t, stop t = false) (l : List Waiter) (c : Int) :
    (wakeReaders stop c l).1 < INT8_MAX → (wakeReaders stop c l).2.1 = [] := by
  induction l generalizing c with
  | nil => exact fun _ => rfl
  | cons w l ih =>
    rw [wakeReaders, hstop, if_neg (by decide)]
    split_ifs with hc
    · intro hlt
      exact absurd hlt (by rw [hc]; exact lt_irrefl _)
    · exact ih (c + 1)

private theorem wakeReaders_le (stop : Nat → Bool) (l : List Waiter) (c : Int) : c ≤ (wakeReaders stop c l).1 := by
  obtain ⟨l',woken,ret,he,-⟩ := wakeReaders_spec stop l c
  rw [he]
  simp only
  omega

private theorem postOp_wait (cmp : Compare) (hm : lock.magic = true) : WaitInv (osRwlockPostOp cmp lock).1 := by
  obtain ⟨magic,c,o,readList,writeList⟩ := lock
  cases readList with
  | nil =>
    cases writeList with
    | nil => exact ⟨hm,fun _ _ => rfl,fun _ => ⟨rfl,rfl⟩⟩
    | cons w rest => exact written hm (show (-1 : Int) < 0 by decide)
  | cons r readers =>
    cases writeList with
    | nil =>
      refine ⟨hm,fun hr _ => wakeReaders_rest (fun _ => rfl) readers 1 hr.2,fun hc => ?_⟩
      have := wakeReaders_le (stopAt cmp .read []) readers 1
      rw [show (wakeReaders (stopAt cmp .read []) 1 readers).1 = 0 from hc] at this
      exact absurd this (by decide)
    | cons w rest =>
      simp only [osRwlockPostOp, osRwlockGetMode]
      by_cases hc : cmp w.task r.task ≤ 0
      · rw [if_pos hc]
        exact written hm (show (-1 : Int) < 0 by decide)
      · rw [if_neg hc]
        refine ⟨hm,fun _ hw => absurd hw (List.cons_ne_nil w rest),fun hc => ?_⟩
        have := wakeReaders_le (stopAt cmp .readFirst (w :: rest)) readers 1
        rw [show (wakeReaders (stopAt cmp .readFirst (w :: rest)) 1 readers).1 = 0 from hc] at this
        exact absurd this (by decide)

/-- An unlock of a full lock is the one that can leave readers behind. -/
private theorem unLock_wait (h : WaitInv lock) (cmp : Compare) (ctx : PendContext) (t : Nat) :
    ((RwCall.unLock cmp ctx t).WaitOk lock ↔ NoNeedlessWait (losRwlockUnLock cmp lock ctx t).1) ∧
      (losRwlockUnLock cmp lock ctx t).1.magic = true := by
  rw [losRwlockUnLock]
  split_ifs with h1 h2 h3 h4 h5 h6
  · exact ⟨iff_of_true (fun hc => absurd hc h1) h.law,h.magic⟩
  · exact absurd h.magic (by rw [h2]; decide)
  · exact ⟨iff_of_true (fun _ hc => absurd (hc.symm.trans h3) (by decide)) h.law,h.magic⟩
  · refine ⟨iff_of_true (fun _ hc => ?_) h.law,h.magic⟩
    exact absurd h4.1 (by rw [hc]; decide)
  · rw [not_not] at h1
    refine ⟨⟨fun hok => ⟨fun hr hw => ?_,fun hc => ?_⟩,fun hlaw _ hfull hw => ?_⟩,h.magic⟩
    · by_cases hfull : lock.rwCount = INT8_MAX
      · exact hok h1 hfull hw
      · have : lock.rwCount - 1 < INT8_MAX := hr.2
        exact h.law.readers ⟨by omega,by omega⟩ hw
    · have : lock.rwCount - 1 = 0 := hc
      omega
    · have hlt : (0 : Int) ≤ INT8_MAX - 1 ∧ INT8_MAX - 1 < INT8_MAX := by decide
      rw [← hfull] at hlt
      exact hlaw.readers ⟨hlt.1,hfull ▸ hlt.2⟩ hw
  · have hw : WaitInv { lock with rwCount := lock.rwCount + 1 } := written h.magic (show lock.rwCount + 1 < 0 by omega)
    refine ⟨iff_of_true (fun _ hc => ?_) hw.law,h.magic⟩
    rw [hc] at h6
    exact absurd h6 (by decide)
  · have hpost := postOp_wait cmp h.magic
    refine ⟨iff_of_true (fun _ hc => ?_) hpost.law,hpost.magic⟩
    rw [hc] at h5
    exact absurd (by decide : (1 : Int) < INT8_MAX) h5

private theorem lockRun_wait (h : WaitInv lock) (c : RwCall) (hp : lockSystem.pre lock c) :
    (c.WaitOk lock ↔ NoNeedlessWait (c.lockRun lock)) ∧ (c.lockRun lock).magic = true := by
  have hkeep : ∀ {c : RwCall}, c.WaitOk lock → WaitInv (c.lockRun lock) →
      (c.WaitOk lock ↔ NoNeedlessWait (c.lockRun lock)) ∧ (c.lockRun lock).magic = true :=
    fun hok hi => ⟨iff_of_true hok hi.law,hi.magic⟩
  cases c with
  | rdLock cmp ctx t timeout =>
    refine hkeep trivial ?_
    simp only [RwCall.lockRun, losRwlockRdLock]
    split_ifs
    · exact h
    · exact h
    · exact rdPendOp_wait h ctx.preemptable t timeout
  | tryRdLock cmp ctx t =>
    refine hkeep trivial ?_
    simp only [RwCall.lockRun, losRwlockTryRdLock]
    split_ifs
    · exact h
    · exact h
    · exact h
    · exact h
    · exact h
    · exact rdPendOp_wait h ctx.preemptable t 0
  | wrLock cmp ctx t timeout =>
    refine hkeep trivial ?_
    simp only [RwCall.lockRun, losRwlockWrLock]
    split_ifs
    · exact h
    · exact h
    · exact wrPendOp_wait h ctx.preemptable t timeout
  | tryWrLock cmp ctx t =>
    refine hkeep trivial ?_
    simp only [RwCall.lockRun, losRwlockTryWrLock]
    split_ifs
    · exact h
    · exact h
    · exact h
    · exact h
    · exact wrPendOp_wait h ctx.preemptable t 0
  | unLock cmp ctx t => exact unLock_wait h cmp ctx t
  | expireReader w ops =>
    refine hkeep trivial ⟨h.magic,fun hr hw => ?_,fun hc => ?_⟩
    · have := h.law.readers hr hw
      exact (congrArg (List.erase · w) this).trans rfl
    · obtain ⟨hl,hw⟩ := h.law.free hc
      exact ⟨(congrArg (List.erase · w) hl).trans rfl,hw⟩
  | expireWriter w ops =>
    have hlast : lock.writeList.erase w = [] ↔ lock.writeList = [w] := by
      refine ⟨fun he => ?_,fun he => by rw [he, List.erase_cons_head]⟩
      have hperm := List.perm_cons_erase hp.1
      rw [he] at hperm
      exact List.perm_singleton.mp hperm
    refine ⟨⟨fun hok => ⟨fun hr hw => hok (hlast.mp hw) hr,fun hc => ?_⟩,fun hlaw hw hr => hlaw.readers hr (hlast.mpr hw)⟩,h.magic⟩
    exact absurd (h.law.free hc).2 (List.ne_nil_of_mem hp.1)
  | resume r => exact hkeep trivial h

/-- Along every run whose calls meet the condition nobody waits needlessly, and a call that does not meet it leaves a reader waiting. -/
theorem noNeedlessWait_of_reachable (lock : LosRwlock) (h : Run.Reachable lockSystem (fun lock c => c.WaitOk lock) lock) :
    NoNeedlessWait lock ∧ ∀ c, lockSystem.pre lock c → (c.WaitOk lock ↔ NoNeedlessWait (c.lockRun lock)) := by
  have hi : WaitInv lock := by
    refine h.invariant ?_ fun lock c hl hp hok => ?_
    · rintro lock rfl
      exact ⟨rfl,fun _ _ => rfl,fun _ => ⟨rfl,rfl⟩⟩
    · obtain ⟨hiff,hm⟩ := lockRun_wait hl c hp
      exact ⟨hm,hiff.mp hok⟩
  exact ⟨hi.law,fun c hp => (lockRun_wait hi c hp).1⟩

/-- Task 1 reads, task 2 waits to write and task 3 waits to read behind it, until task 1 unlocks. -/
theorem noNeedlessWait_writer_first : ∃ lock, Run.Reachable lockSystem (fun lock c => c.WaitOk lock) lock ∧
    lock.writeOwner = some 2 ∧ lock.readList = [⟨3,9⟩] ∧ NoNeedlessWait lock ∧
      ∀ c, lockSystem.pre lock c → (c.WaitOk lock ↔ NoNeedlessWait (c.lockRun lock)) := by
  have h0 : Run.Reachable lockSystem (fun lock c => c.WaitOk lock) losRwlockInit := .init rfl
  have h1 : Run.Reachable lockSystem (fun lock c => c.WaitOk lock) _ :=
    .call h0 (.rdLock (fun _ _ => 0) taskContext 1 9) trivial trivial
  have h2 : Run.Reachable lockSystem (fun lock c => c.WaitOk lock) _ :=
    .call h1 (.wrLock (fun _ _ => 0) taskContext 2 9) trivial trivial
  have h3 : Run.Reachable lockSystem (fun lock c => c.WaitOk lock) _ :=
    .call h2 (.rdLock (fun _ _ => 0) taskContext 3 9) trivial trivial
  have h4 : Run.Reachable lockSystem (fun lock c => c.WaitOk lock) _ :=
    .call h3 (.unLock (fun _ _ => 0) taskContext 1) trivial (fun _ hc => absurd hc (by decide))
  exact ⟨_,h4,by decide,by decide,noNeedlessWait_of_reachable _ h4⟩

/-- The writer times out, and task 3 goes on waiting for a lock that another task reads. -/
theorem noNeedlessWait_fails_timeout : ¬ ∀ lock, Run.Reachable lockSystem (fun _ _ => True) lock → NoNeedlessWait lock := by
  intro hall
  have h0 : Run.Reachable lockSystem (fun _ _ => True) losRwlockInit := .init rfl
  have h1 : Run.Reachable lockSystem (fun _ _ => True) _ := .call h0 (.rdLock (fun _ _ => 0) taskContext 1 9) trivial trivial
  have h2 : Run.Reachable lockSystem (fun _ _ => True) _ := .call h1 (.wrLock (fun _ _ => 0) taskContext 2 9) trivial trivial
  have h3 : Run.Reachable lockSystem (fun _ _ => True) _ := .call h2 (.rdLock (fun _ _ => 0) taskContext 3 9) trivial trivial
  have h4 : Run.Reachable lockSystem (fun _ _ => True) _ := .call h3 (.expireWriter ⟨2,9⟩ .hpf) (by decide) trivial
  exact absurd ((hall _ h4).readers (by rw [HasRoom]; decide) (by decide)) (by decide)

end LiteOsKernel.Ipc.Rwlock
