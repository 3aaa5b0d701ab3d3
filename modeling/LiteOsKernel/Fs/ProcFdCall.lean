import LiteOsKernel.Fs.ProcFdRun

/-! CopyFdToProc and CloseProcFd as whole calls, with nothing in between. -/
namespace LiteOsKernel.Fs
open Function

/-- What the steps of a call are told: which semaphores can be taken, and which queues are there. -/
structure FdAnswers where
  sem : Nat → Bool
  queue : Int → Bool

def FdAnswers.answer (ans : FdAnswers) : FdPc → Bool
  | .copyAssign _ _ id => ans.sem id
  | .closeClear _ _ id => ans.sem id
  | .copyRefer sysFd _ => ans.queue sysFd
  | .copyUndo sysFd _ _ => ans.queue sysFd
  | .closeRefs sysFd _ => ans.queue sysFd
  | _ => true

/-- The steps of a call up to its end; no call takes more than five. -/
def fdSteps (ans : FdAnswers) : Nat → FdState → FdPc → Int × FdState
  | _, s, .done result => (result,s)
  | 0, s, _ => (VFS_ERROR,s)
  | n+1, s, pc => fdSteps ans n (fdStep s (ans.answer pc) pc).2 (fdStep s (ans.answer pc) pc).1

def copyFdToProc (ans : FdAnswers) (s : FdState) (p : Nat) (fd : Int) (targetPid : Nat) : Int × FdState :=
  fdSteps ans 5 s (.copyGet p fd targetPid)

def closeProcFd (ans : FdAnswers) (s : FdState) (procFd : Int) (targetPid : Nat) : Int × FdState :=
  fdSteps ans 5 s (.closeTable procFd targetPid)

/-- A descriptor of one process can be copied to another one, which gets it as its lowest free descriptor from 3 on. -/
structure FdCopy (ans : FdAnswers) (s : FdState) (p : Nat) (fd : Int) (targetPid id d : Nat) (fdt : FdTable) : Prop where
  pid : targetPid < s.processMaxNum
  sys : 0 ≤ s.getAssociatedSystemFd p fd
  files : s.getProcessFTable targetPid = some id
  table : s.tables id = some fdt
  sem : ans.sem id = true
  free : LowestFree fdt 3 d

def FdState.withRefs (s : FdState) (refs : Int → Int) : FdState := { s with refs := refs }

/-- The state after a copy: a reference, and the new entry. -/
def FdState.copied (ans : FdAnswers) (s : FdState) (sysFd : Int) (id d : Nat) (fdt : FdTable) : FdState :=
  (s.addRefs sysFd (s.fdRefer sysFd (ans.queue sysFd))).setTable id (fdt.occupy d sysFd)

section
variable {ans : FdAnswers} {s v : FdState} {p targetPid id d m : Nat} {fd sysFd : Int} {fdt : FdTable}

private theorem assignProcessFd_isSome (h : LowestFree fdt m d) : assignProcessFd fdt m = some d := by
  have hle := h.le
  have hlt := h.lt
  have hmem : d ∈ List.range' m (fdt.maxFds - m) := List.mem_range'_1.mpr ⟨hle,by omega⟩
  rw [assignProcessFd, if_neg (by omega), List.find?_range'_eq_some]
  refine ⟨by rw [h.free]; rfl,hmem,fun e he hed => ?_⟩
  rw [h.least e he hed]
  rfl

private theorem FdCopy.assign (h : FdCopy ans s p fd targetPid id d fdt) : assignProcessFd fdt 3 = some d := assignProcessFd_isSome h.free

private theorem FdState.getProcessFTable_addRefs (s : FdState) (sysFd n : Int) (pid : Nat) :
    (s.addRefs sysFd n).getProcessFTable pid = s.getProcessFTable pid := rfl

private theorem FdState.tables_addRefs (s : FdState) (sysFd n : Int) : (s.addRefs sysFd n).tables = s.tables := rfl

/-- A descriptor that can be copied is copied. -/
theorem FdCopy.copyFdToProc (h : FdCopy ans s p fd targetPid id d fdt) :
    copyFdToProc ans s p fd targetPid = ((d : Int),s.copied ans (s.getAssociatedSystemFd p fd) id d fdt) := by
  have hpid : ¬ s.processMaxNum ≤ targetPid := Nat.not_le.mpr h.pid
  have hsys : ¬ s.getAssociatedSystemFd p fd < 0 := not_lt.mpr h.sys
  simp only [Fs.copyFdToProc, fdSteps, fdStep, FdAnswers.answer, if_neg hpid, if_neg hsys,
    FdState.getProcessFTable_addRefs, h.files, FdState.tables_addRefs, h.table, h.sem, Bool.true_eq_false, if_false, h.assign,
    FdState.copied]

/-- A call that failed with at most the references changed. -/
def FdFailed (s : FdState) (r : Int × FdState) : Prop := r.1 < 0 ∧ ∃ refs, r.2 = s.withRefs refs

theorem copyFdToProc_failed (h : ¬ ∃ id d fdt, FdCopy ans s p fd targetPid id d fdt) : FdFailed s (copyFdToProc ans s p fd targetPid) := by
  by_cases hpid : s.processMaxNum ≤ targetPid
  · simp only [copyFdToProc, fdSteps, fdStep, if_pos hpid]
    exact ⟨(by decide : -EINVAL < 0),_,rfl⟩
  by_cases hsys : s.getAssociatedSystemFd p fd < 0
  · simp only [copyFdToProc, fdSteps, fdStep, if_neg hpid, if_pos hsys]
    exact ⟨(by decide : -EBADF < 0),_,rfl⟩
  cases hfiles : s.getProcessFTable targetPid with
  | none =>
    simp only [copyFdToProc, fdSteps, fdStep, if_neg hpid, if_neg hsys, FdState.getProcessFTable_addRefs, hfiles]
    exact ⟨(by decide : -EPERM < 0),_,rfl⟩
  | some id =>
    cases htable : s.tables id with
    | none =>
      simp only [copyFdToProc, fdSteps, fdStep, if_neg hpid, if_neg hsys, FdState.getProcessFTable_addRefs, hfiles,
        FdState.tables_addRefs, htable]
      exact ⟨(by decide : -ESRCH < 0),_,rfl⟩
    | some fdt =>
      by_cases hsem : ans.sem id = false
      · simp only [copyFdToProc, fdSteps, fdStep, FdAnswers.answer, if_neg hpid, if_neg hsys,
          FdState.getProcessFTable_addRefs, hfiles, FdState.tables_addRefs, htable, hsem, if_true]
        exact ⟨(by decide : -ESRCH < 0),_,rfl⟩
      cases hassign : assignProcessFd fdt 3 with
      | none =>
        simp only [copyFdToProc, fdSteps, fdStep, FdAnswers.answer, if_neg hpid, if_neg hsys,
          FdState.getProcessFTable_addRefs, hfiles, FdState.tables_addRefs, htable, if_neg hsem, hassign]
        exact ⟨(by decide : -EPERM < 0),_,rfl⟩
      | some d =>
        exact absurd ⟨id,d,fdt,not_le.mp hpid,not_lt.mp hsys,hfiles,htable,(Bool.not_eq_false _).mp hsem,assignProcessFd_some hassign⟩ h

/-- An associated entry of a table whose semaphore can be taken is cleared. -/
theorem closeProcFd_clear (hpid : targetPid < s.processMaxNum) (hfiles : s.getProcessFTable targetPid = some id)
    (htable : s.tables id = some fdt) (hsem : ans.sem id = true) (hd : d < fdt.maxFds) (hsys : 0 ≤ fdt.sysFd d) :
    ∃ refs, (closeProcFd ans s d targetPid).2 = (s.setTable id (fdt.clear d)).withRefs refs := by
  have hvalid : isValidProcessFd fdt d = true := decide_eq_true ⟨Int.natCast_nonneg d,by omega⟩
  have hclear : (closeProcFd ans s d targetPid).2 = (s.setTable id (fdt.clear d)).addRefs (fdt.sysFd d)
      (-(s.setTable id (fdt.clear d)).fdClose (fdt.sysFd d) targetPid (ans.queue (fdt.sysFd d))) := by
    simp only [closeProcFd, fdSteps, fdStep, FdAnswers.answer, if_neg (Nat.not_le.mpr hpid), hfiles, htable, hsem, hvalid,
      Int.toNat_natCast, if_neg (not_lt.mpr hsys), Bool.true_eq_false, if_false]
  exact ⟨_,hclear⟩

theorem FdTable.clear_occupy (fdt : FdTable) (d : Nat) (sysFd : Int) : (fdt.occupy d sysFd).clear d = fdt.clear d := by
  rw [clear, occupy, clear, update_idem, update_idem]

/-- Clearing a descriptor leaves the table alone if it was free and clean before. -/
theorem FdTable.clear_eq_self_iff : fdt.clear d = fdt ↔ fdt.procFds d = false ∧ fdt.cloexecFds d = false ∧ fdt.sysFd d = -1 := by
  constructor
  · intro h
    rw [← h]
    exact ⟨update_self ..,update_self ..,update_self ..⟩
  · rintro ⟨hproc,hclo,hsys⟩
    rw [clear, ← hproc, update_eq_self, hproc, ← hclo, update_eq_self, ← hsys, update_eq_self]

end

end LiteOsKernel.Fs
