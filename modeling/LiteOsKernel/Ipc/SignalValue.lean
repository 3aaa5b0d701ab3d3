import LiteOsKernel.Ipc.SignalRun
import LiteOsKernel.Lib.Keyed

/-! The values of signals: a send keeps its info in tmpInfoList under its number, and handler entries and waits take it from
there. -/
namespace LiteOsKernel.Ipc.Signal

/-- The signo and the sigVal of OsInitSignalContext. The value is read before OsMoveTmpInfoToUnbInfo. -/
def osInitSignalContextArgs (p : SigProcess) (tcb sigIntLock : Nat) (killed : Bool) (sigHandler : Nat) : Option (Nat × Nat) :=
  (osSaveSignalContext p tcb sigIntLock killed sigHandler).2.map fun signo => (signo,(p.sig tcb).sigunbinfo.sival_ptr % 2^32)

/-- The info that the list keeps for a number. -/
def SigCb.entry (s : SigCb) (signo : Nat) : Option SigInfo := Keyed.lookup SigInfo.si_signo s.tmpInfoList signo

/-- The task waits for the signal. -/
def SigCb.Awaits (s : SigCb) (signo : Nat) : Prop := s.waiting = true ∧ osSigIsMember s.sigwaitmask signo = true

instance (s : SigCb) (signo : Nat) : Decidable (s.Awaits signo) := inferInstanceAs (Decidable (_ ∧ _))

/-- A task with a fixed mask that makes no entry to the shared set of its process. -/
def alone (s : SigCb) : SigProcess := ⟨0,[0],fun _ => s⟩

/-- The task, the latest send of each number that has not been consumed, and the send that ended the wait the task is in. -/
structure ValueHist where
  s : SigCb
  sent : Nat → Option SigInfo
  handed : Option SigInfo

inductive ValueCall where
  | send (info : SigInfo) (alloc : Bool)
  | saveContext (sigIntLock : Nat) (killed : Bool) (sigHandler : Nat)
  | restorContext
  | sigTimedWait (set : BitVec 64) (info : Bool)
  | expire (ops : SchedOps)
  | resume

namespace ValueHist

/-- A send that returned: it is handed to the wait that it ended, or it is the latest of its number. -/
def send (x : ValueHist) (info : SigInfo) (r : SigCb × Int) : ValueHist :=
  if r.2 ≠ 0 ∨ info.si_signo = 0 then { x with s := r.1 }
  else if x.s.waiting = true ∧ r.1.waiting = false then ⟨r.1,Function.update x.sent info.si_signo none,some info⟩
  else { x with s := r.1, sent := Function.update x.sent info.si_signo (some info) }

def consume (x : ValueHist) (signo : Nat) (s : SigCb) : ValueHist := { x with s := s, sent := Function.update x.sent signo none }

end ValueHist

/-- The numbers of the list are distinct, and each number that is set has an entry. -/
structure TmpLaw (s : SigCb) : Prop where
  distinct : Keyed.Distinct SigInfo.si_signo s.tmpInfoList
  entry : ∀ k, (s.sigFlag ||| s.sigPendFlag).getLsbD k = true → s.entry (k + 1) ≠ none

/-- The lowest number of the set. -/
def Lowest (set : BitVec 64) (signo : Nat) : Prop :=
  ∃ k, signo = k + 1 ∧ set.getLsbD k = true ∧ ∀ j, set.getLsbD j = true → k ≤ j

namespace ValueCall

def run (x : ValueHist) : ValueCall → ValueHist
  | send info alloc => x.send info (osTcbDispatch x.s info alloc)
  | saveContext sigIntLock killed sigHandler =>
    let r := osSaveSignalContext (alone x.s) 0 sigIntLock killed sigHandler
    match r.2 with
    | some signo => x.consume signo (r.1.sig 0)
    | none => { x with s := r.1.sig 0 }
  | restorContext => { x with s := (osRestorSignalContext (alone x.s) 0).sig 0 }
  | sigTimedWait set info =>
    let r := osSigTimedWaitNoLock x.s set info
    match r.2 with
    | some ret => x.consume ret.toNat r.1
    | none => { x with s := r.1, handed := none }
  | expire ops => { x with s := sigTimeout x.s ops }
  | resume => { x with s := (sigWaitReturn x.s).1, handed := none }

/-- Senders check the number, a task that is in a wait makes no call, and one that has left waitList runs. -/
def Pre (x : ValueHist) : ValueCall → Prop
  | send info _ => goodSigno info.si_signo = true
  | saveContext .. | restorContext | sigTimedWait .. => x.s.call = none
  | expire _ => x.s.waiting = true
  | resume => x.s.waiting = false ∧ x.s.call ≠ none

/-- What a handler and a wait are given is the latest send of the number that is chosen, and the lowest number is chosen. -/
def Gives (x : ValueHist) : ValueCall → Prop
  | saveContext sigIntLock killed sigHandler =>
    ∀ r ∈ osInitSignalContextArgs (alone x.s) 0 sigIntLock killed sigHandler,
      Lowest x.s.sigFlag r.1 ∧ ∃ i, x.sent r.1 = some i ∧ r.2 = i.sival_ptr % 2^32
  | sigTimedWait set info =>
    ∀ ret ∈ (osSigTimedWaitNoLock x.s set info).2, Lowest (x.s.sigPendFlag &&& set) ret.toNat ∧
      (info = true → x.sent ret.toNat = some (osSigTimedWaitNoLock x.s set info).1.sigunbinfo)
  | resume => x.s.call = some true → (sigWaitReturn x.s).2 = 0 → x.handed = some (sigWaitReturn x.s).1.sigunbinfo
  | send .. | restorContext | expire _ => True

def Law (x : ValueHist) (c : ValueCall) : Prop := TmpLaw (c.run x).s ∧ c.Gives x

/-- The condition: a signal that the task waits for is masked and not set, and another one finds memory or an old entry; a
handler is entered with one signal in sigFlag, whose value is that of the signal consumed before; a wait finds at most one
pending signal of its set; and a wait with info that does not report a timeout was ended by a send. -/
def Ok (x : ValueHist) : ValueCall → Prop
  | send info alloc => info.si_signo ≠ 0 →
    if x.s.Awaits info.si_signo then
      osSigIsMember x.s.sigprocmask info.si_signo = true ∧ osSigIsMember (x.s.sigFlag ||| x.s.sigPendFlag) info.si_signo = false
    else alloc = true ∨ x.s.entry info.si_signo ≠ none
  | saveContext sigIntLock killed sigHandler =>
    sigIntLock = 0 → killed = false → x.s.count = 0 → sigHandler ≠ 0 →
      AtMostOne x.s.sigFlag ∧ ∀ k, x.s.sigFlag.getLsbD k = true → ∀ i ∈ x.s.entry (k + 1),
        x.s.sigunbinfo.sival_ptr % 2^32 = i.sival_ptr % 2^32
  | sigTimedWait set _ => AtMostOne (x.s.sigPendFlag &&& set)
  | resume => x.s.call = some true → x.s.timeout = false → x.handed ≠ none
  | restorContext | expire _ => True

end ValueCall

/-- A task that has not received a signal. -/
@[reducible] def valueSystem : Run.System ValueHist ValueCall where
  init x := x.s.sigFlag = 0 ∧ x.s.sigPendFlag = 0 ∧ x.s.tmpInfoList = [] ∧ x.s.call = none ∧ x.s.waiting = false ∧
    (∀ n, x.sent n = none) ∧ x.handed = none
  pre x c := c.Pre x
  run x c := c.run x

structure ValueInv (x : ValueHist) : Prop where
  tmp : TmpLaw x.s
  sent : ∀ n, ∀ i ∈ x.s.entry n, x.sent n = some i
  handed : ∀ i ∈ x.handed, x.s.sigunbinfo = i
  idle : x.s.call = none → x.s.waiting = false ∧ x.handed = none
  flag : ∀ k, x.s.sigFlag.getLsbD k = true → x.s.sigprocmask.getLsbD k = false
  pend : ∀ k, x.s.sigPendFlag.getLsbD k = true → x.s.sigprocmask.getLsbD k = true

variable {x : ValueHist} {s s' : SigCb} {set set' : BitVec 64} {j k n : Nat} {i info : SigInfo} {alloc : Bool}

private theorem le_findLoop (fuel : Nat) (n : BitVec 64) (count : Nat) : count ≤ findLoop fuel n count := by
  induction fuel generalizing n count with
  | zero => exact le_refl count
  | succ fuel ih =>
    rw [findLoop]
    split_ifs
    · exact (Nat.le_succ count).trans (ih (n >>> 1) (count + 1))
    · exact le_refl count

/-- The loop shifts n until every bit but the highest is gone. -/
private theorem findLoop_highest (fuel : Nat) (n : BitVec 64) (count : Nat) (hlt : n.toNat < 2^fuel) (hj : n.getLsbD j = true) :
    count + j ≤ findLoop fuel n count := by
  induction fuel generalizing n count j with
  | zero =>
    obtain rfl : n = 0 := BitVec.eq_of_toNat_eq (by simpa using hlt)
    simp at hj
  | succ fuel ih =>
    rw [findLoop]
    split_ifs with h1
    · cases j with
      | zero => exact (Nat.le_succ count).trans (le_findLoop fuel (n >>> 1) (count + 1))
      | succ j =>
        have hshift : (n >>> 1).toNat < 2^fuel := by
          rw [BitVec.toNat_ushiftRight, Nat.shiftRight_eq_div_pow, pow_one]
          rw [pow_succ] at hlt
          omega
        have hbit : (n >>> 1).getLsbD j = true := by
          rw [BitVec.getLsbD_ushiftRight, Nat.add_comm]
          exact hj
        have hle := ih (n >>> 1) (count + 1) hshift hbit
        omega
    · obtain rfl : n = 1 := BitVec.xor_eq_zero_iff.mp (not_not.mp h1)
      have hbit := getLsbD_signo2Set 0 j
      rw [show signo2Set 0 = (1 : BitVec 64) from rfl, hj] at hbit
      have : 0 = j := by simpa using hbit.symm
      omega

/-- FindFirstSetedBit finds the highest bit that is set. -/
private theorem findFirstSetedBit_highest (h : set ≠ 0) :
    ∃ k : Nat, findFirstSetedBit set = k ∧ set.getLsbD k = true ∧ ∀ j, set.getLsbD j = true → j ≤ k := by
  obtain ⟨k,hk,hfind,hbit⟩ := findLoop_spec 64 set 0 h set.isLt
  refine ⟨k,?_,hbit,fun j hj => ?_⟩
  · rw [findFirstSetedBit, if_neg h]
    simp only [UINT64_BIT_SIZE, hfind, Nat.zero_add]
    rw [if_pos (by exact_mod_cast hk)]
  · have hle := findLoop_highest 64 set 0 set.isLt hj
    omega

/-- The highest number is the lowest only when it is alone. -/
private theorem lowest_iff (hk : set.getLsbD k = true) (hmax : ∀ j, set.getLsbD j = true → j ≤ k) :
    Lowest set (k + 1) ↔ AtMostOne set := by
  constructor
  · rintro ⟨m,hm,-,hmin⟩ i - j - hi hj
    obtain rfl : k = m := Nat.succ_injective hm
    rw [le_antisymm (hmax i hi) (hmin i hi), le_antisymm (hmax j hj) (hmin j hj)]
  · intro hone
    refine ⟨k,rfl,hk,fun j hj => ?_⟩
    rw [hone k (BitVec.lt_of_getLsbD hk) j (BitVec.lt_of_getLsbD hj) hk hj]

private theorem osSigIsMember_succ (hj : goodSigno (j + 1) = true) : osSigIsMember set (j + 1) = set.getLsbD j :=
  osSigIsMember_eq ⟨Nat.succ_ne_zero j,goodSigno_iff.mpr ((Nat.lt_succ_self j).trans (goodSigno_iff.mp hj))⟩

private theorem osSigAddSet_succ (hj : goodSigno (j + 1) = true) : (osSigAddSet set (j + 1)).1 = set ||| signo2Set j := by
  rw [osSigAddSet, if_neg (by simp [hj])]
  rfl

/-- The entry of the number is taken. -/
private theorem osMoveTmpInfoToUnbInfo_entry (h : s.entry n = some i) :
    osMoveTmpInfoToUnbInfo s n =
      { s with sigunbinfo := i, tmpInfoList := Keyed.erase SigInfo.si_signo s.tmpInfoList n } := by
  rw [SigCb.entry, Keyed.lookup] at h
  rw [osMoveTmpInfoToUnbInfo, h]
  rfl

private theorem any_iff_entry : s.tmpInfoList.any (·.si_signo = n) = true ↔ s.entry n ≠ none := Keyed.any_iff_lookup

private theorem osAddSigInfoToTmpList_put (h : alloc = true ∨ s.entry info.si_signo ≠ none) :
    osAddSigInfoToTmpList s info alloc = ({ s with tmpInfoList := Keyed.put SigInfo.si_signo s.tmpInfoList info },true) := by
  rw [osAddSigInfoToTmpList, Keyed.put]
  by_cases hany : s.tmpInfoList.any (·.si_signo = info.si_signo) = true
  · rw [if_pos hany, if_pos hany]
  · rw [if_neg hany, if_neg hany, if_pos (h.resolve_right fun he => hany (any_iff_entry.mpr he))]

private theorem osAddSigInfoToTmpList_fails (h : ¬ (alloc = true ∨ s.entry info.si_signo ≠ none)) :
    osAddSigInfoToTmpList s info alloc = (s,false) := by
  rw [not_or] at h
  rw [osAddSigInfoToTmpList, if_neg fun hany => h.2 (any_iff_entry.mp hany), if_neg h.1]

/-- The task that waits for the signal is woken with its info. -/
private theorem osPendingTaskWake_awaits (hw : s.Awaits n) (h : s.entry n = some i) :
    osPendingTaskWake s n =
      ({ s with
        sigunbinfo := i
        tmpInfoList := Keyed.erase SigInfo.si_signo s.tmpInfoList n
        waiting := false
        sigwaitmask := 0 },0) := by
  rw [osPendingTaskWake, if_neg (by simp [hw.1]), osSigWaitTaskWake, if_pos ⟨hw.1,hw.2⟩, osMoveTmpInfoToUnbInfo_entry h]

private theorem osPendingTaskWake_other (hw : ¬ s.Awaits n) : osPendingTaskWake s n = (s,0) := by
  rw [SigCb.Awaits] at hw
  rw [osPendingTaskWake]
  split_ifs
  · rfl
  · rw [osSigWaitTaskWake, if_neg hw]

/-- The bit of the signal j+1 is set in sigFlag when it is not masked, else in sigPendFlag unless the task waits for it. -/
structure Flagged (s : SigCb) (j : Nat) (flag pend : BitVec 64) : Prop where
  flag : ∀ k, flag.getLsbD k = true ↔ s.sigFlag.getLsbD k = true ∨ j = k ∧ s.sigprocmask.getLsbD j = false
  pend : ∀ k, pend.getLsbD k = true ↔
    s.sigPendFlag.getLsbD k = true ∨ j = k ∧ s.sigprocmask.getLsbD j = true ∧ ¬ s.Awaits (j + 1)

private theorem or_bit : (set ||| set').getLsbD k = true ↔ set.getLsbD k = true ∨ set'.getLsbD k = true := by
  rw [BitVec.getLsbD_or, Bool.or_eq_true]

theorem Flagged.other {flag pend : BitVec 64} (h : Flagged s j flag pend) (hk : k ≠ j) (hbit : (flag ||| pend).getLsbD k = true) :
    (s.sigFlag ||| s.sigPendFlag).getLsbD k = true := by
  rw [or_bit, h.flag, h.pend] at hbit
  rw [or_bit]
  refine hbit.imp (fun h => h.resolve_right fun h => hk h.1.symm) fun h => h.resolve_right fun h => hk h.1.symm

theorem Flagged.self {flag pend : BitVec 64} (h : Flagged s j flag pend) : (flag ||| pend).getLsbD j = true ↔
    (s.sigFlag ||| s.sigPendFlag).getLsbD j = true ∨ ¬ (s.sigprocmask.getLsbD j = true ∧ s.Awaits (j + 1)) := by
  rw [or_bit, h.flag, h.pend, or_bit]
  cases s.sigprocmask.getLsbD j <;> simp [or_assoc]

/-- A signal that the task waits for leaves no bit when it is masked and not set. -/
theorem Flagged.awaited {flag pend : BitVec 64} (h : Flagged s j flag pend) (hw : s.Awaits (j + 1)) :
    ((flag ||| pend).getLsbD j = true → (none : Option SigInfo) ≠ none) ↔
      s.sigprocmask.getLsbD j = true ∧ (s.sigFlag ||| s.sigPendFlag).getLsbD j = false := by
  rw [h.self]
  simp only [hw, and_true, ne_eq, not_true, imp_false, not_or, not_not]
  rw [Bool.not_eq_true]
  exact and_comm

private theorem dispatchFlags_flagged (s : SigCb) (hj : goodSigno (j + 1) = true) :
    ∃ flag pend, dispatchFlags s (j + 1) = { s with sigFlag := flag, sigPendFlag := pend } ∧ Flagged s j flag pend := by
  have hlt : j < 64 := by
    have := goodSigno_iff.mp hj
    omega
  have hadd : ∀ (set : BitVec 64) k, (set ||| signo2Set j).getLsbD k = true ↔ set.getLsbD k = true ∨ j = k := by
    intro set k
    rw [BitVec.getLsbD_or, getLsbD_signo2Set, Bool.or_eq_true, decide_eq_true hlt, Bool.true_and, decide_eq_true_iff]
  rw [dispatchFlags, osSigIsMember_succ hj]
  by_cases hm : s.sigprocmask.getLsbD j = true
  · rw [if_pos hm]
    by_cases hw : s.Awaits (j + 1)
    · refine ⟨s.sigFlag,s.sigPendFlag,?_,⟨fun k => ?_,fun k => ?_⟩⟩
      · rw [if_neg (by simp [hw.1, hw.2])]
      · simp [hm]
      · simp [hw]
    · refine ⟨s.sigFlag,s.sigPendFlag ||| signo2Set j,?_,⟨fun k => ?_,fun k => ?_⟩⟩
      · rw [if_pos, osSigAddSet_succ hj]
        by_contra h
        rw [not_or, Bool.not_eq_false, Bool.not_eq_false] at h
        exact hw h
      · simp [hm]
      · rw [hadd]
        simp [hm, hw]
  · refine ⟨s.sigFlag ||| signo2Set j,s.sigPendFlag,?_,⟨fun k => ?_,fun k => ?_⟩⟩
    · rw [if_neg hm, osSigAddSet_succ hj]
    · rw [hadd]
      simp [hm]
    · simp [hm]

/-- When only the signal j+1 changes, the law is about its bit and its entry. -/
theorem TmpLaw.others (h : TmpLaw s) (hd : Keyed.Distinct SigInfo.si_signo s'.tmpInfoList)
    (hf : ∀ k, k ≠ j → (s'.sigFlag ||| s'.sigPendFlag).getLsbD k = true → (s.sigFlag ||| s.sigPendFlag).getLsbD k = true)
    (he : ∀ n, n ≠ j + 1 → s'.entry n = s.entry n) :
    TmpLaw s' ↔ ((s'.sigFlag ||| s'.sigPendFlag).getLsbD j = true → s'.entry (j + 1) ≠ none) := by
  refine ⟨fun h' => h'.entry j,fun h' => ⟨hd,fun k hk => ?_⟩⟩
  by_cases hkj : k = j
  · subst hkj
    exact h' hk
  · rw [he (k + 1) fun h => hkj (Nat.succ_injective h)]
    exact h.entry k (hf k hkj hk)

/-- A send fails without memory, is handed to the task that waits for it, or is kept in the list. -/
private theorem osTcbDispatch_value (s : SigCb) (alloc : Bool) (hj : goodSigno (j + 1) = true) (hn : info.si_signo = j + 1) :
    ∃ flag pend, Flagged s j flag pend ∧
      (¬ (alloc = true ∨ s.entry (j + 1) ≠ none) ∧
          osTcbDispatch s info alloc = ({ s with sigFlag := flag, sigPendFlag := pend },-ENOMEM) ∨
        (alloc = true ∨ s.entry (j + 1) ≠ none) ∧ s.Awaits (j + 1) ∧ osTcbDispatch s info alloc =
          ({ s with
            sigFlag := flag
            sigPendFlag := pend
            sigunbinfo := info
            tmpInfoList := Keyed.erase SigInfo.si_signo (Keyed.put SigInfo.si_signo s.tmpInfoList info) (j + 1)
            waiting := false
            sigwaitmask := 0 },0) ∨
        (alloc = true ∨ s.entry (j + 1) ≠ none) ∧ ¬ s.Awaits (j + 1) ∧ osTcbDispatch s info alloc =
          ({ s with
            sigFlag := flag
            sigPendFlag := pend
            tmpInfoList := Keyed.put SigInfo.si_signo s.tmpInfoList info },0)) := by
  obtain ⟨flag,pend,heq,hflags⟩ := dispatchFlags_flagged s hj
  refine ⟨flag,pend,hflags,?_⟩
  have h0 : info.si_signo ≠ 0 := hn ▸ Nat.succ_ne_zero j
  have hentry : (dispatchFlags s (j + 1)).entry info.si_signo = s.entry (j + 1) := by rw [heq, hn, SigCb.entry, SigCb.entry]
  by_cases ha : alloc = true ∨ s.entry (j + 1) ≠ none
  · have hadd := osAddSigInfoToTmpList_put (hentry.symm ▸ ha)
    have hput : Keyed.lookup SigInfo.si_signo (Keyed.put SigInfo.si_signo s.tmpInfoList info) (j + 1) = some info :=
      hn ▸ Keyed.lookup_put_self
    rw [osTcbDispatch, if_neg h0, hn, hadd, heq]
    dsimp only
    rw [if_neg (by decide)]
    by_cases hw : s.Awaits (j + 1)
    · exact .inr (.inl ⟨ha,hw,osPendingTaskWake_awaits hw hput⟩)
    · exact .inr (.inr ⟨ha,hw,osPendingTaskWake_other hw⟩)
  · refine .inl ⟨ha,?_⟩
    rw [osTcbDispatch, if_neg h0, hn, osAddSigInfoToTmpList_fails (hentry.symm ▸ ha), heq]
    rfl

/-- A send keeps the law when the task does not wait for the signal and its info is kept, or the signal leaves no bit. -/
private theorem tmpLaw_dispatch_iff (h : TmpLaw s) (alloc : Bool) (hj : goodSigno (j + 1) = true) (hn : info.si_signo = j + 1) :
    TmpLaw (osTcbDispatch s info alloc).1 ↔
      if s.Awaits (j + 1) then
        osSigIsMember s.sigprocmask (j + 1) = true ∧ osSigIsMember (s.sigFlag ||| s.sigPendFlag) (j + 1) = false
      else alloc = true ∨ s.entry (j + 1) ≠ none := by
  rw [osSigIsMember_succ hj, osSigIsMember_succ hj]
  have hput : ∀ n, n ≠ j + 1 → Keyed.lookup SigInfo.si_signo (Keyed.put SigInfo.si_signo s.tmpInfoList info) n = s.entry n :=
    fun n hne => Keyed.lookup_put_ne (hn ▸ hne)
  have hdistinct := h.distinct.put info
  obtain ⟨flag,pend,hflags,⟨ha,hd⟩ | ⟨ha,hw,hd⟩ | ⟨ha,hw,hd⟩⟩ := osTcbDispatch_value s alloc hj hn
  · have hnone : s.entry (j + 1) = none := by
      by_contra he
      exact ha (.inr he)
    rw [hd]
    refine Iff.trans (h.others h.distinct (fun k hk hbit => hflags.other hk hbit) fun n _ => rfl) ?_
    change (_ → s.entry (j + 1) ≠ none) ↔ _
    by_cases hw : s.Awaits (j + 1)
    · rw [if_pos hw, hnone]
      exact hflags.awaited hw
    · rw [if_neg hw]
      exact ⟨fun he => absurd hnone (he (hflags.self.mpr (.inr fun h => hw h.2))),fun h => absurd h ha⟩
  · rw [hd, if_pos hw]
    refine Iff.trans (h.others (hdistinct.erase (j + 1)) (fun k hk hbit => hflags.other hk hbit) fun n hne => ?_) ?_
    · exact (Keyed.lookup_erase_ne hne).trans (hput n hne)
    · have hnone := Keyed.lookup_erase_self (k := j + 1) hdistinct
      change (_ → Keyed.lookup SigInfo.si_signo _ (j + 1) ≠ none) ↔ _
      rw [hnone]
      exact hflags.awaited hw
  · rw [hd, if_neg hw]
    refine Iff.trans (h.others hdistinct (fun k hk hbit => hflags.other hk hbit) hput) ?_
    have hsome : Keyed.lookup SigInfo.si_signo (Keyed.put SigInfo.si_signo s.tmpInfoList info) (j + 1) = some info :=
      hn ▸ Keyed.lookup_put_self
    change (_ → Keyed.lookup SigInfo.si_signo _ (j + 1) ≠ none) ↔ _
    rw [hsome]
    exact ⟨fun _ => ha,fun _ _ => Option.some_ne_none info⟩

/-- A consumed signal leaves the law in place when its bit is gone. -/
theorem TmpLaw.consume (h : TmpLaw s) {flag pend : BitVec 64} {c : Nat}
    (hf : ∀ k, (flag ||| pend).getLsbD k = true → (s.sigFlag ||| s.sigPendFlag).getLsbD k = true)
    (hj : ¬ (flag ||| pend).getLsbD j = true) :
    TmpLaw { s with
      sigFlag := flag
      sigPendFlag := pend
      count := c
      sigunbinfo := i
      tmpInfoList := Keyed.erase SigInfo.si_signo s.tmpInfoList (j + 1) } := by
  refine Iff.mpr (h.others (h.distinct.erase (j + 1)) (fun k _ => hf k) fun _ hne => ?_) fun hbit => absurd hbit hj
  exact Keyed.lookup_erase_ne hne

private theorem xor_bit (hk : set.getLsbD k = true) : (set ^^^ signo2Set k).getLsbD j = true ↔ set.getLsbD j = true ∧ j ≠ k := by
  have hlt := BitVec.lt_of_getLsbD hk
  rw [BitVec.getLsbD_xor, getLsbD_signo2Set]
  by_cases hkj : k = j
  · subst hkj
    simp [hk, hlt]
  · simp [hkj, Ne.symm hkj]

/-- A handler is entered for the highest number in sigFlag, or no handler is entered. -/
private theorem osSaveSignalContext_value (h : TmpLaw s) (sigIntLock : Nat) (killed : Bool) (sigHandler : Nat) :
    (sigIntLock = 0 ∧ killed = false ∧ s.count = 0 ∧ sigHandler ≠ 0 ∧
      ∃ k i, s.sigFlag.getLsbD k = true ∧ (∀ j, s.sigFlag.getLsbD j = true → j ≤ k) ∧ s.entry (k + 1) = some i ∧
        osSaveSignalContext (alone s) 0 sigIntLock killed sigHandler =
          ((alone s).set 0 { s with
            sigFlag := s.sigFlag ^^^ signo2Set k
            count := s.count + 1
            sigunbinfo := i
            tmpInfoList := Keyed.erase SigInfo.si_signo s.tmpInfoList (k + 1) },some (k + 1))) ∨
    ((sigIntLock = 0 → killed = false → s.count = 0 → sigHandler ≠ 0 → s.sigFlag = 0) ∧
      (osSaveSignalContext (alone s) 0 sigIntLock killed sigHandler).2 = none ∧
      ∃ flag, (flag = s.sigFlag ∨ flag = 0) ∧
        (osSaveSignalContext (alone s) 0 sigIntLock killed sigHandler).1.sig 0 = { s with sigFlag := flag }) := by
  have hsig : (alone s).sig 0 = s := rfl
  have hshare : (alone s).sigShare = 0 := rfl
  rw [osSaveSignalContext, hsig, hshare]
  by_cases hlock : sigIntLock > 0
  · rw [if_pos hlock]
    exact .inr ⟨fun h0 => absurd h0 hlock.ne',rfl,s.sigFlag,.inl rfl,rfl⟩
  rw [if_neg hlock]
  by_cases hkilled : killed = true
  · rw [if_pos hkilled]
    exact .inr ⟨fun _ hk => absurd (hkilled.symm.trans hk) (by decide),rfl,s.sigFlag,.inl rfl,rfl⟩
  rw [if_neg hkilled]
  by_cases hcount : s.count = 0 ∧ (s.sigFlag ≠ 0 ∨ (0 : BitVec 64) ≠ 0)
  · have hne : s.sigFlag ≠ 0 := hcount.2.resolve_right fun h0 => h0 rfl
    rw [if_pos hcount]
    by_cases hhandler : sigHandler = 0
    · rw [if_pos hhandler]
      exact .inr ⟨fun _ _ _ hh => absurd hhandler hh,rfl,0,.inr rfl,SigProcess.set_sig_self⟩
    · obtain ⟨k,hfind,hbit,hmax⟩ := findFirstSetedBit_highest hne
      obtain ⟨i,hi⟩ := Option.ne_none_iff_exists'.mp (h.entry k (or_bit.mpr (.inl hbit)))
      refine .inl ⟨Nat.eq_zero_of_not_pos hlock,Bool.not_eq_true _ ▸ hkilled,hcount.1,hhandler,k,i,hbit,hmax,hi,?_⟩
      rw [if_neg hhandler]
      dsimp only
      rw [show s.sigFlag ||| (0 : BitVec 64) = s.sigFlag from BitVec.or_zero, hfind, show ((k : Int) + 1).toNat = k + 1 from rfl,
        osMoveTmpInfoToUnbInfo_entry hi]
      rfl
  · rw [if_neg hcount]
    refine .inr ⟨fun _ _ hc _ => ?_,rfl,s.sigFlag,.inl rfl,rfl⟩
    by_contra hne
    exact hcount ⟨hc,.inl hne⟩

/-- A wait takes the highest of the pending numbers of its set. -/
private theorem osSigTimedWaitNoLock_value (h : TmpLaw s) (hne : s.sigPendFlag &&& set ≠ 0) (b : Bool) :
    ∃ k i, (s.sigPendFlag &&& set).getLsbD k = true ∧ (∀ j, (s.sigPendFlag &&& set).getLsbD j = true → j ≤ k) ∧
      s.entry (k + 1) = some i ∧ osSigTimedWaitNoLock s set b =
        ({ s with
          sigPendFlag := s.sigPendFlag ^^^ (s.sigPendFlag &&& set)
          sigunbinfo := i
          tmpInfoList := Keyed.erase SigInfo.si_signo s.tmpInfoList (k + 1) },some ((k + 1 : Nat) : Int)) := by
  obtain ⟨k,hfind,hbit,hmax⟩ := findFirstSetedBit_highest hne
  have hpend : s.sigPendFlag.getLsbD k = true := by
    rw [BitVec.getLsbD_and, Bool.and_eq_true] at hbit
    exact hbit.1
  obtain ⟨i,hi⟩ := Option.ne_none_iff_exists'.mp (h.entry k (or_bit.mpr (.inr hpend)))
  have hmove := osMoveTmpInfoToUnbInfo_entry (s := { s with sigPendFlag := s.sigPendFlag ^^^ (s.sigPendFlag &&& set) }) hi
  refine ⟨k,i,hbit,hmax,hi,?_⟩
  rw [osSigTimedWaitNoLock, if_pos hne, hfind]
  exact Prod.ext hmove rfl

namespace ValueInv

/-- No signal is in both sets. -/
private theorem not_both (h : ValueInv x) (hf : x.s.sigFlag.getLsbD k = true) : ¬ x.s.sigPendFlag.getLsbD k = true := fun hp =>
  absurd ((h.flag k hf).symm.trans (h.pend k hp)) (by decide)

private theorem send_iff (h : ValueInv x) (hp : (ValueCall.send info alloc).Pre x) :
    (ValueCall.send info alloc).Law x ↔ (ValueCall.send info alloc).Ok x := by
  have hs : ((ValueCall.send info alloc).run x).s = (osTcbDispatch x.s info alloc).1 := by
    rw [ValueCall.run, ValueHist.send]
    split_ifs <;> rfl
  rw [ValueCall.Law, hs, ValueCall.Ok, ValueCall.Gives, and_true]
  cases hn : info.si_signo with
  | zero =>
    rw [osTcbDispatch, if_pos hn]
    exact ⟨fun _ h0 => absurd rfl h0,fun _ => h.tmp⟩
  | succ j =>
    rw [tmpLaw_dispatch_iff h.tmp alloc (hn ▸ hp) hn]
    exact ⟨fun hok _ => hok,fun hok => hok (Nat.succ_ne_zero j)⟩

private theorem saveContext_iff (h : ValueInv x) (sigIntLock : Nat) (killed : Bool) (sigHandler : Nat) :
    (ValueCall.saveContext sigIntLock killed sigHandler).Law x ↔ (ValueCall.saveContext sigIntLock killed sigHandler).Ok x := by
  rw [ValueCall.Law, ValueCall.run, ValueCall.Ok, ValueCall.Gives, osInitSignalContextArgs]
  rcases osSaveSignalContext_value h.tmp sigIntLock killed sigHandler with
    ⟨hl,hk,hc,hh,k,i,hbit,hmax,hi,heq⟩ | ⟨hzero,hnone,flag,hflag,hs⟩
  · rw [heq]
    have htmp : TmpLaw (x.consume (k + 1) (((alone x.s).set 0 { x.s with
        sigFlag := x.s.sigFlag ^^^ signo2Set k
        count := x.s.count + 1
        sigunbinfo := i
        tmpInfoList := Keyed.erase SigInfo.si_signo x.s.tmpInfoList (k + 1) }).sig 0)).s := by
      rw [SigProcess.set_sig_self]
      refine h.tmp.consume (fun j hj => ?_) fun hj => ?_
      · rw [or_bit, xor_bit hbit] at hj
        exact or_bit.mpr (hj.imp_left And.left)
      · rw [or_bit, xor_bit hbit] at hj
        exact hj.elim (fun hne => hne.2 rfl) (h.not_both hbit)
    have hargs : ∀ r, r ∈ (some (k + 1)).map (fun signo => (signo,((alone x.s).sig 0).sigunbinfo.sival_ptr % 2^32)) ↔
        r = (k + 1,x.s.sigunbinfo.sival_ptr % 2^32) := fun r => ⟨fun hr => (Option.some.inj hr).symm,fun hr => hr ▸ rfl⟩
    simp only [htmp, true_and, hargs, forall_eq, lowest_iff hbit hmax, h.sent (k + 1) i hi, Option.some.injEq, exists_eq_left']
    constructor
    · rintro ⟨hone,hval⟩ - - - -
      refine ⟨hone,fun j hj i' hi' => ?_⟩
      obtain rfl := hone j (BitVec.lt_of_getLsbD hj) k (BitVec.lt_of_getLsbD hbit) hj hbit
      obtain rfl : i = i' := Option.some.inj (hi.symm.trans hi')
      exact hval
    · intro hok
      obtain ⟨hone,hval⟩ := hok hl hk hc hh
      exact ⟨hone,hval k hbit i hi⟩
  · have htmp : TmpLaw ({ x with s := (osSaveSignalContext (alone x.s) 0 sigIntLock killed sigHandler).1.sig 0 } : ValueHist).s := by
      rw [hs]
      refine ⟨h.tmp.distinct,fun k hk => h.tmp.entry k ?_⟩
      rcases hflag with rfl | rfl
      · exact hk
      · rw [or_bit] at hk ⊢
        exact hk.imp_left fun h0 => absurd h0 (by simp)
    rw [hnone]
    refine ⟨fun _ hl hk hc hh => ?_,fun _ => ⟨htmp,fun r hr => absurd hr (Option.not_mem_none r)⟩⟩
    have hz := hzero hl hk hc hh
    rw [hz]
    exact ⟨fun j _ k _ hj => absurd hj (by simp),fun k hk => absurd hk (by simp)⟩

private theorem sigTimedWait_iff (h : ValueInv x) (b : Bool) :
    (ValueCall.sigTimedWait set b).Law x ↔ (ValueCall.sigTimedWait set b).Ok x := by
  rw [ValueCall.Law, ValueCall.run, ValueCall.Ok, ValueCall.Gives]
  by_cases hne : x.s.sigPendFlag &&& set = 0
  · obtain ⟨mask,heq⟩ := osSigTimedWaitNoLock_waits (i := b) hne
    rw [heq, hne]
    exact ⟨fun _ j _ k _ hj => absurd hj (by simp),fun _ => ⟨⟨h.tmp.distinct,h.tmp.entry⟩,fun r hr => absurd hr (Option.not_mem_none r)⟩⟩
  · obtain ⟨k,i,hbit,hmax,hi,heq⟩ := osSigTimedWaitNoLock_value h.tmp hne b
    rw [heq]
    have hpend : x.s.sigPendFlag.getLsbD k = true := by
      rw [BitVec.getLsbD_and, Bool.and_eq_true] at hbit
      exact hbit.1
    have hclear : ∀ j, (x.s.sigPendFlag ^^^ (x.s.sigPendFlag &&& set)).getLsbD j = true →
        x.s.sigPendFlag.getLsbD j = true ∧ ¬ (x.s.sigPendFlag &&& set).getLsbD j = true := by
      intro j hj
      rw [BitVec.getLsbD_xor] at hj
      rw [BitVec.getLsbD_and] at hj ⊢
      cases hp : x.s.sigPendFlag.getLsbD j <;> simp_all
    have htmp : TmpLaw { x.s with
        sigPendFlag := x.s.sigPendFlag ^^^ (x.s.sigPendFlag &&& set)
        sigunbinfo := i
        tmpInfoList := Keyed.erase SigInfo.si_signo x.s.tmpInfoList (k + 1) } := by
      refine h.tmp.consume (fun j hj => ?_) fun hj => ?_
      · rw [or_bit] at hj
        exact or_bit.mpr (hj.imp_right fun hj => (hclear j hj).1)
      · rw [or_bit] at hj
        exact hj.elim (fun hf => h.not_both hf hpend) fun hj => (hclear k hj).2 hbit
    have hret : ∀ r : Int, r ∈ some ((k + 1 : Nat) : Int) ↔ r = (k + 1 : Nat) := fun r =>
      ⟨fun hr => (Option.some.inj hr).symm,fun hr => hr ▸ rfl⟩
    simp only [ValueHist.consume, htmp, true_and, hret, forall_eq, Int.toNat_natCast, lowest_iff hbit hmax, h.sent (k + 1) i hi,
      implies_true, and_true]

private theorem resume_iff (h : ValueInv x) : ValueCall.resume.Law x ↔ ValueCall.resume.Ok x := by
  have htmp : TmpLaw (ValueCall.resume.run x).s := ⟨h.tmp.distinct,h.tmp.entry⟩
  rw [ValueCall.Law, and_iff_right htmp, ValueCall.Gives, ValueCall.Ok, sigWaitReturn]
  cases ht : x.s.timeout with
  | true => exact ⟨fun _ _ h => absurd h (by decide),fun _ _ h => absurd h (show ¬ (-EAGAIN : Int) = 0 by decide)⟩
  | false =>
    refine forall_congr' fun _ => ⟨fun hg _ => ?_,fun hg _ => ?_⟩
    · rw [hg rfl]
      exact Option.some_ne_none _
    · obtain ⟨i,hi⟩ := Option.ne_none_iff_exists'.mp (hg rfl)
      rw [hi, h.handed i hi]

/-- What a call gives, and the list after it, is right when the condition is met, and only then. -/
private theorem law_iff (h : ValueInv x) {c : ValueCall} (hp : c.Pre x) : c.Law x ↔ c.Ok x := by
  cases c with
  | send info alloc => exact h.send_iff hp
  | saveContext sigIntLock killed sigHandler => exact h.saveContext_iff sigIntLock killed sigHandler
  | restorContext =>
    refine ⟨fun _ => trivial,fun _ => ⟨?_,trivial⟩⟩
    rw [ValueCall.run, osRestorSignalContext]
    split_ifs
    · exact h.tmp
    · exact ⟨h.tmp.distinct,h.tmp.entry⟩
  | sigTimedWait set b => exact h.sigTimedWait_iff b
  | expire ops => exact ⟨fun _ => trivial,fun _ => ⟨⟨h.tmp.distinct,h.tmp.entry⟩,trivial⟩⟩
  | resume => exact h.resume_iff

private theorem send_inv (h : ValueInv x) (hp : (ValueCall.send info alloc).Pre x) (hok : (ValueCall.send info alloc).Ok x) :
    ValueInv ((ValueCall.send info alloc).run x) := by
  have htmp := ((h.send_iff hp).mpr hok).1
  cases hn : info.si_signo with
  | zero =>
    have hsame : (ValueCall.send info alloc).run x = x := by
      rw [ValueCall.run, ValueHist.send, if_pos (.inr hn), osTcbDispatch, if_pos hn]
    rw [hsame]
    exact h
  | succ j =>
    rw [ValueCall.run] at htmp ⊢
    obtain ⟨flag,pend,hflags,hd⟩ := osTcbDispatch_value x.s alloc (hn ▸ hp) hn
    have hflag : ∀ k, flag.getLsbD k = true → x.s.sigprocmask.getLsbD k = false := fun k hk => by
      rcases (hflags.flag k).mp hk with hk | ⟨rfl,hm⟩
      · exact h.flag k hk
      · exact hm
    have hpend : ∀ k, pend.getLsbD k = true → x.s.sigprocmask.getLsbD k = true := fun k hk => by
      rcases (hflags.pend k).mp hk with hk | ⟨rfl,hm,-⟩
      · exact h.pend k hk
      · exact hm
    have hput : ∀ n, n ≠ j + 1 → Keyed.lookup SigInfo.si_signo (Keyed.put SigInfo.si_signo x.s.tmpInfoList info) n = x.s.entry n :=
      fun n hne => Keyed.lookup_put_ne (hn ▸ hne)
    rcases hd with ⟨-,hd⟩ | ⟨-,hw,hd⟩ | ⟨-,-,hd⟩
    · rw [hd, ValueHist.send, if_pos (.inl (show ¬ (-ENOMEM : Int) = 0 by decide))] at htmp ⊢
      exact ⟨htmp,h.sent,h.handed,h.idle,hflag,hpend⟩
    · rw [hd, ValueHist.send, if_neg (by simp [hn]), if_pos ⟨hw.1,rfl⟩] at htmp ⊢
      refine ⟨htmp,fun n i hi => ?_,fun i hi => Option.some.inj hi,fun hc => ?_,hflag,hpend⟩
      · change Keyed.lookup SigInfo.si_signo _ n = some i at hi
        change Function.update x.sent info.si_signo none n = some i
        by_cases hne : n = j + 1
        · rw [hne, Keyed.lookup_erase_self (h.tmp.distinct.put info)] at hi
          cases hi
        · rw [Keyed.lookup_erase_ne hne, hput n hne] at hi
          rw [Function.update_of_ne (hn ▸ hne)]
          exact h.sent n i hi
      · exact absurd ((h.idle hc).1.symm.trans hw.1) (by decide)
    · rw [hd, ValueHist.send, if_neg (by simp [hn]), if_neg fun hw => absurd (hw.1.symm.trans hw.2) (by decide)] at htmp ⊢
      refine ⟨htmp,fun n i hi => ?_,h.handed,h.idle,hflag,hpend⟩
      change Keyed.lookup SigInfo.si_signo _ n = some i at hi
      change Function.update x.sent info.si_signo (some info) n = some i
      by_cases hne : n = j + 1
      · rw [hne, ← hn, Keyed.lookup_put_self] at hi
        rw [hne, hn, Function.update_self]
        exact hi
      · rw [hput n hne] at hi
        rw [Function.update_of_ne (hn ▸ hne)]
        exact h.sent n i hi

/-- A consumed signal is not owed any more. -/
private theorem consumed_sent (h : ValueInv x) (hi : Keyed.lookup SigInfo.si_signo (Keyed.erase SigInfo.si_signo x.s.tmpInfoList (k + 1)) n = some i) :
    Function.update x.sent (k + 1) none n = some i := by
  by_cases hne : n = k + 1
  · rw [hne, Keyed.lookup_erase_self h.tmp.distinct] at hi
    cases hi
  · rw [Keyed.lookup_erase_ne hne] at hi
    rw [Function.update_of_ne hne]
    exact h.sent n i hi

theorem saveContext_inv {sigIntLock sigHandler : Nat} {killed : Bool} (h : ValueInv x)
    (hp : (ValueCall.saveContext sigIntLock killed sigHandler).Pre x)
    (hok : (ValueCall.saveContext sigIntLock killed sigHandler).Ok x) :
    ValueInv ((ValueCall.saveContext sigIntLock killed sigHandler).run x) := by
  have htmp := ((h.saveContext_iff sigIntLock killed sigHandler).mpr hok).1
  obtain ⟨hw,hh⟩ := h.idle hp
  rw [ValueCall.run] at htmp ⊢
  rcases osSaveSignalContext_value h.tmp sigIntLock killed sigHandler with
    ⟨-,-,-,-,k,i,hbit,-,-,heq⟩ | ⟨-,hnone,flag,hflag,hs⟩
  · rw [heq] at htmp ⊢
    dsimp only at htmp ⊢
    rw [SigProcess.set_sig_self] at htmp ⊢
    exact ⟨htmp,fun n i hi => h.consumed_sent hi,fun i hi => absurd (hh.symm.trans hi).symm (Option.some_ne_none i),fun _ => ⟨hw,hh⟩,
      fun j hj => h.flag j ((xor_bit hbit).mp hj).1,h.pend⟩
  · rw [hnone] at htmp ⊢
    dsimp only at htmp ⊢
    rw [hs] at htmp ⊢
    refine ⟨htmp,h.sent,h.handed,h.idle,fun k hk => ?_,h.pend⟩
    rcases hflag with rfl | rfl
    · exact h.flag k hk
    · simp at hk

theorem sigTimedWait_inv {b : Bool} (h : ValueInv x) (hp : (ValueCall.sigTimedWait set b).Pre x)
    (hok : (ValueCall.sigTimedWait set b).Ok x) : ValueInv ((ValueCall.sigTimedWait set b).run x) := by
  have htmp := ((h.sigTimedWait_iff b).mpr hok).1
  obtain ⟨hw,hh⟩ := h.idle hp
  rw [ValueCall.run] at htmp ⊢
  by_cases hne : x.s.sigPendFlag &&& set = 0
  · obtain ⟨mask,heq⟩ := osSigTimedWaitNoLock_waits (i := b) hne
    rw [heq] at htmp ⊢
    exact ⟨htmp,h.sent,fun i hi => absurd hi.symm (Option.some_ne_none i),fun hc => absurd hc (Option.some_ne_none b),h.flag,h.pend⟩
  · obtain ⟨k,i,-,-,-,heq⟩ := osSigTimedWaitNoLock_value h.tmp hne b
    rw [heq] at htmp ⊢
    refine ⟨htmp,fun n i hi => h.consumed_sent hi,fun i hi => absurd (hh.symm.trans hi).symm (Option.some_ne_none i),fun _ => ⟨hw,hh⟩,
      h.flag,fun j hj => h.pend j ?_⟩
    change (x.s.sigPendFlag ^^^ (x.s.sigPendFlag &&& set)).getLsbD j = true at hj
    rw [BitVec.getLsbD_xor, BitVec.getLsbD_and] at hj
    cases hp : x.s.sigPendFlag.getLsbD j <;> simp_all

theorem step_inv (h : ValueInv x) {c : ValueCall} (hp : c.Pre x) (hok : c.Ok x) : ValueInv (c.run x) := by
  have htmp := ((h.law_iff hp).mpr hok).1
  cases c with
  | send info alloc => exact h.send_inv hp hok
  | saveContext sigIntLock killed sigHandler => exact h.saveContext_inv hp hok
  | restorContext =>
    rw [ValueCall.run, osRestorSignalContext] at htmp ⊢
    split_ifs at htmp ⊢
    · exact h
    · exact ⟨htmp,h.sent,h.handed,h.idle,h.flag,h.pend⟩
  | sigTimedWait set b => exact h.sigTimedWait_inv hp hok
  | expire ops => exact ⟨htmp,h.sent,h.handed,fun hc => ⟨rfl,(h.idle hc).2⟩,h.flag,h.pend⟩
  | resume => exact ⟨htmp,h.sent,fun i hi => absurd hi.symm (Option.some_ne_none i),fun _ => ⟨hp.1,rfl⟩,h.flag,h.pend⟩

end ValueInv

private theorem valueInv_of_reachable (h : Run.Reachable valueSystem (fun x c => c.Ok x) x) : ValueInv x := by
  refine h.invariant (fun x hx => ?_) fun x c hi hp hok => hi.step_inv hp hok
  obtain ⟨hf,hp,hl,hc,hw,hsent,hh⟩ := hx
  refine ⟨⟨?_,fun k hk => ?_⟩,fun n i hi => ?_,fun i hi => ?_,fun _ => ⟨hw,hh⟩,fun k hk => ?_,fun k hk => ?_⟩
  · rw [hl]
    exact List.nodup_nil
  · rw [hf, hp] at hk
    simp at hk
  · rw [SigCb.entry, hl] at hi
    cases hi
  · rw [hh] at hi
    cases hi
  · rw [hf] at hk
    simp at hk
  · rw [hp] at hk
    simp at hk

/-- Along every run that meets the condition, the next call keeps the pairing of signals and infos exactly when it meets it too. -/
theorem value_law_iff (h : Run.Reachable valueSystem (fun x c => c.Ok x) x) : ∀ c : ValueCall, c.Pre x → (c.Law x ↔ c.Ok x) :=
  fun _ hp => (valueInv_of_reachable h).law_iff hp

/-- A task that masks the signal 10. -/
def startValue : ValueHist := ⟨⟨0,0,0x200,0,0,⟨0,0,0⟩,[],none,false,false⟩,fun _ => none,none⟩

private theorem startValue_init : valueSystem.init startValue := ⟨rfl,rfl,rfl,rfl,rfl,fun _ => rfl,rfl⟩

/-- A handler is entered for 3 with the value 0 that it was sent with; a wait that finds 10 pending is given its info. -/
theorem value_law_wait : ∃ x, Run.Reachable valueSystem (fun x c => c.Ok x) x ∧ x.sent 10 = some ⟨10,0,5⟩ ∧
    (ValueCall.sigTimedWait 0x200 true).Law x := by
  have h0 : Run.Reachable valueSystem (fun x c => c.Ok x) startValue := .init startValue_init
  have h1 : Run.Reachable valueSystem (fun x c => c.Ok x) _ := .call h0 (.send ⟨3,0,0⟩ true)
    (show goodSigno 3 = true by decide) (fun _ => by decide +kernel)
  have hvalue : ∀ k < 64, ((ValueCall.send ⟨3,0,0⟩ true).run startValue).s.sigFlag.getLsbD k = true →
      ∀ i ∈ ((ValueCall.send ⟨3,0,0⟩ true).run startValue).s.entry (k + 1), 0 = i.sival_ptr % 2^32 := by decide +kernel
  have h2 : Run.Reachable valueSystem (fun x c => c.Ok x) _ := .call h1 (.saveContext 0 false 1)
    (show SigCb.call _ = none by decide +kernel)
    (fun _ _ _ _ => ⟨by decide +kernel,fun k hk => hvalue k (BitVec.lt_of_getLsbD hk) hk⟩)
  have h3 : Run.Reachable valueSystem (fun x c => c.Ok x) _ := .call h2 (.send ⟨10,0,5⟩ true)
    (show goodSigno 10 = true by decide) (fun _ => by decide +kernel)
  exact ⟨_,h3,by decide +kernel,(value_law_iff h3 (.sigTimedWait 0x200 true) (show SigCb.call _ = none by decide +kernel)).mpr
    (show AtMostOne _ by decide +kernel)⟩

/-- The first handler, for 3 that was sent with the value 5, is entered with the value of sigunbinfo. -/
theorem value_law_fails_first : ¬ ∀ x, Run.Reachable valueSystem (fun _ _ => True) x → ∀ c : ValueCall, c.Pre x → c.Law x := by
  intro hall
  have h0 : Run.Reachable valueSystem (fun _ _ => True) startValue := .init startValue_init
  have h1 : Run.Reachable valueSystem (fun _ _ => True) _ := .call h0 (.send ⟨3,0,5⟩ true) (show goodSigno 3 = true by decide) trivial
  have hlaw := hall _ h1 (.saveContext 0 false 1) (show SigCb.call _ = none by decide +kernel)
  obtain ⟨-,i,hi,hval⟩ := hlaw.2 (3,0) (show osInitSignalContextArgs _ 0 0 false 1 = some (3,0) by decide +kernel)
  have hsent : ((ValueCall.send ⟨3,0,5⟩ true).run startValue).sent 3 = some ⟨3,0,5⟩ := by decide +kernel
  rw [Option.some.inj (hi.symm.trans hsent)] at hval
  exact absurd hval (by decide)

end LiteOsKernel.Ipc.Signal
