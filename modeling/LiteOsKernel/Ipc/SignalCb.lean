import LiteOsKernel.Ipc.Signal

/-! The signal sets and the sig_cb of one task: what each function of los_signal.c does to them. -/
namespace LiteOsKernel.Ipc.Signal

def AtMostOne (set : BitVec 64) : Prop := ∀ i < 64, ∀ j < 64, set.getLsbD i = true → set.getLsbD j = true → i = j

instance (set : BitVec 64) : Decidable (AtMostOne set) := inferInstanceAs (Decidable (∀ i < 64, ∀ j < 64, _))

def sigDelSet (set : BitVec 64) (signo : Nat) : BitVec 64 := set &&& ~~~signo2Set (signo - 1)

variable {s s' : SigCb} {set set' : BitVec 64} {signo n : Nat} {info : SigInfo} {alloc : Bool}

-- Sets

theorem goodSigno_iff : goodSigno n = true ↔ n < 65 := decide_eq_true_iff

theorem getLsbD_signo2Set (k i : Nat) : (signo2Set k).getLsbD i = (decide (k < 64) && decide (k = i)) :=
  BitVec.getLsbD_twoPow k i

private theorem and_signo2Set (set : BitVec 64) (k : Nat) : set &&& signo2Set k ≠ 0 ↔ set.getLsbD k = true := by
  have hand : set &&& signo2Set k = if set.getLsbD k then signo2Set k else 0 := BitVec.and_twoPow set k
  rw [hand]
  cases hk : set.getLsbD k with
  | false => simp
  | true =>
    have hlt : k < 64 := BitVec.lt_of_getLsbD hk
    refine ⟨fun _ => rfl,fun _ hz => ?_⟩
    have hbit := getLsbD_signo2Set k k
    rw [if_pos rfl] at hz
    rw [hz] at hbit
    simp [hlt] at hbit

/-- A signal number from 1 on that has a bit. -/
theorem osSigIsMember_eq (h : n ≠ 0 ∧ goodSigno (n - 1) = true) : osSigIsMember set n = set.getLsbD (n - 1) := by
  rw [osSigIsMember, if_pos h, Bool.eq_iff_iff, decide_eq_true_iff]
  exact and_signo2Set set (n - 1)

theorem osSigIsMember_invalid (h : ¬ (n ≠ 0 ∧ goodSigno (n - 1) = true)) : osSigIsMember set n = true := by
  rw [osSigIsMember, if_neg h]

@[simp] theorem osSigIsMember_or : osSigIsMember (set ||| set') n = (osSigIsMember set n || osSigIsMember set' n) := by
  by_cases h : n ≠ 0 ∧ goodSigno (n - 1) = true
  · simp only [osSigIsMember_eq h, BitVec.getLsbD_or]
  · simp only [osSigIsMember_invalid h, Bool.or_self]

/-- A good number is in the set that it was added to. -/
theorem osSigIsMember_add (hn : goodSigno n = true) : osSigIsMember (osSigAddSet set n).1 n = true := by
  by_cases h0 : n = 0
  · exact osSigIsMember_invalid fun h => h.1 h0
  · have hlt65 := goodSigno_iff.mp hn
    have hlt : n - 1 < 64 := by omega
    have hg : goodSigno (n - 1) = true := goodSigno_iff.mpr (by omega)
    have hbit : osSigIsMember (signo2Set (n - 1)) n = true := by
      rw [osSigIsMember_eq ⟨h0,hg⟩, getLsbD_signo2Set]
      simp [hlt]
    rw [osSigAddSet, if_neg (by simp [h0, hn]), osSigIsMember_or, hbit, Bool.or_true]

/-- What a set has stays in it when a signal is added. -/
theorem osSigIsMember_add_of (h : osSigIsMember set n = true) : osSigIsMember (osSigAddSet set signo).1 n = true := by
  rw [osSigAddSet]
  split_ifs
  · exact h
  · rw [osSigIsMember_or, h, Bool.true_or]

/-- Only signo leaves the set. -/
theorem osSigIsMember_del (hne : n ≠ signo) (hs : signo ≠ 0) (h : osSigIsMember set n = true) :
    osSigIsMember (sigDelSet set signo) n = true := by
  by_cases hn : n ≠ 0 ∧ goodSigno (n - 1) = true
  · rw [osSigIsMember_eq hn] at h ⊢
    rw [sigDelSet, BitVec.getLsbD_and, BitVec.getLsbD_not, getLsbD_signo2Set, h]
    have hlt := BitVec.lt_of_getLsbD h
    have : ¬ signo - 1 = n - 1 := by omega
    simp [hlt, this]
  · exact osSigIsMember_invalid hn

/-- The loop stops at the bit that it has shifted down to bit 0, or it has shifted all bits out. -/
theorem findLoop_spec (fuel : Nat) (n : BitVec 64) (count : Nat) (hn : n ≠ 0) (hlt : n.toNat < 2^fuel) :
    ∃ k < fuel, findLoop fuel n count = count + k ∧ n.getLsbD k = true := by
  induction fuel generalizing n count with
  | zero =>
    exact absurd (BitVec.eq_of_toNat_eq (by simpa using hlt)) hn
  | succ fuel ih =>
    rw [findLoop]
    split_ifs with h1
    · have hne1 : n ≠ 1 := by
        rintro rfl
        exact h1 rfl
      have hshift : (n >>> 1).toNat = n.toNat / 2 := by
        rw [BitVec.toNat_ushiftRight, Nat.shiftRight_eq_div_pow, pow_one]
      have hpos : 2 ≤ n.toNat := by
        by_contra hlt2
        have : n.toNat = 0 ∨ n.toNat = 1 := by omega
        rcases this with h0 | h1
        · exact hn (BitVec.eq_of_toNat_eq h0)
        · exact hne1 (BitVec.eq_of_toNat_eq h1)
      obtain ⟨k,hk,hfind,hbit⟩ := ih (n >>> 1) (count + 1)
        (fun hz => by rw [hz] at hshift; simp at hshift; omega) (by rw [hshift]; rw [pow_succ] at hlt; omega)
      refine ⟨k + 1,by omega,by rw [hfind]; omega,?_⟩
      rw [BitVec.getLsbD_ushiftRight] at hbit
      rw [Nat.add_comm]
      exact hbit
    · have : n = 1 := BitVec.xor_eq_zero_iff.mp (not_not.mp h1)
      subst this
      exact ⟨0,Nat.succ_pos fuel,rfl,rfl⟩

/-- The set bit that FindFirstSetedBit finds: its result is never -1 for a set that is not empty. -/
private theorem findFirstSetedBit_spec (h : set ≠ 0) : ∃ k : Nat, k < 64 ∧ findFirstSetedBit set = k ∧ set.getLsbD k = true := by
  obtain ⟨k,hk,hfind,hbit⟩ := findLoop_spec 64 set 0 h set.isLt
  refine ⟨k,hk,?_,hbit⟩
  rw [findFirstSetedBit, if_neg h]
  simp only [UINT64_BIT_SIZE, hfind, Nat.zero_add]
  rw [if_pos (by exact_mod_cast hk)]

/-- A set with one bit at most is that of the bit. -/
theorem AtMostOne.eq {k : Nat} (h : AtMostOne set) (hk : set.getLsbD k = true) : set = signo2Set k := by
  apply BitVec.eq_of_getLsbD_eq
  intro i hi
  have hlt := BitVec.lt_of_getLsbD hk
  rw [getLsbD_signo2Set]
  by_cases hki : k = i
  · subst hki
    simp [hk, hlt]
  · have : set.getLsbD i = false := by
      by_contra hs
      exact hki (h k hlt i hi hk (Bool.not_eq_false _ ▸ hs))
    simp [this, hki]

/-- The xor takes the bit away, because it is there. -/
theorem xor_signo2Set {k : Nat} (hk : set.getLsbD k = true) : set ^^^ signo2Set k = sigDelSet set (k + 1) := by
  apply BitVec.eq_of_getLsbD_eq
  intro i hi
  rw [sigDelSet, BitVec.getLsbD_xor, BitVec.getLsbD_and, BitVec.getLsbD_not, Nat.add_sub_cancel, getLsbD_signo2Set]
  by_cases hki : k = i
  · subst hki
    simp [hk, hi]
  · simp [hki, hi]

theorem osSigIsMember_bit {k : Nat} (hk : set.getLsbD k = true) : osSigIsMember set (k + 1) = true := by
  have hlt := BitVec.lt_of_getLsbD hk
  rw [osSigIsMember_eq ⟨Nat.succ_ne_zero k,goodSigno_iff.mpr (by omega)⟩]
  exact hk

-- The list of infos

private theorem any_replaceF (l : List SigInfo) (h : l.any (·.si_signo = info.si_signo) = true) :
    (l.replaceF fun i : SigInfo => if i.si_signo = info.si_signo then some info else none).any (·.si_signo = info.si_signo) = true := by
  induction l with
  | nil => exact h
  | cons i l ih =>
    rw [List.replaceF]
    by_cases hi : i.si_signo = info.si_signo
    · simp [hi]
    · simp only [hi, if_false, List.any_cons, decide_false, Bool.false_or] at h ⊢
      exact ih h

/-- Only the list and the kept info change, and the kept info is that of signo when the list has one. -/
theorem osMoveTmpInfoToUnbInfo_eq (s : SigCb) (signo : Nat) :
    ∃ i l, osMoveTmpInfoToUnbInfo s signo = { s with sigunbinfo := i, tmpInfoList := l } ∧
      (s.tmpInfoList.any (·.si_signo = signo) = true → i.si_signo = signo) := by
  rw [osMoveTmpInfoToUnbInfo]
  cases hf : s.tmpInfoList.find? (·.si_signo = signo) with
  | some i => exact ⟨i,_,rfl,fun _ => by simpa using List.find?_some hf⟩
  | none =>
    refine ⟨s.sigunbinfo,s.tmpInfoList,rfl,fun hany => ?_⟩
    obtain ⟨i,hi,hs⟩ := List.any_eq_true.mp hany
    exact absurd hs (List.find?_eq_none.mp hf i hi)

private theorem osAddSigInfoToTmpList_eq (s : SigCb) (info : SigInfo) (alloc : Bool) :
    ∃ l, osAddSigInfoToTmpList s info alloc =
        ({ s with tmpInfoList := l },s.tmpInfoList.any (·.si_signo = info.si_signo) || alloc) ∧
      ((s.tmpInfoList.any (·.si_signo = info.si_signo) || alloc) = true → l.any (·.si_signo = info.si_signo) = true) := by
  rw [osAddSigInfoToTmpList]
  cases hany : s.tmpInfoList.any (·.si_signo = info.si_signo) with
  | true => exact ⟨_,rfl,fun _ => any_replaceF _ hany⟩
  | false =>
    cases alloc with
    | true => exact ⟨info :: s.tmpInfoList,rfl,fun _ => by simp⟩
    | false => exact ⟨s.tmpInfoList,rfl,fun h => by cases h⟩

-- A dispatch

/-- What the send of signal n can do to a sig_cb: nothing recorded is lost, and a wait that it ends keeps the info of n. -/
structure Delivered (n : Nat) (s s' : SigCb) : Prop where
  recorded : ∀ m, osSigIsMember (s.sigFlag ||| s.sigPendFlag) m = true → osSigIsMember (s'.sigFlag ||| s'.sigPendFlag) m = true
  call : s'.call = s.call
  timeout : s'.timeout = s.timeout
  mask : s'.sigprocmask = s.sigprocmask
  wake : (s'.waiting = s.waiting ∧ s'.sigunbinfo = s.sigunbinfo) ∨
    (s.waiting = true ∧ s'.waiting = false ∧ (s.call = some true → s'.sigunbinfo.si_signo = n))

theorem Delivered.refl (n : Nat) (s : SigCb) : Delivered n s s := ⟨fun _ h => h,rfl,rfl,rfl,.inl ⟨rfl,rfl⟩⟩

theorem Delivered.trans {s'' : SigCb} (h : Delivered n s s') (h' : Delivered n s' s'') : Delivered n s s'' := by
  refine ⟨fun m hm => h'.recorded m (h.recorded m hm),h'.call.trans h.call,h'.timeout.trans h.timeout,h'.mask.trans h.mask,?_⟩
  rcases h.wake with ⟨hw,hu⟩ | ⟨hw,hw',hu⟩
  · rcases h'.wake with ⟨hv,hu'⟩ | ⟨hv,hv',hu'⟩
    · exact .inl ⟨hv.trans hw,hu'.trans hu⟩
    · exact .inr ⟨hw ▸ hv,hv',fun hc => hu' (h.call.trans hc)⟩
  · rcases h'.wake with ⟨hv,hu'⟩ | ⟨hv,_,_⟩
    · exact .inr ⟨hw,hv.trans hw',fun hc => by rw [hu']; exact hu hc⟩
    · rw [hw'] at hv
      cases hv

/-- A wait without an info of the signal in the list keeps an old one. -/
theorem osPendingTaskWake_delivered (hinfo : s.waiting = true → s.call = some true → s.tmpInfoList.any (·.si_signo = n) = true) :
    Delivered n s (osPendingTaskWake s n).1 := by
  rw [osPendingTaskWake]
  split_ifs with hw
  · exact .refl n s
  · have hwait : s.waiting = true := Bool.not_eq_false _ ▸ hw
    rw [osSigWaitTaskWake]
    split_ifs with hm
    · obtain ⟨i,l,heq,hi⟩ := osMoveTmpInfoToUnbInfo_eq s n
      rw [heq]
      exact ⟨fun _ h => h,rfl,rfl,rfl,.inr ⟨hwait,rfl,fun hc => hi (hinfo hwait hc)⟩⟩
    · exact .refl n s

private theorem osPendingTaskWake_wakes (hw : osSigIsMember s.sigwaitmask n = true) : (osPendingTaskWake s n).1.waiting = false := by
  rw [osPendingTaskWake]
  split_ifs with h
  · exact h
  · rw [osSigWaitTaskWake, if_pos ⟨Bool.not_eq_false _ ▸ h,hw⟩]

/-- A task that still waits was not touched. -/
theorem osPendingTaskWake_same (hw : (osPendingTaskWake s n).1.waiting = true) : (osPendingTaskWake s n).1 = s := by
  by_cases h1 : s.waiting = false
  · rw [osPendingTaskWake, if_pos h1]
  · rw [osPendingTaskWake, if_neg h1] at hw ⊢
    by_cases h2 : s.waiting = true ∧ osSigIsMember s.sigwaitmask n = true
    · rw [osSigWaitTaskWake, if_pos h2] at hw
      cases hw
    · rw [osSigWaitTaskWake, if_neg h2]

@[simp] theorem osPendingTaskWake_ret : (osPendingTaskWake s n).2 = 0 := by
  rw [osPendingTaskWake]
  split_ifs <;> rfl

theorem dispatchFlags_eq (s : SigCb) (signo : Nat) :
    ∃ flag pend, dispatchFlags s signo = { s with sigFlag := flag, sigPendFlag := pend } ∧
      ∀ m, osSigIsMember (s.sigFlag ||| s.sigPendFlag) m = true → osSigIsMember (flag ||| pend) m = true := by
  rw [dispatchFlags]
  split_ifs
  · refine ⟨s.sigFlag,_,rfl,fun m hm => ?_⟩
    rw [osSigIsMember_or, Bool.or_eq_true] at hm ⊢
    exact hm.imp_right osSigIsMember_add_of
  · exact ⟨s.sigFlag,s.sigPendFlag,rfl,fun m hm => hm⟩
  · refine ⟨_,s.sigPendFlag,rfl,fun m hm => ?_⟩
    rw [osSigIsMember_or, Bool.or_eq_true] at hm ⊢
    exact hm.imp_left osSigIsMember_add_of

/-- A bit is set unless the signal is masked and the task waits for it. -/
private theorem dispatchFlags_records (hn : goodSigno n = true) :
    osSigIsMember ((dispatchFlags s n).sigFlag ||| (dispatchFlags s n).sigPendFlag) n = true ∨
      (s.waiting = true ∧ osSigIsMember s.sigprocmask n = true ∧ osSigIsMember s.sigwaitmask n = true) := by
  rw [dispatchFlags]
  split_ifs with hm hw
  · exact .inl (by rw [osSigIsMember_or, osSigIsMember_add hn, Bool.or_true])
  · rw [not_or] at hw
    exact .inr ⟨Bool.not_eq_false _ ▸ hw.1,hm,Bool.not_eq_false _ ▸ hw.2⟩
  · exact .inl (by rw [osSigIsMember_or, osSigIsMember_add hn, Bool.true_or])

/-- A dispatch with a number fails without memory, or the info is in the list when it comes to wake the task. -/
theorem osTcbDispatch_cases (s : SigCb) (info : SigInfo) (alloc : Bool) (h0 : info.si_signo ≠ 0) :
    ∃ l, ((s.tmpInfoList.any (·.si_signo = info.si_signo) || alloc) = false ∧
        osTcbDispatch s info alloc = ({ dispatchFlags s info.si_signo with tmpInfoList := l },-ENOMEM)) ∨
      ((s.tmpInfoList.any (·.si_signo = info.si_signo) || alloc) = true ∧ l.any (·.si_signo = info.si_signo) = true ∧
        osTcbDispatch s info alloc = osPendingTaskWake { dispatchFlags s info.si_signo with tmpInfoList := l } info.si_signo) := by
  obtain ⟨flag,pend,heq,-⟩ := dispatchFlags_eq s info.si_signo
  obtain ⟨l,hadd,hany⟩ := osAddSigInfoToTmpList_eq (dispatchFlags s info.si_signo) info alloc
  have hlist : (dispatchFlags s info.si_signo).tmpInfoList = s.tmpInfoList := by rw [heq]
  rw [hlist] at hadd hany
  refine ⟨l,?_⟩
  rw [osTcbDispatch, if_neg h0, hadd]
  cases hok : s.tmpInfoList.any (·.si_signo = info.si_signo) || alloc with
  | false => exact .inl ⟨rfl,rfl⟩
  | true => exact .inr ⟨rfl,hany hok,rfl⟩

theorem osTcbDispatch_delivered (s : SigCb) (info : SigInfo) (alloc : Bool) :
    Delivered info.si_signo s (osTcbDispatch s info alloc).1 := by
  by_cases h0 : info.si_signo = 0
  · rw [osTcbDispatch, if_pos h0]
    exact .refl _ s
  · obtain ⟨flag,pend,heq,hrec⟩ := dispatchFlags_eq s info.si_signo
    obtain ⟨l,⟨-,hd⟩ | ⟨-,hany,hd⟩⟩ := osTcbDispatch_cases s info alloc h0
    · rw [hd, heq]
      exact ⟨hrec,rfl,rfl,rfl,.inl ⟨rfl,rfl⟩⟩
    · rw [hd, heq]
      have hflags : Delivered info.si_signo s { s with sigFlag := flag, sigPendFlag := pend, tmpInfoList := l } :=
        ⟨hrec,rfl,rfl,rfl,.inl ⟨rfl,rfl⟩⟩
      exact hflags.trans (osPendingTaskWake_delivered fun _ _ => hany)

theorem osTcbDispatch_ret (s : SigCb) (info : SigInfo) (alloc : Bool) :
    (osTcbDispatch s info alloc).2 = 0 ∨ (osTcbDispatch s info alloc).2 = -ENOMEM := by
  by_cases h0 : info.si_signo = 0
  · rw [osTcbDispatch, if_pos h0]
    exact .inl rfl
  · obtain ⟨l,⟨-,hd⟩ | ⟨-,-,hd⟩⟩ := osTcbDispatch_cases s info alloc h0
    · rw [hd]
      exact .inr rfl
    · rw [hd]
      exact .inl osPendingTaskWake_ret

/-- The signal sets its bit, or it is a masked one that the task waits for. -/
theorem osTcbDispatch_records (s : SigCb) (alloc : Bool) (hn : goodSigno info.si_signo = true) :
    osSigIsMember ((osTcbDispatch s info alloc).1.sigFlag ||| (osTcbDispatch s info alloc).1.sigPendFlag) info.si_signo = true ∨
      (s.waiting = true ∧ osSigIsMember s.sigprocmask info.si_signo = true ∧
        osSigIsMember s.sigwaitmask info.si_signo = true) := by
  by_cases h0 : info.si_signo = 0
  · exact .inl (osSigIsMember_invalid fun h => h.1 h0)
  · refine (dispatchFlags_records hn).imp_left fun hrec => ?_
    obtain ⟨l,⟨-,hd⟩ | ⟨-,hany,hd⟩⟩ := osTcbDispatch_cases s info alloc h0
    · rw [hd]
      exact hrec
    · rw [hd]
      exact (osPendingTaskWake_delivered fun _ _ => hany).recorded _ hrec

/-- A dispatch that succeeds ends the wait for the signal, and had an info node for it. -/
theorem osTcbDispatch_wakes (h0 : info.si_signo ≠ 0) (hret : (osTcbDispatch s info alloc).2 = 0)
    (hw : osSigIsMember s.sigwaitmask info.si_signo = true) :
    (osTcbDispatch s info alloc).1.waiting = false ∧
      (alloc = true ∨ s.tmpInfoList.any (·.si_signo = info.si_signo) = true) := by
  obtain ⟨l,⟨-,hd⟩ | ⟨hok,-,hd⟩⟩ := osTcbDispatch_cases s info alloc h0
  · rw [hd] at hret
    cases hret
  · obtain ⟨flag,pend,heq,-⟩ := dispatchFlags_eq s info.si_signo
    refine ⟨?_,(Bool.or_eq_true _ _ ▸ hok).symm⟩
    rw [hd]
    apply osPendingTaskWake_wakes
    rw [heq]
    exact hw

-- Masks, waits and handler entries

theorem osSigMaskSwitch_eq (s : SigCb) (set : BitVec 64) :
    ∃ flag pend, osSigMaskSwitch s set = { s with sigprocmask := set, sigFlag := flag, sigPendFlag := pend } ∧
      flag ||| pend = s.sigFlag ||| s.sigPendFlag := by
  rw [osSigMaskSwitch]
  split_ifs
  · refine ⟨_,_,rfl,?_⟩
    ext i
    simp only [BitVec.getElem_or, BitVec.getElem_xor, BitVec.getElem_and, BitVec.getElem_not]
    cases set[i] <;> cases s.sigFlag[i] <;> cases s.sigPendFlag[i] <;> rfl
  · exact ⟨s.sigFlag,s.sigPendFlag,rfl,rfl⟩

theorem osSigprocMask_eq (s : SigCb) (how : Nat) (setl : Option (BitVec 64)) :
    ∃ mask flag pend, (osSigprocMask s how setl).1 = { s with sigprocmask := mask, sigFlag := flag, sigPendFlag := pend } ∧
      flag ||| pend = s.sigFlag ||| s.sigPendFlag := by
  cases setl with
  | none => exact ⟨s.sigprocmask,s.sigFlag,s.sigPendFlag,rfl,rfl⟩
  | some set =>
    rw [osSigprocMask]
    exact ⟨_,osSigMaskSwitch_eq s _⟩

/-- A wait that finds a pending signal takes all that are in its set. -/
theorem osSigTimedWaitNoLock_pended {i : Bool} (hne : s.sigPendFlag &&& set ≠ 0) :
    ∃ (k : Nat) (u : SigInfo) (l : List SigInfo), (s.sigPendFlag &&& set).getLsbD k = true ∧ osSigTimedWaitNoLock s set i =
      ({ s with sigPendFlag := s.sigPendFlag ^^^ (s.sigPendFlag &&& set), sigunbinfo := u, tmpInfoList := l },
        some ((k + 1 : Nat) : Int)) := by
  obtain ⟨k,-,hfind,hbit⟩ := findFirstSetedBit_spec hne
  obtain ⟨u,l,hmove,-⟩ := osMoveTmpInfoToUnbInfo_eq { s with sigPendFlag := s.sigPendFlag ^^^ (s.sigPendFlag &&& set) } (k + 1)
  refine ⟨k,u,l,hbit,?_⟩
  rw [osSigTimedWaitNoLock, if_pos hne, hfind]
  exact Prod.ext hmove rfl

theorem osSigTimedWaitNoLock_waits {i : Bool} (hz : s.sigPendFlag &&& set = 0) :
    ∃ mask, osSigTimedWaitNoLock s set i =
      ({ s with sigwaitmask := mask, call := some i, waiting := true, timeout := false },none) := by
  rw [osSigTimedWaitNoLock, if_neg (not_not.mpr hz)]
  exact ⟨_,rfl⟩

/-- When no bit is in sigFlag after the switch, none of the pending signals is unmasked. -/
theorem osSigMaskSwitch_pend (s : SigCb) (set : BitVec 64) (h : (osSigMaskSwitch s set).sigFlag = 0) :
    (osSigMaskSwitch s set).sigPendFlag &&& ~~~set = 0 := by
  rw [osSigMaskSwitch] at h ⊢
  by_cases hu : ~~~set &&& s.sigPendFlag = 0
  · rw [if_neg (not_not.mpr hu), BitVec.and_comm]
    exact hu
  · rw [if_pos hu] at h
    exact absurd (BitVec.or_eq_zero_iff.mp h).2 hu

/-- A handler entry takes the signal that it enters out of the bits of the thread and of the process. -/
theorem osSaveSignalContext_cases (p : SigProcess) (t sigIntLock : Nat) (killed : Bool) {sigHandler : Nat} (hh : sigHandler ≠ 0) :
    osSaveSignalContext p t sigIntLock killed sigHandler = (p,none) ∨
    ∃ k u l, ((p.sig t).sigFlag ||| p.sigShare).getLsbD k = true ∧ osSaveSignalContext p t sigIntLock killed sigHandler =
      (p.set t { p.sig t with
        sigFlag := ((p.sig t).sigFlag ||| p.sigShare) ^^^ signo2Set k
        count := (p.sig t).count + 1
        sigunbinfo := u
        tmpInfoList := l },some (k + 1)) := by
  rw [osSaveSignalContext]
  by_cases hlock : sigIntLock > 0
  · exact .inl (if_pos hlock)
  by_cases hk : killed = true
  · exact .inl (by rw [if_neg hlock, if_pos hk])
  by_cases hsig : (p.sig t).count = 0 ∧ ((p.sig t).sigFlag ≠ 0 ∨ p.sigShare ≠ 0)
  · have hne : (p.sig t).sigFlag ||| p.sigShare ≠ 0 := fun hz =>
      hsig.2.elim (fun h => h (BitVec.or_eq_zero_iff.mp hz).1) fun h => h (BitVec.or_eq_zero_iff.mp hz).2
    obtain ⟨k,-,hfind,hbit⟩ := findFirstSetedBit_spec hne
    obtain ⟨u,l,hmove,-⟩ := osMoveTmpInfoToUnbInfo_eq { p.sig t with sigFlag := (p.sig t).sigFlag ||| p.sigShare } (k + 1)
    refine .inr ⟨k,u,l,hbit,?_⟩
    rw [if_neg hlock, if_neg hk, if_pos hsig, if_neg hh]
    dsimp only
    rw [hfind, show ((k : Int) + 1).toNat = k + 1 from rfl, hmove]
    rfl
  · exact .inl (by rw [if_neg hlock, if_neg hk, if_neg hsig])

end LiteOsKernel.Ipc.Signal
