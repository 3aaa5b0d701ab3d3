import LiteOsKernel.Posix.MqueueRun
import LiteOsKernel.Lib.Word

/-! The owner and mode that a message queue was created with, as against those that it has, along any run of mq_open, MqueueRefer,
mq_close and mq_unlink. -/
namespace LiteOsKernel.Posix.Mqueue

/-- The effective user and group of the caller that created a queue, and the mode that it gave. -/
structure Grant where
  euid : Nat
  egid : Nat
  mode : Nat

/-- given is about the last queue that was created at an index. -/
structure PermHist where
  st : MqState
  given : Nat → Grant

/-- MqueueModeAnalysisSet on mode_data. -/
def addMode (data mode : Nat) : Nat := modeBits.foldl (fun data bit => if mode &&& bit ≠ 0 then data ||| bit else data) data

/-- Owner, group and mode bits of a queue. -/
def MqState.owner (st : MqState) (s : Nat) : Nat × Nat × Nat := ((st.queueTable s).euid,(st.queueTable s).egid,(st.queueTable s).modeData)

namespace PermHist

/-- A queue was created at an index when its name is found there and was not before. -/
def give (x : PermHist) (before after : Option Nat) (user : User) (mode : Nat) : Nat → Grant :=
  match before, after with
  | none, some s => Function.update x.given s ⟨user.effUserID,user.effGid,mode⟩
  | _, _ => x.given

/-- GetPermissionOfVisitor against what the queue was created with. -/
def Grants (x : PermHist) (user : User) (s : Nat) : Prop :=
  let g := x.given s
  getPermissionOfVisitor (x.st.setSlot s { x.st.queueTable s with euid := g.euid, egid := g.egid, modeData := g.mode }) user (some s) = .ok s

end PermHist

/-- What there is of queues, with their names and owners, and the descriptor tables. -/
structure SameQueues (st st' : MqState) : Prop where
  queues : ∀ s, (st'.allQueue s).inUsed = (st.allQueue s).inUsed ∧
    ((st.allQueue s).inUsed = true → (st'.allQueue s).queueID = (st.allQueue s).queueID)
  names : ∀ s, (st'.queueTable s).mqcb = (st.queueTable s).mqcb ∧ (st'.queueTable s).mqName = (st.queueTable s).mqName
  owners : ∀ s, st'.owner s = st.owner s
  fds : st'.fdSet = st.fdSet ∧ st'.mqPrivBuf = st.mqPrivBuf

/-- An mq_open of a queue that exists has the permission that the queue was created with and keeps its owner, and one that fails changes
nothing. -/
structure OpenLaw (x : PermHist) (mqName : Option Name) (args : OpenArgs) : Prop where
  opened : (mqOpen x.st mqName args).2.ret ≠ -1 → ∀ s, getMqueueCBByName x.st (mqName.getD []) = some s →
    x.Grants args.user s ∧ (mqOpen x.st mqName args).1.owner s = x.st.owner s
  failed : (mqOpen x.st mqName args).2.ret = -1 → SameQueues x.st (mqOpen x.st mqName args).1

def FdFree (st : MqState) : Prop := ∃ i, i < MAX_MQ_FD ∧ st.fdSet i = false

/-- What O_CREAT sets is what the queue has: the caller is the owner, and the memory for the node has no mode bit besides those of the
queue. -/
structure KeepsOwner (st : MqState) (s : Nat) (args : OpenArgs) : Prop where
  euid : args.user.effUserID = (st.queueTable s).euid
  egid : args.user.effGid = (st.queueTable s).egid
  mode : ∀ bit ∈ modeBits, args.junk &&& bit ≠ 0 → (st.queueTable s).modeData &&& bit ≠ 0

/-- The owner may read or write. -/
def OwnerGranted (st : MqState) (s : Nat) (user : User) : Prop :=
  user.effUserID = 0 ∨ (st.queueTable s).modeData &&& S_IRUSR ≠ 0 ∨ (st.queueTable s).modeData &&& S_IWUSR ≠ 0

/-- Nothing fails after LOS_QueueCreate, or only the memory for the node is missing. -/
structure Completes (st : MqState) (s : Nat) (args : OpenArgs) : Prop where
  name : args.nameMem = true
  id : (st.allQueue s).queueID < 2^31
  fd : args.personal ≠ none → FdFree st

/-- The condition on an mq_open. It is about O_CREAT only. A queue that is there and can be opened is opened by its owner. Where the queue is
created, the steps after LOS_QueueCreate succeed. -/
structure OpenOk (st : MqState) (mqName : Option Name) (args : OpenArgs) : Prop where
  opens : mqNameCheck mqName = none → args.openFlag &&& O_CREAT ≠ 0 → args.openFlag &&& O_EXCL = 0 → args.personal ≠ none →
    ∀ s, getMqueueCBByName st (mqName.getD []) = some s → (st.queueTable s).unlinkflag = false →
      KeepsOwner st s args ∧ (FdFree st → OwnerGranted st s args.user)
  creates : mqNameCheck mqName = none → args.openFlag &&& O_CREAT ≠ 0 → getMqueueCBByName st (mqName.getD []) = none →
    ∀ attr, getMqueueAttr args.attr = .ok attr → 0 < attr.mqMaxmsg → 0 < attr.mqMsgsize → args.queueMem = true →
      ∀ s, st.freeQueueList.head? = some s → Completes st s args

namespace MqCall

def runPerm (x : PermHist) : MqCall → PermHist
  | openQueue mqName args =>
    let st := (mqOpen x.st mqName args).1
    let name := mqName.getD []
    ⟨st,x.give (getMqueueCBByName x.st name) (getMqueueCBByName st name) args.user args.mode⟩
  | refer sysFd => { x with st := mqueueRefer x.st sysFd }
  | close personal inUse => { x with st := (mqClose x.st personal inUse).1 }
  | unlink mqName inUse => { x with st := (mqUnlink x.st mqName inUse).1 }

/-- The memory for a node is free. -/
def Allocates (st : MqState) : MqCall → Prop
  | openQueue _ args => ∀ a, args.personal = some a → st.heap a = none
  | refer _ | close .. | unlink .. => True

def OpensOk (x : PermHist) : MqCall → Prop
  | openQueue mqName args => OpenOk x.st mqName args
  | refer _ | close .. | unlink .. => True

end MqCall

@[reducible] def permSystem : Run.System PermHist MqCall where
  init x := x.st = startMq
  pre x c := c.Allocates x.st
  run x c := c.runPerm x

/-- The kernel queues against the control blocks, whatever the nodes are. -/
structure OpenInv (st : MqState) : Prop where
  fds : ∀ i, st.fdSet i = false → st.mqPrivBuf i = none
  nodup : st.freeQueueList.Nodup
  free : ∀ i ∈ st.freeQueueList, i < LOSCFG_BASE_IPC_QUEUE_LIMIT ∧ (st.allQueue i).inUsed = false
  index : ∀ i, i < LOSCFG_BASE_IPC_QUEUE_LIMIT → getQueueIndex (st.allQueue i).queueID = i
  used : ∀ s, (st.queueTable s).mqcb ≠ none → s < LOSCFG_BASE_IPC_QUEUE_LIMIT ∧ (st.allQueue s).inUsed = true
  bare : ∀ s, (st.queueTable s).mqcb = none → (st.queueTable s).mqName = none ∧ (st.queueTable s).modeData = 0
  ids : ∀ s, (st.queueTable s).mqName ≠ none ∨ (st.queueTable s).mqPersonal ≠ none → getQueueIndex (st.queueTable s).mqId = s

/-- The queues that have a name have the owner and mode that they were created with. -/
structure PermInv (x : PermHist) : Prop where
  queues : OpenInv x.st
  given : ∀ s, (x.st.queueTable s).mqName ≠ none → x.st.owner s = ((x.given s).euid,(x.given s).egid,addMode 0 (x.given s).mode)

variable {st st' : MqState} {x : PermHist} {n : Name} {s a i : Nat} {q : Mqarray} {args : OpenArgs}

theorem OpenInv.setNode (hx : OpenInv st) (a : Nat) (p : Option Mqpersonal) : OpenInv (st.setNode a p) :=
  ⟨hx.fds,hx.nodup,hx.free,hx.index,hx.used,hx.bare,hx.ids⟩

/-- What holds of the other control blocks and of the new one. -/
theorem setSlot_forall {P : Nat → Mqarray → Prop} (hq : P s q) (ho : ∀ t, t ≠ s → P t (st.queueTable t)) (t : Nat) :
    P t ((st.setSlot s q).queueTable t) := by
  by_cases hts : t = s
  · rw [hts, setSlot_self]
    exact hq
  · rw [setSlot_of_ne _ _ hts]
    exact ho t hts

theorem OpenInv.setSlot (hx : OpenInv st) (hused : q.mqcb ≠ none → s < LOSCFG_BASE_IPC_QUEUE_LIMIT ∧ (st.allQueue s).inUsed = true)
    (hbare : q.mqcb = none → q.mqName = none ∧ q.modeData = 0)
    (hids : q.mqName ≠ none ∨ q.mqPersonal ≠ none → getQueueIndex q.mqId = s) : OpenInv (st.setSlot s q) := by
  refine ⟨hx.fds,hx.nodup,hx.free,hx.index,?_,?_,?_⟩
  · exact setSlot_forall (P := fun t q => q.mqcb ≠ none → t < LOSCFG_BASE_IPC_QUEUE_LIMIT ∧ (st.allQueue t).inUsed = true) hused
      fun t _ => hx.used t
  · exact setSlot_forall (P := fun _ q => q.mqcb = none → q.mqName = none ∧ q.modeData = 0) hbare fun t _ => hx.bare t
  · exact setSlot_forall (P := fun t q => q.mqName ≠ none ∨ q.mqPersonal ≠ none → getQueueIndex q.mqId = t) hids fun t _ => hx.ids t

/-- No queue has got a name or an owner. -/
structure Kept (st st' : MqState) : Prop where
  inv : OpenInv st'
  names : ∀ s, (st'.queueTable s).mqName ≠ none → (st.queueTable s).mqName ≠ none ∧ st'.owner s = st.owner s

theorem Kept.refl (hx : OpenInv st) : Kept st st := ⟨hx,fun _ h => ⟨h,rfl⟩⟩

theorem Kept.trans {st₂ : MqState} (h : Kept st st') (h' : Kept st' st₂) : Kept st st₂ := by
  refine ⟨h'.inv,fun s hs => ?_⟩
  obtain ⟨hs',ho'⟩ := h'.names s hs
  obtain ⟨hs,ho⟩ := h.names s hs'
  exact ⟨hs,ho'.trans ho⟩

theorem Kept.setNode (h : Kept st st') (a : Nat) (p : Option Mqpersonal) : Kept st (st'.setNode a p) :=
  ⟨h.inv.setNode a p,h.names⟩

theorem owner_setSlot (st : MqState) (s : Nat) (q : Mqarray) : (st.setSlot s q).owner s = (q.euid,q.egid,q.modeData) := by
  rw [MqState.owner, setSlot_self]

theorem owner_of_ne {t : Nat} (st : MqState) (q : Mqarray) (h : t ≠ s) : (st.setSlot s q).owner t = st.owner t := by
  rw [MqState.owner, setSlot_of_ne st q h, MqState.owner]

/-- A control block that keeps its name and its owner. -/
theorem Kept.setSlot (hx : OpenInv st) (hcb : q.mqcb = (st.queueTable s).mqcb) (hname : q.mqName = (st.queueTable s).mqName)
    (howner : (q.euid,q.egid,q.modeData) = st.owner s) (hid : q.mqId = (st.queueTable s).mqId)
    (hpers : q.mqPersonal ≠ none → (st.queueTable s).mqName ≠ none ∨ (st.queueTable s).mqPersonal ≠ none) : Kept st (st.setSlot s q) := by
  refine ⟨hx.setSlot ?_ ?_ ?_,fun t ht => ?_⟩
  · rw [hcb]
    exact hx.used s
  · have hmode : q.modeData = (st.queueTable s).modeData := congrArg (·.2.2) howner
    rw [hcb, hname, hmode]
    exact hx.bare s
  · rw [hname, hid]
    exact fun h => hx.ids s (h.elim .inl hpers)
  · by_cases hts : t = s
    · subst hts
      rw [setSlot_self, hname] at ht
      exact ⟨ht,(owner_setSlot st t q).trans howner⟩
    · rw [setSlot_of_ne _ _ hts] at ht
      exact ⟨ht,owner_of_ne st q hts⟩

/-- A kernel queue without a control block is deleted. -/
theorem OpenInv.queueDelete {queueID : Nat} (hx : OpenInv st) (hcb : (st.queueTable (getQueueIndex queueID)).mqcb = none) (inUse : Bool) :
    OpenInv (losQueueDelete st queueID inUse).1 := by
  rw [losQueueDelete]
  split_ifs with hlimit hcreate huse
  · exact hx
  · exact hx
  · exact hx
  · obtain ⟨-,hused⟩ := not_or.mp hcreate
    have hlt := Nat.lt_of_not_le hlimit
    have hnew : getQueueIndex queueID ∉ st.freeQueueList := fun h => hused (hx.free _ h).2
    refine ⟨hx.fds,?_,fun i hi => ?_,fun i hi => ?_,fun t ht => ?_,hx.bare,hx.ids⟩
    · exact List.nodup_append.mpr ⟨hx.nodup,List.nodup_singleton _,fun b hb c hc he => hnew (by rwa [← List.mem_singleton.mp hc, ← he])⟩
    · simp only
      rcases List.mem_append.mp hi with hi | hi
      · have hne : i ≠ getQueueIndex queueID := fun he => hnew (he ▸ hi)
        rw [Function.update_of_ne hne]
        exact hx.free i hi
      · rw [List.mem_singleton.mp hi, Function.update_self]
        exact ⟨hlt,rfl⟩
    · simp only
      by_cases hie : i = getQueueIndex queueID
      · rw [hie, Function.update_self]
        exact getQueueIndex_set hlt _
      · rw [Function.update_of_ne hie]
        exact hx.index i hi
    · have hne : t ≠ getQueueIndex queueID := fun he => ht (he ▸ hcb)
      simp only
      rw [Function.update_of_ne hne]
      exact hx.used t ht

theorem queueDelete_rest (st : MqState) (queueID : Nat) (inUse : Bool) : (losQueueDelete st queueID inUse).1.queueTable = st.queueTable ∧
    (losQueueDelete st queueID inUse).1.fdSet = st.fdSet ∧ (losQueueDelete st queueID inUse).1.mqPrivBuf = st.mqPrivBuf := by
  rw [losQueueDelete]
  split_ifs
  all_goals exact ⟨rfl,rfl,rfl⟩

theorem Kept.delete (hx : OpenInv st) (hid : getQueueIndex (st.queueTable s).mqId = s) (inUse : Bool) :
    Kept st (doMqueueDelete st s inUse).1 := by
  have hst : (doMqueueDelete st s inUse).1 = (losQueueDelete (st.setSlot s
      { st.queueTable s with mqName := none, mqcb := none, modeData := 0, euid := NO_ID, egid := NO_ID })
      (st.queueTable s).mqId inUse).1 := by
    rw [doMqueueDelete]
    simp only
    split <;> rename_i h <;> exact (congrArg Prod.fst h).symm
  rw [hst]
  have hbare : OpenInv (st.setSlot s { st.queueTable s with mqName := none, mqcb := none, modeData := 0, euid := NO_ID, egid := NO_ID }) :=
    hx.setSlot (fun h => absurd rfl h) (fun _ => ⟨rfl,rfl⟩) fun _ => hid
  refine ⟨hbare.queueDelete ?_ inUse,fun t ht => ?_⟩
  · rw [hid, setSlot_self]
  · rw [(queueDelete_rest _ _ _).1] at ht
    rw [MqState.owner, (queueDelete_rest _ _ _).1]
    by_cases hts : t = s
    · rw [hts, setSlot_self] at ht
      exact absurd rfl ht
    · rw [setSlot_of_ne _ _ hts] at ht ⊢
      exact ⟨ht,rfl⟩

theorem Kept.remove (hx : OpenInv st) (a : Nat) : Kept st (mqpersonalRemove st a).1 := by
  rw [mqpersonalRemove]
  simp only
  split_ifs with hfirst
  · refine Kept.setNode ?_ a none
    refine Kept.setSlot hx rfl rfl rfl rfl fun _ => .inr ?_
    rw [hfirst]
    exact Option.some_ne_none a
  · split
    · exact Kept.refl hx
    · exact ((Kept.refl hx).setNode _ _).setNode _ _

theorem Kept.close (hx : OpenInv st) (a : Nat) (inUse : Bool) : Kept st (doMqueueClose st a inUse).1 := by
  rw [doMqueueClose]
  simp only
  split_ifs with hempty hlast
  · exact Kept.refl hx
  · exact Kept.delete hx (hx.ids _ (.inr hempty)) inUse
  · have hdelete := Kept.delete hx (hx.ids _ (.inr hempty)) inUse
    exact hdelete.trans (Kept.remove hdelete.inv a)
  · exact Kept.remove hx a

private theorem Kept.freeSysFd (h : Kept st st') (i : Nat) : Kept st (mqFreeSysFd st' i) := by
  rw [mqFreeSysFd]
  split_ifs with hset
  · refine ⟨⟨fun j hj => ?_,h.inv.nodup,h.inv.free,h.inv.index,h.inv.used,h.inv.bare,h.inv.ids⟩,h.names⟩
    simp only at hj ⊢
    by_cases hji : j = i
    · rw [hji, Function.update_self]
    · rw [Function.update_of_ne hji] at hj ⊢
      exact h.inv.fds j hj
  · exact h

theorem Kept.mqClose (hx : OpenInv st) (personal : Int) (inUse : Bool) : Kept st (mqClose st personal inUse).1 := by
  rw [Mqueue.mqClose]
  split
  · exact Kept.refl hx
  · exact Kept.refl hx
  · rename_i a _
    split_ifs
    · exact Kept.refl hx
    · have htry : Kept st (mqTryClose st a).1 := by
        rw [mqTryClose]
        split_ifs
        · exact Kept.refl hx
        · exact (Kept.refl hx).setNode _ _
      split
      · rename_i h
        rw [h] at htry
        exact htry
      · rename_i st₁ h
        rw [h] at htry
        have hclose := htry.trans (Kept.close htry.inv a inUse)
        simp only
        split_ifs
        · exact hclose
        · exact hclose.freeSysFd _

theorem Kept.mqUnlink (hx : OpenInv st) (mqName : Option Name) (inUse : Bool) : Kept st (mqUnlink st mqName inUse).1 := by
  rw [Mqueue.mqUnlink]
  split
  · exact Kept.refl hx
  · split
    · exact Kept.refl hx
    · rename_i s hs
      simp only
      split_ifs
      · exact Kept.setSlot hx rfl rfl rfl rfl .inr
      · refine Kept.delete hx (hx.ids s (.inl ?_)) inUse
        rw [(byName_some hs).2]
        exact Option.some_ne_none _
      · exact Kept.refl hx

theorem Kept.refer (hx : OpenInv st) (sysFd : Int) : Kept st (mqueueRefer st sysFd) := by
  rw [mqueueRefer]
  split
  · exact (Kept.refl hx).setNode _ _
  · exact Kept.refl hx

theorem PermInv.kept (hx : PermInv x) (h : Kept x.st st') : PermInv { x with st := st' } := by
  refine ⟨h.inv,fun s hs => ?_⟩
  obtain ⟨hname,howner⟩ := h.names s hs
  exact howner.trans (hx.given s hname)

private theorem and_two_pow_ne_zero (m k : Nat) : m &&& 2^k ≠ 0 ↔ m.testBit k = true := by
  rw [Ne, Word.and_two_pow_eq_zero, Nat.testBit_eq_decide_div_mod_eq, decide_eq_true_eq]
  exact Nat.mod_two_ne_zero

private theorem foldl_mode (mode : Nat) (ks : List Nat) (data j : Nat) :
    ((ks.map (2^·)).foldl (fun data bit => if mode &&& bit ≠ 0 then data ||| bit else data) data).testBit j =
      (data.testBit j || (decide (j ∈ ks) && mode.testBit j)) := by
  induction ks generalizing data with
  | nil => simp
  | cons k ks ih =>
    rw [List.map_cons, List.foldl_cons, ih]
    have hstep : (if mode &&& 2^k ≠ 0 then data ||| 2^k else data).testBit j = (data.testBit j || (decide (j = k) && mode.testBit j)) := by
      by_cases hm : mode.testBit k = true
      · rw [if_pos ((and_two_pow_ne_zero mode k).mpr hm), Nat.testBit_or, Nat.testBit_two_pow]
        by_cases hjk : j = k
        · simp [hjk, hm]
        · simp [hjk, Ne.symm hjk]
      · rw [if_neg fun h => hm ((and_two_pow_ne_zero mode k).mp h)]
        by_cases hjk : j = k
        · simp [hjk, hm]
        · simp [hjk]
    rw [hstep, List.decide_mem_cons, beq_eq_decide, Bool.or_assoc, ← Bool.and_or_distrib_right]

private theorem modeBits_eq : modeBits = [8,7,5,4,2,1].map (2^·) := rfl

private theorem addMode_testBit (data mode j : Nat) :
    (addMode data mode).testBit j = (data.testBit j || (decide (j ∈ [8,7,5,4,2,1]) && mode.testBit j)) := by
  rw [addMode, modeBits_eq]
  exact foldl_mode mode _ data j

/-- Bits are added where they are missing. -/
theorem addMode_eq_self (data mode : Nat) : addMode data mode = data ↔ ∀ bit ∈ modeBits, mode &&& bit ≠ 0 → data &&& bit ≠ 0 := by
  rw [modeBits_eq, List.forall_mem_map]
  constructor
  · intro h j hj hm
    rw [and_two_pow_ne_zero] at hm ⊢
    rw [← h, addMode_testBit, hm, decide_eq_true hj]
    exact Bool.or_true _
  · intro h
    refine Nat.eq_of_testBit_eq fun j => ?_
    rw [addMode_testBit]
    by_cases hj : j ∈ [8,7,5,4,2,1] ∧ mode.testBit j = true
    · have hd := (and_two_pow_ne_zero data j).mp (h j hj.1 ((and_two_pow_ne_zero mode j).mpr hj.2))
      rw [hd]
      rfl
    · have hnone : (decide (j ∈ [8,7,5,4,2,1]) && mode.testBit j) = false := by
        rw [Bool.and_eq_false_iff, decide_eq_false_iff_not, ← Bool.not_eq_true]
        exact not_and_or.mp hj
      rw [hnone]
      exact Bool.or_false _

/-- The bits that GetPermissionOfVisitor reads are those of the mode. -/
private theorem addMode_zero (mode bit : Nat) (hb : bit ∈ modeBits) : addMode 0 mode &&& bit ≠ 0 ↔ mode &&& bit ≠ 0 := by
  rw [modeBits_eq] at hb
  obtain ⟨j,hj,rfl⟩ := List.mem_map.mp hb
  rw [and_two_pow_ne_zero, and_two_pow_ne_zero, addMode_testBit, Nat.zero_testBit, decide_eq_true hj]
  rfl

theorem PermInv.grants_iff (hx : PermInv x) (hs : (x.st.queueTable s).mqName ≠ none) (user : User) :
    x.Grants user s ↔ getPermissionOfVisitor x.st user (some s) = .ok s := by
  have howner := hx.given s hs
  have heuid : (x.st.queueTable s).euid = (x.given s).euid := congrArg (·.1) howner
  have hegid : (x.st.queueTable s).egid = (x.given s).egid := congrArg (·.2.1) howner
  have hmode : (x.st.queueTable s).modeData = addMode 0 (x.given s).mode := congrArg (·.2.2) howner
  have hbits := addMode_zero (x.given s).mode
  rw [PermHist.Grants, getPermissionOfVisitor, getPermissionOfVisitor]
  simp only [setSlot_self, heuid, hegid, hmode]
  simp only [ne_eq] at hbits
  simp only [ne_eq, hbits S_IRUSR (by decide), hbits S_IWUSR (by decide), hbits S_IRGRP (by decide), hbits S_IWGRP (by decide),
    hbits S_IROTH (by decide), hbits S_IWOTH (by decide)]

/-- The permission of the owner. -/
theorem KeepsOwner.granted (h : KeepsOwner st s args) :
    getPermissionOfVisitor st args.user (some s) = .ok s ↔ OwnerGranted st s args.user := by
  rw [getPermissionOfVisitor, OwnerGranted]
  by_cases hroot : args.user.effUserID = 0
  · rw [if_pos hroot]
    exact iff_of_true rfl (.inl hroot)
  · rw [if_neg hroot, if_pos h.euid]
    split_ifs with hmode
    · exact iff_of_true rfl (.inr hmode)
    · exact iff_of_false (by rintro ⟨⟩) fun h => h.elim hroot hmode

theorem keepsOwner_iff : KeepsOwner st s args ↔
    (args.user.effUserID,args.user.effGid,addMode (st.queueTable s).modeData args.junk) = st.owner s := by
  rw [MqState.owner, Prod.mk.injEq, Prod.mk.injEq, addMode_eq_self]
  exact ⟨fun h => ⟨h.euid,h.egid,h.mode⟩,fun ⟨h1,h2,h3⟩ => ⟨h1,h2,h3⟩⟩

theorem SameQueues.refl (st : MqState) : SameQueues st st := ⟨fun _ => ⟨rfl,fun _ => rfl⟩,fun _ => ⟨rfl,rfl⟩,fun _ => rfl,rfl,rfl⟩

theorem OpenLaw.owner {name : Name} (hlaw : OpenLaw x (some name) args) (hf : getMqueueCBByName x.st name = some s) :
    (mqOpen x.st (some name) args).1.owner s = x.st.owner s := by
  by_cases hret : (mqOpen x.st (some name) args).2.ret = -1
  · exact (hlaw.failed hret).owners s
  · exact (hlaw.opened hret s hf).2

theorem setSlot_eq_self (h : q = st.queueTable s) : st.setSlot s q = st := by
  rw [MqState.setSlot, h, Function.update_eq_self]

end LiteOsKernel.Posix.Mqueue
