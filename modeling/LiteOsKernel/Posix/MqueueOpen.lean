import LiteOsKernel.Posix.MqueuePerm

/-! Who may open a message queue, along any run of mq_open, MqueueRefer, mq_close and mq_unlink by any processes: what mq_open does against
the owner and mode that a queue was created with, and what one that fails leaves behind. -/
namespace LiteOsKernel.Posix.Mqueue

variable {st st' : MqState} {x : PermHist} {n : Name} {s a i : Nat} {q : Mqarray} {args : OpenArgs}

/-- What an mq_open does to the condition, and to the owners if it meets it. -/
structure OpenCase (x : PermHist) (mqName : Option Name) (args : OpenArgs) : Prop where
  law : OpenLaw x mqName args ↔ OpenOk x.st mqName args
  inv : OpenOk x.st mqName args → PermInv ((MqCall.openQueue mqName args).runPerm x)

section
variable {mqName : Option Name} {name : Name} {e : Option Errno}

theorem OpenCase.failed (hx : PermInv x) (h : mqOpen x.st mqName args = (st',⟨-1,e⟩)) (hs : SameQueues x.st st') (hinv : OpenInv st')
    (hok : OpenOk x.st mqName args) : OpenCase x mqName args := by
  refine ⟨iff_of_true ⟨fun hne => ?_,fun _ => ?_⟩ hok,fun _ => ?_⟩
  · rw [h] at hne
    exact absurd rfl hne
  · rw [h]
    exact hs
  · have hnames := byName_congr (fun s => (hs.names s).2) (mqName.getD [])
    rw [MqCall.runPerm, h]
    simp only
    rw [hnames]
    have hgive : x.give (getMqueueCBByName x.st (mqName.getD [])) (getMqueueCBByName x.st (mqName.getD [])) args.user args.mode = x.given := by
      cases getMqueueCBByName x.st (mqName.getD []) <;> rfl
    rw [hgive]
    refine hx.kept ⟨hinv,fun s hname => ⟨?_,hs.owners s⟩⟩
    rwa [(hs.names s).2] at hname

/-- An mq_open that does not fail, on a queue that is there. -/
theorem OpenCase.opened (hx : PermInv x) (h : mqOpen x.st mqName args = (st',⟨i + MQUEUE_FD_OFFSET,none⟩))
    (hf : getMqueueCBByName x.st (mqName.getD []) = some s) (hk : Kept x.st st') (howner : st'.owner s = x.st.owner s)
    (hok : x.Grants args.user s ↔ OpenOk x.st mqName args) : OpenCase x mqName args := by
  refine ⟨⟨fun hlaw => hok.mp ?_,fun ho => ⟨fun _ t ht => ?_,fun hret => ?_⟩⟩,fun _ => ?_⟩
  · refine (hlaw.opened ?_ s hf).1
    rw [h]
    exact fd_ne i
  · obtain rfl := Option.some.inj (hf.symm.trans ht)
    rw [h]
    exact ⟨hok.mpr ho,howner⟩
  · rw [h] at hret
    exact absurd hret (fd_ne i)
  · rw [MqCall.runPerm, h, hf]
    exact hx.kept hk

private theorem OpenCase.broken (hlaw : ¬ OpenLaw x mqName args) (hok : ¬ OpenOk x.st mqName args) : OpenCase x mqName args :=
  ⟨iff_of_false hlaw hok,fun ho => absurd ho hok⟩

/-- MqAllocSysFd fails where no descriptor is free only. -/
theorem OpenInv.allocSysFd (hx : OpenInv st) (a : Nat) : (mqAllocSysFd st MAX_MQ_FD a = (st,none) ∧ ¬ FdFree st) ∨
    ∃ i, mqAllocSysFd st MAX_MQ_FD a = (st.giveFd i a,some i) ∧ FdFree st := by
  rcases allocSysFdLoop_eq hx.fds a MAX_MQ_FD 0 with ⟨h,hall⟩ | ⟨i,hlt,hi,h⟩
  · refine .inl ⟨h,fun ⟨i,hlt,hi⟩ => ?_⟩
    rw [hall i (Nat.zero_le i) (by omega)] at hi
    exact absurd hi (by decide)
  · exact .inr ⟨i,h,i,by omega,hi⟩

theorem Kept.giveFd (h : Kept st st') (i a : Nat) : Kept st (st'.giveFd i a) := by
  refine ⟨⟨fun j hj => ?_,h.inv.nodup,h.inv.free,h.inv.index,h.inv.used,h.inv.bare,h.inv.ids⟩,h.names⟩
  change Function.update st'.fdSet i true j = false at hj
  change Function.update st'.mqPrivBuf i (some a) j = none
  have hji : j ≠ i := by
    rintro rfl
    rw [Function.update_self] at hj
    exact absurd hj (by decide)
  rw [Function.update_of_ne hji] at hj ⊢
  exact h.inv.fds j hj

theorem Kept.push (hx : OpenInv st) (hname : (st.queueTable s).mqName ≠ none) (a : Nat) (p : Mqpersonal) : Kept st (st.push s a p) := by
  have hslot : Kept st (st.setSlot s { st.queueTable s with mqPersonal := some a }) :=
    Kept.setSlot hx rfl rfl rfl rfl fun _ => .inl hname
  exact hslot.setNode a (some p)

private theorem owner_push {t : Nat} (st : MqState) (a : Nat) (p : Mqpersonal) : (st.push s a p).owner t = st.owner t := by
  by_cases hts : t = s
  · rw [hts, MqState.owner, push_slot, MqState.owner]
  · rw [MqState.owner, push_other _ hts, MqState.owner]

/-- A node is put in front of the list of a queue and taken from it. -/
private theorem close_push {p : Mqpersonal} (hpos : p.mqPosixdes = s) (hflag : (st.queueTable s).unlinkflag = false) (inUse : Bool) :
    doMqueueClose (st.push s a p) a inUse =
      (((st.push s a p).setSlot s { st.queueTable s with mqPersonal := p.mqNext }).setNode a none,⟨0,none⟩) := by
  have hheap : (st.push s a p).heap a = some p := Function.update_self ..
  have hnode := node_eq hheap
  have hslot := push_slot st s a p
  rw [doMqueueClose_head hnode hpos (by rw [hslot]) (by rw [hslot]; exact hflag), hslot]

/-- The queue at s is opened and keeps its owner. -/
theorem OpenCase.push {p : Mqpersonal} (hx : PermInv x) (hcheck : mqNameCheck (some name) = none)
    (hf : getMqueueCBByName x.st name = some s) (hflag : (x.st.queueTable s).unlinkflag = false) (hpos : p.mqPosixdes = s)
    (hopen : mqOpenPersonal x.st name args = (x.st.push s a p,.ok a))
    (hok : OpenOk x.st (some name) args ↔ (FdFree x.st → x.Grants args.user s)) : OpenCase x (some name) args := by
  have hname : (x.st.queueTable s).mqName ≠ none := by
    rw [(byName_some hf).2]
    exact Option.some_ne_none name
  have hk := Kept.push hx.queues hname a p
  have howner : ∀ t q, (q.euid,q.egid,q.modeData) = x.st.owner s → ((x.st.push s a p).setSlot s q).owner t = x.st.owner t := by
    intro t q hq
    by_cases hts : t = s
    · rw [hts, owner_setSlot, hq]
    · rw [owner_of_ne _ _ hts, owner_push]
  rcases hk.inv.allocSysFd a with ⟨halloc,hnone⟩ | ⟨i,halloc,hfree⟩
  · have hclose := close_push (a := a) hpos hflag false
    have hr := mqOpen_enfile hcheck hopen halloc
    rw [hclose] at hr
    have hclosed : Kept (x.st.push s a p) ((x.st.push s a p).setSlot s { x.st.queueTable s with mqPersonal := p.mqNext }) := by
      refine Kept.setSlot hk.inv ?_ ?_ (owner_push _ _ _).symm ?_ fun _ => .inl ?_
      all_goals rw [push_slot]
      exact hname
    have hnames : ∀ t, (((x.st.push s a p).setSlot s { x.st.queueTable s with mqPersonal := p.mqNext }).queueTable t).mqcb =
        (x.st.queueTable t).mqcb ∧ (((x.st.push s a p).setSlot s { x.st.queueTable s with mqPersonal := p.mqNext }).queueTable t).mqName =
        (x.st.queueTable t).mqName := by
      refine setSlot_forall (P := fun t q => q.mqcb = (x.st.queueTable t).mqcb ∧ q.mqName = (x.st.queueTable t).mqName) ⟨rfl,rfl⟩
        fun t hts => ?_
      rw [push_other _ hts]
      exact ⟨rfl,rfl⟩
    exact .failed hx hr ⟨fun _ => ⟨rfl,fun _ => rfl⟩,hnames,fun t => howner t _ rfl,rfl,rfl⟩ (hclosed.inv.setNode a none)
      (hok.mpr fun hfree => absurd hfree hnone)
  · refine .opened hx (mqOpen_ok hcheck hopen halloc) hf (hk.giveFd i a) ?_ (hok.trans ⟨fun h => h hfree,fun h _ => h⟩).symm
    exact owner_setSlot _ s _

private theorem doMqueueOpen_push (hflag : (st.queueTable s).unlinkflag = false) (ha : args.personal = some a) :
    doMqueueOpen st s args = (st.push s a ⟨s,(st.queueTable s).mqPersonal,args.openFlag,args.junk,MQ_USE_MAGIC,0⟩,.ok a) := by
  rw [doMqueueOpen, if_neg (by rw [hflag]; exact Bool.false_ne_true), ha]
  rfl

private theorem doMqueueOpen_error (h : (st.queueTable s).unlinkflag = true ∨ args.personal = none) :
    ∃ e, doMqueueOpen st s args = (st,.error e) := by
  rw [doMqueueOpen]
  split_ifs with hflag
  · exact ⟨_,rfl⟩
  · rw [h.resolve_left hflag]
    exact ⟨_,rfl⟩

/-- An mq_open that fails before it has changed anything. -/
private theorem OpenCase.unchanged {e : Errno} (hx : PermInv x) (hcheck : mqNameCheck (some name) = none)
    (h : mqOpenPersonal x.st name args = (x.st,.error e)) (hok : OpenOk x.st (some name) args) : OpenCase x (some name) args :=
  .failed hx (mqOpen_error hcheck h) (SameQueues.refl x.st) hx.queues hok

/-- Without O_CREAT. -/
private theorem PermInv.openPlain (hx : PermInv x) (hcheck : mqNameCheck (some name) = none) (hcreat : ¬ args.openFlag &&& O_CREAT ≠ 0) :
    OpenCase x (some name) args := by
  have hok : OpenOk x.st (some name) args := ⟨fun _ h => absurd h hcreat,fun _ h => absurd h hcreat⟩
  cases hperm : getPermissionOfVisitor x.st args.user (getMqueueCBByName x.st name) with
  | error e =>
    refine .unchanged hx hcheck (e := e) ?_ hok
    rw [mqOpenPersonal, if_neg hcreat, hperm]
  | ok s =>
    have hf := permission_some hperm
    have hopen : mqOpenPersonal x.st name args = doMqueueOpen x.st s args := by
      rw [mqOpenPersonal, if_neg hcreat, hperm]
    by_cases herr : (x.st.queueTable s).unlinkflag = true ∨ args.personal = none
    · obtain ⟨e,he⟩ := doMqueueOpen_error herr
      exact .unchanged hx hcheck (hopen.trans he) hok
    · obtain ⟨hflag,hpers⟩ := not_or.mp herr
      obtain ⟨a,ha⟩ := Option.ne_none_iff_exists'.mp hpers
      have hflag' := Bool.eq_false_of_not_eq_true hflag
      have hname : (x.st.queueTable s).mqName ≠ none := by
        rw [(byName_some hf).2]
        exact Option.some_ne_none name
      rw [hf] at hperm
      exact .push hx hcheck hf hflag' rfl (hopen.trans (doMqueueOpen_push hflag' ha))
        (iff_of_true hok fun _ => (hx.grants_iff hname args.user).mpr hperm)

/-- MqueueModeAnalysisSet on the first node of a queue. -/
private theorem mode_head {p : Mqpersonal} (hnode : st.node a = p) (hpos : p.mqPosixdes = s) (hpers : (st.queueTable s).mqPersonal = some a)
    (user : User) : mqueueModeAnalysisSet st user (.ok a) = st.setSlot s
      { st.queueTable s with
        euid := user.effUserID, egid := user.effGid, modeData := addMode (st.queueTable s).modeData p.mqMode } := by
  have hset : mqueueModeAnalysisSet st user (.ok a) = st.setSlot (st.node a).mqPosixdes
      { st.queueTable (st.node a).mqPosixdes with
        euid := user.effUserID, egid := user.effGid, modeData := addMode (st.queueTable (st.node a).mqPosixdes).modeData
          (st.node ((st.queueTable (st.node a).mqPosixdes).mqPersonal.getD 0)).mqMode } := rfl
  rw [hset, hnode, hpos, hpers, Option.getD_some, hnode]

/-- What mq_open does once the queue has its first node: the owner and the kernel queues stay, and it fails where no descriptor is free. -/
private theorem mqOpen_finish {st₂ : MqState} {p : Mqpersonal} (hx : OpenInv st₂) (hcheck : mqNameCheck (some name) = none)
    (hopen : mqOpenPersonal st name args = (st₂,.ok a)) (hnode : st₂.node a = p) (hpos : p.mqPosixdes = s)
    (hpers : (st₂.queueTable s).mqPersonal = some a) (hflag : (st₂.queueTable s).unlinkflag = false) :
    (mqOpen st (some name) args).1.owner s = st₂.owner s ∧ (mqOpen st (some name) args).1.allQueue = st₂.allQueue ∧
      ((mqOpen st (some name) args).2.ret = -1 ↔ ¬ FdFree st₂) := by
  rcases hx.allocSysFd a with ⟨halloc,hnone⟩ | ⟨i,halloc,hfree⟩
  · rw [mqOpen_enfile hcheck hopen halloc, doMqueueClose_head hnode hpos hpers hflag]
    exact ⟨owner_setSlot st₂ s _,rfl,iff_of_true rfl hnone⟩
  · rw [mqOpen_ok hcheck hopen halloc]
    exact ⟨rfl,rfl,iff_of_false (fd_ne i) (not_not.mpr hfree)⟩

/-- O_CREAT on a queue that is there, which gets the owner and the mode bits of the node. -/
private theorem PermInv.openCreat (hx : PermInv x) (hcheck : mqNameCheck (some name) = none) (hcreat : args.openFlag &&& O_CREAT ≠ 0)
    (hf : getMqueueCBByName x.st name = some s) : OpenCase x (some name) args := by
  have hfound : getMqueueCBByName x.st name ≠ none := by
    rw [hf]
    exact Option.some_ne_none s
  have hok : (args.openFlag &&& O_EXCL = 0 → args.personal ≠ none → (x.st.queueTable s).unlinkflag = false →
      KeepsOwner x.st s args ∧ (FdFree x.st → OwnerGranted x.st s args.user)) ↔ OpenOk x.st (some name) args := by
    refine ⟨fun h => ⟨fun _ _ hexcl hpers t ht => ?_,fun _ _ hnone => absurd hnone hfound⟩,fun h hexcl hpers => h.opens hcheck hcreat hexcl hpers s hf⟩
    obtain rfl := Option.some.inj (hf.symm.trans ht)
    exact h hexcl hpers
  by_cases hexcl : args.openFlag &&& O_EXCL = 0
  · by_cases herr : (x.st.queueTable s).unlinkflag = true ∨ args.personal = none
    · obtain ⟨e,he⟩ := doMqueueOpen_error herr
      refine .unchanged hx hcheck (e := e) ?_ (hok.mp fun _ hpers hflag => ?_)
      · rw [mqOpenPersonal, if_pos hcreat, hf]
        simp only
        rw [if_neg (not_not.mpr hexcl), he]
        rfl
      · exact absurd (herr.resolve_right hpers) (by rw [hflag]; exact Bool.false_ne_true)
    · obtain ⟨hflag,hpers⟩ := not_or.mp herr
      obtain ⟨a,ha⟩ := Option.ne_none_iff_exists'.mp hpers
      have hflag' := Bool.eq_false_of_not_eq_true hflag
      have hname : (x.st.queueTable s).mqName ≠ none := by
        rw [(byName_some hf).2]
        exact Option.some_ne_none name
      let p : Mqpersonal := ⟨s,(x.st.queueTable s).mqPersonal,args.openFlag,args.junk,MQ_USE_MAGIC,0⟩
      have hslot := push_slot x.st s a p
      have hheap : (x.st.push s a p).heap a = some p := Function.update_self ..
      have hmode := mode_head (node_eq hheap) rfl (by rw [hslot]) args.user
      rw [hslot] at hmode
      have hopen : mqOpenPersonal x.st name args = (mqueueModeAnalysisSet (x.st.push s a p) args.user (.ok a),.ok a) := by
        rw [mqOpenPersonal, if_pos hcreat, hf]
        simp only
        rw [if_neg (not_not.mpr hexcl), doMqueueOpen_push hflag' ha]
      by_cases hkeeps : KeepsOwner x.st s args
      · have hsame : mqueueModeAnalysisSet (x.st.push s a p) args.user (.ok a) = x.st.push s a p := by
          rw [hmode, hkeeps.euid, hkeeps.egid, (addMode_eq_self _ _).mpr hkeeps.mode]
          exact setSlot_eq_self hslot.symm
        rw [hsame] at hopen
        refine .push hx hcheck hf hflag' rfl hopen (hok.symm.trans ?_)
        rw [hx.grants_iff hname, hkeeps.granted]
        exact ⟨fun h => (h hexcl hpers hflag').2,fun h _ _ _ => ⟨hkeeps,h⟩⟩
      · refine .broken (fun hlaw => hkeeps ?_) fun ho => hkeeps (hok.mpr ho hexcl hpers hflag').1
        have hinv := (Kept.push hx.queues hname a p).inv
        rw [hmode] at hopen
        have hmoded := hinv.setSlot (s := s) (q := { x.st.queueTable s with
          mqPersonal := some a, euid := args.user.effUserID, egid := args.user.effGid,
          modeData := addMode (x.st.queueTable s).modeData p.mqMode }) (hx.queues.used s)
          (fun hcb => absurd (hx.queues.bare s hcb).1 hname) fun _ => hx.queues.ids s (.inl hname)
        obtain ⟨howner,-,-⟩ := mqOpen_finish hmoded hcheck hopen (node_eq hheap) rfl (by rw [setSlot_self]) (by rw [setSlot_self]; exact hflag')
        rw [owner_setSlot] at howner
        rw [keepsOwner_iff, ← hlaw.owner hf, howner]
  · refine .unchanged hx hcheck (e := .EEXIST) ?_ (hok.mp fun h => absurd h hexcl)
    rw [mqOpenPersonal, if_pos hcreat, hf]
    exact if_pos hexcl

/-- The next queue that LOS_QueueCreate takes has no control block. -/
theorem OpenInv.next {freeQueueList : List Nat} (hx : OpenInv st) (hfree : st.freeQueueList = s :: freeQueueList) :
    s < LOSCFG_BASE_IPC_QUEUE_LIMIT ∧ (st.allQueue s).inUsed = false ∧ getQueueIndex (st.allQueue s).queueID = s ∧
      (st.queueTable s).mqcb = none := by
  obtain ⟨hlt,hun⟩ := hx.free s (hfree ▸ List.mem_cons_self)
  refine ⟨hlt,hun,hx.index s hlt,?_⟩
  by_contra hcb
  rw [(hx.used s hcb).2] at hun
  exact absurd hun (by decide)

/-- The kernel queue that LOS_QueueCreate has taken from the list. -/
def MqState.taken (st : MqState) (s : Nat) (freeQueueList : List Nat) : MqState :=
  { st with
    freeQueueList := freeQueueList
    allQueue := Function.update st.allQueue s ⟨(st.allQueue s).queueID,true⟩ }

private theorem taken_queue (st : MqState) (s : Nat) (freeQueueList : List Nat) :
    (st.taken s freeQueueList).allQueue s = ⟨(st.allQueue s).queueID,true⟩ := Function.update_self ..

theorem OpenInv.taken {freeQueueList : List Nat} (hx : OpenInv st) (hfree : st.freeQueueList = s :: freeQueueList) :
    OpenInv (st.taken s freeQueueList) := by
  have hnodup := hx.nodup
  rw [hfree] at hnodup
  obtain ⟨hs,hnodup⟩ := List.nodup_cons.mp hnodup
  have hother : ∀ t, t ≠ s → (st.taken s freeQueueList).allQueue t = st.allQueue t := fun t hts => Function.update_of_ne hts ..
  refine ⟨hx.fds,hnodup,fun i hi => ?_,fun i hi => ?_,fun t ht => ⟨(hx.used t ht).1,?_⟩,hx.bare,hx.ids⟩
  · rw [hother i fun he => hs (he ▸ hi)]
    exact hx.free i (hfree ▸ List.mem_cons_of_mem s hi)
  · by_cases his : i = s
    · rw [his, taken_queue]
      exact his ▸ hx.index i hi
    · rw [hother i his]
      exact hx.index i hi
  · by_cases hts : t = s
    · rw [hts, taken_queue]
    · rw [hother t hts]
      exact (hx.used t ht).2

/-- The state in front of SaveMqueueName. -/
def MqState.named (st : MqState) (s : Nat) (freeQueueList : List Nat) : MqState :=
  (st.taken s freeQueueList).setSlot s { st.queueTable s with mqId := (st.allQueue s).queueID % 2^31 }

private theorem named_slot (st : MqState) (s : Nat) (freeQueueList : List Nat) : (st.named s freeQueueList).queueTable s =
    { st.queueTable s with mqId := (st.allQueue s).queueID % 2^31 } := setSlot_self ..

/-- An mq_open that creates a queue, up to its first node. -/
private theorem doMqueueCreate_eq {attr : MqAttr} {freeQueueList : List Nat} (hx : OpenInv st) (hfree : st.freeQueueList = s :: freeQueueList)
    (hq : losQueueCreate st attr.mqMaxmsg.toNat attr.mqMsgsize.toNat args.queueMem =
      (st.taken s freeQueueList,.ok (st.allQueue s).queueID)) :
    doMqueueCreate st attr name args = mqueueCBSetup (st.named s freeQueueList) s attr name args := by
  obtain ⟨-,-,hidx,hcb⟩ := hx.next hfree
  rw [doMqueueCreate, hq]
  simp only
  rw [hidx, if_neg fun h => h hcb]
  rfl

private theorem getQueueIndex_mod (queueID : Nat) : getQueueIndex (queueID % 2^31) = getQueueIndex queueID :=
  Nat.mod_mod_of_dvd _ (by decide)

section
variable {freeQueueList : List Nat}

/-- GetMqueueCBByID finds the queue if its ID fits in mq_id. -/
private theorem named_byID (hlt : s < LOSCFG_BASE_IPC_QUEUE_LIMIT) (hidx : getQueueIndex (st.allQueue s).queueID = s) :
    getMqueueCBByID (st.named s freeQueueList) ((st.allQueue s).queueID % 2^31) =
      if (st.allQueue s).queueID < 2^31 then some s else none := by
  have hq : (st.named s freeQueueList).allQueue s = ⟨(st.allQueue s).queueID,true⟩ := taken_queue st s freeQueueList
  rw [getMqueueCBByID, getQueueIndex_mod, hidx, hq]
  split_ifs with h hid hid
  · exact absurd (h.resolve_left (Nat.not_le.mpr hlt)) (not_not.mpr (Nat.mod_eq_of_lt hid).symm)
  · rfl
  · rfl
  · exact absurd (Nat.mod_lt _ (by decide)) (fun hmod => h (.inr fun he => hid (he ▸ hmod)))

/-- Without memory for the name, or with an ID that does not fit, the kernel queue stays. -/
private theorem mqueueCBSetup_leaks (name : Name) (freeQueueList : List Nat) (attr : MqAttr)
    (hlt : s < LOSCFG_BASE_IPC_QUEUE_LIMIT) (hidx : getQueueIndex (st.allQueue s).queueID = s)
    (h : ¬ (args.nameMem = true ∧ (st.allQueue s).queueID < 2^31)) :
    ∃ st' e, mqueueCBSetup (st.named s freeQueueList) s attr name args = (st',.error e) ∧
      st'.allQueue = (st.taken s freeQueueList).allQueue := by
  rw [mqueueCBSetup]
  split_ifs with hname
  · exact ⟨_,_,rfl,rfl⟩
  · have hid : ¬ (st.allQueue s).queueID < 2^31 := fun hid => h ⟨Bool.eq_true_of_not_eq_false hname,hid⟩
    rw [named_slot, named_byID hlt hidx, if_neg hid]
    exact ⟨_,_,rfl,rfl⟩

/-- Without memory for the node the kernel queue is deleted again. -/
private theorem mqueueCBSetup_deletes (attr : MqAttr) (hlt : s < LOSCFG_BASE_IPC_QUEUE_LIMIT) (hidx : getQueueIndex (st.allQueue s).queueID = s)
    (hname : args.nameMem = true) (hid : (st.allQueue s).queueID < 2^31) (hpers : args.personal = none) :
    mqueueCBSetup (st.named s freeQueueList) s attr name args = ((losQueueDelete ((st.named s freeQueueList).setSlot s
      { st.queueTable s with mqId := (st.allQueue s).queueID, mqName := none, mqcb := none, mqPersonal := none })
      (st.allQueue s).queueID false).1,.error .ENOSPC) := by
  rw [mqueueCBSetup, if_neg (by rw [hname]; decide), named_slot, named_byID hlt hidx, if_pos hid, hpers]
  simp only
  rw [Nat.mod_eq_of_lt hid]

private theorem mqueueCBSetup_creates (attr : MqAttr) (hlt : s < LOSCFG_BASE_IPC_QUEUE_LIMIT) (hidx : getQueueIndex (st.allQueue s).queueID = s)
    (hname : args.nameMem = true) (hid : (st.allQueue s).queueID < 2^31) (hpers : args.personal = some a) :
    mqueueCBSetup (st.named s freeQueueList) s attr name args = ((st.create s freeQueueList name).push s a
      ⟨s,none,args.openFlag ||| (attr.mqFlags &&& FNONBLOCK),args.mode,MQ_USE_MAGIC,0⟩,.ok a) := by
  rw [mqueueCBSetup, if_neg (by rw [hname]; decide), named_slot, named_byID hlt hidx, if_pos hid, hpers]
  simp only
  rw [Nat.mod_eq_of_lt hid, mqueueCBInit, setSlot_self, MqState.push, create_slot]
  simp only [MqState.setSlot, MqState.setNode, MqState.create, MqState.named, MqState.taken, Function.update_idem]

end

theorem OpenInv.inUsed_of_name (hx : OpenInv st) (hs : (st.queueTable s).mqName ≠ none) :
    s < LOSCFG_BASE_IPC_QUEUE_LIMIT ∧ (st.allQueue s).inUsed = true :=
  hx.used s fun hcb => hs (hx.bare s hcb).1

theorem byName_none (h : getMqueueCBByName st name = none) (hlt : s < LOSCFG_BASE_IPC_QUEUE_LIMIT) :
    (st.queueTable s).mqName ≠ some name := by
  intro hs
  rw [getMqueueCBByName] at h
  exact List.find?_eq_none.mp h s (List.mem_range.mpr hlt) (decide_eq_true hs)

/-- A queue was created under a name that no queue had. -/
theorem PermInv.created (hx : PermInv x) (hnone : getMqueueCBByName x.st name = none) (hinv : OpenInv st')
    (hother : ∀ t, t ≠ s → st'.queueTable t = x.st.queueTable t) (hname : (st'.queueTable s).mqName = some name) (user : User) (mode : Nat)
    (howner : st'.owner s = (user.effUserID,user.effGid,addMode 0 mode)) :
    PermInv ⟨st',x.give (getMqueueCBByName x.st name) (getMqueueCBByName st' name) user mode⟩ := by
  have hlt := (hinv.inUsed_of_name (by rw [hname]; exact Option.some_ne_none name)).1
  have hfound : getMqueueCBByName st' name = some s := by
    cases hf : getMqueueCBByName st' name with
    | none => exact absurd hname (byName_none hf hlt)
    | some t =>
      obtain ⟨htlt,htname⟩ := byName_some hf
      by_contra hts
      rw [hother t fun he => hts (congrArg some he)] at htname
      exact byName_none hnone htlt htname
  refine ⟨hinv,fun t ht => ?_⟩
  simp only [hnone, hfound, PermHist.give] at ht ⊢
  by_cases hts : t = s
  · rw [hts, howner, Function.update_self]
  · rw [hother t hts] at ht
    rw [MqState.owner, Function.update_of_ne hts, hother t hts]
    exact hx.given t ht

private theorem losQueueCreate_eq {maxMsgSize : Nat} (len : Nat) (queue : Bool) (hsize : maxMsgSize ≤ OS_NULL_SHORT - 4) :
    (∃ e, losQueueCreate st len maxMsgSize queue = (st,.error e) ∧ ¬ (0 < len ∧ 0 < maxMsgSize ∧ queue = true ∧ st.freeQueueList ≠ [])) ∨
    ∃ s freeQueueList, st.freeQueueList = s :: freeQueueList ∧ 0 < len ∧ 0 < maxMsgSize ∧ queue = true ∧
      losQueueCreate st len maxMsgSize queue = (st.taken s freeQueueList,.ok (st.allQueue s).queueID) := by
  rw [losQueueCreate, if_neg (Nat.not_lt.mpr hsize)]
  split_ifs with hzero hqueue
  · exact .inl ⟨_,rfl,fun h => by omega⟩
  · exact .inl ⟨_,rfl,fun h => absurd (hqueue.symm.trans h.2.2.1) (by decide)⟩
  · cases hf : st.freeQueueList with
    | nil => exact .inl ⟨_,rfl,fun h => h.2.2.2 rfl⟩
    | cons s freeQueueList => exact .inr ⟨s,freeQueueList,rfl,by omega,by omega,Bool.eq_true_of_not_eq_false hqueue,rfl⟩

private theorem attr_size {arg : AttrArg} {attr : MqAttr} (h : getMqueueAttr arg = .ok attr) : attr.mqMsgsize.toNat ≤ OS_NULL_SHORT - 4 := by
  cases arg with
  | null =>
    obtain rfl := Except.ok.inj h
    decide
  | fault => exact absurd h nofun
  | given a =>
    rw [getMqueueAttr] at h
    split_ifs at h with hr
    obtain rfl := Except.ok.inj h
    have hshort : OS_NULL_SHORT = 0xFFFF := rfl
    omega

private theorem queueDelete_used {queueID : Nat} (hlt : s < LOSCFG_BASE_IPC_QUEUE_LIMIT) (hidx : getQueueIndex queueID = s)
    (hq : st.allQueue s = ⟨queueID,true⟩) : (losQueueDelete st queueID false).1.allQueue =
      Function.update st.allQueue s ⟨setQueueId (getQueueCount queueID + 1) s,false⟩ := by
  rw [losQueueDelete, hidx, if_neg (Nat.not_le.mpr hlt), hq, if_neg fun h => h.elim (fun h => h rfl) Bool.noConfusion, if_neg Bool.false_ne_true]

/-- A queue that is created and deleted again leaves the others as they were. -/
theorem OpenCase.deleted {freeQueueList : List Nat} (hx : PermInv x) (hfree : x.st.freeQueueList = s :: freeQueueList)
    (hr : mqOpen x.st mqName args = ((losQueueDelete ((x.st.named s freeQueueList).setSlot s
      { x.st.queueTable s with mqId := (x.st.allQueue s).queueID, mqName := none, mqcb := none, mqPersonal := none })
      (x.st.allQueue s).queueID false).1,⟨-1,e⟩)) (hok : OpenOk x.st mqName args) : OpenCase x mqName args := by
  obtain ⟨hlt,hun,hidx,hcb⟩ := hx.queues.next hfree
  obtain ⟨hname,hmode⟩ := hx.queues.bare s hcb
  have hnamed : OpenInv (x.st.named s freeQueueList) :=
    (hx.queues.taken hfree).setSlot (fun h => absurd hcb h) (fun _ => ⟨hname,hmode⟩) fun _ => (getQueueIndex_mod _).trans hidx
  have hbare := hnamed.setSlot (s := s)
    (q := { x.st.queueTable s with mqId := (x.st.allQueue s).queueID, mqName := none, mqcb := none, mqPersonal := none })
    (fun h => absurd rfl h) (fun _ => ⟨rfl,hmode⟩) fun h => h.elim (fun h => absurd rfl h) fun h => absurd rfl h
  obtain ⟨htable,hset,hbuf⟩ := queueDelete_rest ((x.st.named s freeQueueList).setSlot s
    { x.st.queueTable s with mqId := (x.st.allQueue s).queueID, mqName := none, mqcb := none, mqPersonal := none })
    (x.st.allQueue s).queueID false
  have hqueue : ((x.st.named s freeQueueList).setSlot s
      { x.st.queueTable s with mqId := (x.st.allQueue s).queueID, mqName := none, mqcb := none, mqPersonal := none }).allQueue s =
      ⟨(x.st.allQueue s).queueID,true⟩ := taken_queue x.st s freeQueueList
  refine .failed hx hr ⟨fun t => ?_,fun t => ?_,fun t => ?_,hset,hbuf⟩ (hbare.queueDelete (by rw [hidx, setSlot_self]) false) hok
  · rw [queueDelete_used hlt hidx hqueue]
    by_cases hts : t = s
    · rw [hts, Function.update_self, hun]
      exact ⟨rfl,nofun⟩
    · rw [Function.update_of_ne hts]
      have hother : (x.st.taken s freeQueueList).allQueue t = x.st.allQueue t := Function.update_of_ne hts ..
      exact ⟨congrArg LosQueueCB.inUsed hother,fun _ => congrArg LosQueueCB.queueID hother⟩
  · rw [htable]
    by_cases hts : t = s
    · rw [hts, setSlot_self]
      exact ⟨hcb.symm,hname.symm⟩
    · rw [setSlot_of_ne _ _ hts, MqState.named, setSlot_of_ne _ _ hts]
      exact ⟨rfl,rfl⟩
  · rw [MqState.owner, htable]
    by_cases hts : t = s
    · rw [hts, setSlot_self]
      rfl
    · rw [setSlot_of_ne _ _ hts, MqState.named, setSlot_of_ne _ _ hts]
      rfl

theorem OpenLaw.inUsed (hlaw : OpenLaw x mqName args) (hret : (mqOpen x.st mqName args).2.ret = -1) (s : Nat) :
    ((mqOpen x.st mqName args).1.allQueue s).inUsed = (x.st.allQueue s).inUsed := ((hlaw.failed hret).queues s).1

/-- A queue is created with its first node at a. -/
private theorem PermInv.openCreated {freeQueueList : List Nat} {p : Mqpersonal} (hx : PermInv x) (hcheck : mqNameCheck (some name) = none)
    (hnone : getMqueueCBByName x.st name = none) (hfree : x.st.freeQueueList = s :: freeQueueList) (hpos : p.mqPosixdes = s)
    (hmode : p.mqMode = args.mode)
    (hopen : mqOpenPersonal x.st name args =
      (mqueueModeAnalysisSet ((x.st.create s freeQueueList name).push s a p) args.user (.ok a),.ok a))
    (hok : FdFree x.st ↔ OpenOk x.st (some name) args) : OpenCase x (some name) args := by
  obtain ⟨hlt,hun,hidx,hcb⟩ := hx.queues.next hfree
  obtain ⟨-,hzero⟩ := hx.queues.bare s hcb
  have hheap : ((x.st.create s freeQueueList name).push s a p).heap a = some p := Function.update_self ..
  have hslot := push_slot (x.st.create s freeQueueList name) s a p
  have hset := mode_head (node_eq hheap) hpos (by rw [hslot]) args.user
  rw [hslot, create_slot, hzero, hmode] at hset
  rw [hset] at hopen
  have hused : s < LOSCFG_BASE_IPC_QUEUE_LIMIT ∧ ((x.st.taken s freeQueueList).allQueue s).inUsed = true := by
    rw [taken_queue]
    exact ⟨hlt,rfl⟩
  have hcreate : OpenInv (x.st.create s freeQueueList name) :=
    (hx.queues.taken hfree).setSlot (fun _ => hused) nofun fun _ => hidx
  have hpush : OpenInv ((x.st.create s freeQueueList name).push s a p) := by
    refine (hcreate.setNode a (some p)).setSlot (fun _ => hused) ?_ ?_
    · rw [create_slot]
      exact nofun
    · rw [create_slot]
      exact fun _ => hidx
  have hinv := hpush.setSlot (s := s) (q := { x.st.queueTable s with
    mqId := (x.st.allQueue s).queueID, mqName := some name, mqcb := some s, unlinkflag := false, unlinkRef := 0, mqPersonal := some a,
    euid := args.user.effUserID, egid := args.user.effGid, modeData := addMode 0 args.mode }) (fun _ => hused) nofun fun _ => hidx
  rcases hinv.allocSysFd a with ⟨halloc,hfd⟩ | ⟨i,halloc,hfd⟩
  · refine .broken (fun hlaw => ?_) fun ho => hfd (hok.mpr ho)
    obtain ⟨-,hall,hret⟩ := mqOpen_finish hinv hcheck hopen (node_eq hheap) hpos (by rw [setSlot_self]) (by rw [setSlot_self])
    have hsame := hlaw.inUsed (hret.mpr hfd) s
    rw [hall, hun] at hsame
    exact absurd (hused.2.symm.trans hsame) (by decide)
  · have hr := mqOpen_ok hcheck hopen halloc
    refine ⟨iff_of_true ⟨fun _ t ht => absurd (hnone.symm.trans ht) nofun,fun hret => ?_⟩ (hok.mp hfd),fun _ => ?_⟩
    · rw [hr] at hret
      exact absurd hret (fd_ne i)
    · rw [MqCall.runPerm, hr]
      refine hx.created (s := s) hnone ((Kept.refl hinv).giveFd i a).inv (fun t hts => ?_) ?_ _ _ (owner_setSlot _ s _)
      · refine (setSlot_of_ne _ _ hts).trans ?_
        rw [push_other _ hts, create_other _ _ _ hts]
      · exact congrArg Mqarray.mqName (setSlot_self _ s _)

/-- O_CREAT on a name that no queue has. -/
private theorem PermInv.openNew (hx : PermInv x) (hcheck : mqNameCheck (some name) = none) (hcreat : args.openFlag &&& O_CREAT ≠ 0)
    (hnone : getMqueueCBByName x.st name = none) : OpenCase x (some name) args := by
  have hok : (∀ attr, getMqueueAttr args.attr = .ok attr → 0 < attr.mqMaxmsg → 0 < attr.mqMsgsize → args.queueMem = true →
      ∀ s, x.st.freeQueueList.head? = some s → Completes x.st s args) ↔ OpenOk x.st (some name) args :=
    ⟨fun h => ⟨fun _ _ _ _ t ht => absurd (hnone.symm.trans ht) (Option.some_ne_none _).symm,fun _ _ _ => h⟩,fun h => h.creates hcheck hcreat hnone⟩
  cases hattr : getMqueueAttr args.attr with
  | error e =>
    refine .unchanged hx hcheck (e := e) ?_ (hok.mp fun attr h => absurd (hattr.symm.trans h) (by rintro ⟨⟩))
    rw [mqOpenPersonal, if_pos hcreat, hnone]
    simp only
    rw [hattr]
  | ok attr =>
    have hopen : mqOpenPersonal x.st name args = (mqueueModeAnalysisSet (doMqueueCreate x.st attr name args).1 args.user
        (doMqueueCreate x.st attr name args).2,(doMqueueCreate x.st attr name args).2) := by
      rw [mqOpenPersonal, if_pos hcreat, hnone]
      simp only
      rw [hattr]
    rcases losQueueCreate_eq attr.mqMaxmsg.toNat args.queueMem (attr_size hattr) with ⟨e,hq,hno⟩ | ⟨s,freeQueueList,hfree,hlen,hsize,hmem,hq⟩
    · have hcreate : doMqueueCreate x.st attr name args = (x.st,.error e) := by rw [doMqueueCreate, hq]
      rw [hcreate] at hopen
      refine .unchanged hx hcheck hopen (hok.mp fun attr' h' hmax hsize hmem s hs => ?_)
      obtain rfl := Except.ok.inj (hattr.symm.trans h')
      refine absurd ⟨by omega,by omega,hmem,fun hnil => ?_⟩ hno
      rw [hnil] at hs
      exact absurd hs (Option.some_ne_none _).symm
    · obtain ⟨hlt,hun,hidx,hcb⟩ := hx.queues.next hfree
      obtain ⟨hname,hmode⟩ := hx.queues.bare s hcb
      have hok' : Completes x.st s args ↔ OpenOk x.st (some name) args := by
        refine hok.symm.trans ⟨fun h => h attr hattr (by omega) (by omega) hmem s (by rw [hfree]; rfl),fun h _ _ _ _ _ t ht => ?_⟩ |>.symm
        rw [hfree] at ht
        exact Option.some.inj ht ▸ h
      rw [doMqueueCreate_eq hx.queues hfree hq] at hopen
      by_cases hsetup : args.nameMem = true ∧ (x.st.allQueue s).queueID < 2^31
      · obtain ⟨hmemory,hid⟩ := hsetup
        cases hpers : args.personal with
        | none =>
          rw [mqueueCBSetup_deletes attr hlt hidx hmemory hid hpers] at hopen
          exact .deleted hx hfree (mqOpen_error hcheck hopen) (hok'.mp ⟨hmemory,hid,fun h => absurd hpers h⟩)
        | some a =>
          rw [mqueueCBSetup_creates attr hlt hidx hmemory hid hpers] at hopen
          exact hx.openCreated hcheck hnone hfree rfl rfl hopen
            (hok'.symm.trans ⟨fun h => h.fd (by rw [hpers]; exact Option.some_ne_none a),fun h => ⟨hmemory,hid,fun _ => h⟩⟩).symm
      · obtain ⟨st',e,hleak,hall⟩ := mqueueCBSetup_leaks name freeQueueList attr hlt hidx hsetup
        rw [hleak] at hopen
        refine .broken (fun hlaw => ?_) fun ho => hsetup ⟨(hok'.mpr ho).name,(hok'.mpr ho).id⟩
        have hr := mqOpen_error hcheck hopen
        have hsame := hlaw.inUsed (by rw [hr]) s
        rw [hr, hun] at hsame
        simp only [mqueueModeAnalysisSet] at hsame
        rw [hall, taken_queue] at hsame
        exact Bool.noConfusion hsame

theorem PermInv.openQueue (hx : PermInv x) (mqName : Option Name) (args : OpenArgs) : OpenCase x mqName args := by
  cases hcheck : mqNameCheck mqName with
  | some e =>
    have hname : mqNameCheck mqName ≠ none := by
      rw [hcheck]
      exact Option.some_ne_none e
    refine .failed hx (e := e) ?_ (SameQueues.refl x.st) hx.queues ⟨fun h => absurd h hname,fun h => absurd h hname⟩
    rw [mqOpen, hcheck]
  | none => cases mqName with
    | none => exact absurd hcheck (Option.some_ne_none _)
    | some name =>
      by_cases hcreat : args.openFlag &&& O_CREAT ≠ 0
      · cases hf : getMqueueCBByName x.st name with
        | none => exact hx.openNew hcheck hcreat hf
        | some s => exact hx.openCreat hcheck hcreat hf
      · exact hx.openPlain hcheck hcreat

end

private theorem MqCall.runPerm_inv (c : MqCall) (hx : PermInv x) (hok : c.OpensOk x) : PermInv (c.runPerm x) := by
  cases c with
  | openQueue mqName args => exact (hx.openQueue mqName args).inv hok
  | refer sysFd => exact hx.kept (.refer hx.queues sysFd)
  | close personal inUse => exact hx.kept (.mqClose hx.queues personal inUse)
  | unlink mqName inUse => exact hx.kept (.mqUnlink hx.queues mqName inUse)

private theorem start_perm (h : x.st = startMq) : PermInv x := by
  obtain ⟨st,given⟩ := x
  obtain rfl : st = startMq := h
  exact ⟨⟨fun _ _ => rfl,start_pool.nodup,start_pool.free,start_pool.index,fun s hs => absurd rfl hs,fun _ _ => ⟨rfl,rfl⟩,
    fun s hs => hs.elim (fun h => absurd rfl h) fun h => absurd rfl h⟩,fun s hs => absurd rfl hs⟩

/-- Along every run whose calls of mq_open meet the condition, the next one opens a queue that is there by the permission that it was created
with, keeps its owner and leaves nothing behind when it fails, if and only if it meets the condition. -/
theorem openLaw_iff (x : PermHist) (h : Run.Reachable permSystem (fun x c => c.OpensOk x) x) (mqName : Option Name) (args : OpenArgs) :
    OpenLaw x mqName args ↔ OpenOk x.st mqName args := by
  have hinv : PermInv x := h.invariant (fun _ hinit => start_perm hinit) fun _ c hx _ hok => c.runPerm_inv hx hok
  exact (hinv.openQueue mqName args).law

/-- The queue of root, with mode 0600. -/
def rootQueue : PermHist := (MqCall.openQueue (some queueName) (openArgs 1)).runPerm ⟨startMq,fun _ => ⟨0,0,0⟩⟩

/-- Another user opens the queue. -/
def userArgs (openFlag : Nat) : OpenArgs := ⟨openFlag,0,.null,⟨1000,1000⟩,true,true,some 2,0⟩

theorem openLaw_plain : Run.Reachable permSystem (fun x c => c.OpensOk x) rootQueue ∧ OpenLaw rootQueue (some queueName) (userArgs 2) := by
  have h0 : Run.Reachable permSystem (fun x c => c.OpensOk x) ⟨startMq,fun _ => ⟨0,0,0⟩⟩ := .init rfl
  have h1 : Run.Reachable permSystem (fun x c => c.OpensOk x) rootQueue := by
    refine .call h0 (.openQueue (some queueName) (openArgs 1)) (fun _ _ => rfl) ⟨fun _ _ _ _ s hs => ?_,fun _ _ _ _ _ _ _ _ s hs => ?_⟩
    · have hnone : (startMq.queueTable s).mqName = none := rfl
      exact absurd (hnone.symm.trans (byName_some hs).2) nofun
    · have hhead : startMq.freeQueueList.head? = some 0 := by decide +kernel
      obtain rfl := Option.some.inj (hhead.symm.trans hs)
      exact ⟨rfl,by decide,fun _ => ⟨0,by decide,rfl⟩⟩
  exact ⟨h1,(openLaw_iff rootQueue h1 (some queueName) (userArgs 2)).mpr ⟨fun _ h => absurd rfl h,fun _ h => absurd rfl h⟩⟩

/-- With O_CREAT the other user gets the queue. -/
theorem not_openLaw_creat : ¬ ∀ x, Run.Reachable permSystem (fun _ _ => True) x → ∀ mqName args,
    (MqCall.openQueue mqName args).Allocates x.st → OpenLaw x mqName args := by
  intro hall
  have h0 : Run.Reachable permSystem (fun _ _ => True) ⟨startMq,fun _ => ⟨0,0,0⟩⟩ := .init rfl
  have h1 : Run.Reachable permSystem (fun _ _ => True) rootQueue :=
    .call h0 (.openQueue (some queueName) (openArgs 1)) (fun _ _ => rfl) trivial
  have hfree : (MqCall.openQueue (some queueName) (userArgs 0o102)).Allocates rootQueue.st := by
    intro a ha
    obtain rfl : 2 = a := Option.some.inj ha
    exact Option.isNone_iff_eq_none.mp (by decide +kernel)
  have hlaw := hall _ h1 _ _ hfree
  have hopened := hlaw.opened (by decide +kernel) 0 (by decide +kernel)
  have hperm : (getPermissionOfVisitor _ _ _).toOption = some 0 := congrArg Except.toOption hopened.1
  exact absurd hperm (by decide +kernel)

end LiteOsKernel.Posix.Mqueue
