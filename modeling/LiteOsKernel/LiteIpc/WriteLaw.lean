import LiteOsKernel.LiteIpc.WriteLoop

/-! LiteIpcWrite: what it leaves of a message that it refuses, and what it delivers. -/
namespace LiteOsKernel.LiteIpc
open Fs Function Lib

section
variable {H : Type} (A : Allocator H)

/-- The block of a message with its data and offsets. -/
def msgSize (c : WriteCall) (msg : IpcMsg) : Nat := sizeofIpcListNode c + msg.dataSz + msg.spObjNum * 4

/-- The message is at the end of the queue, and each of its objects became another one, in their order. -/
inductive Delivers (c : WriteCall) (s : IpcState H) : IpcState H → Prop
  | mk {dstTid buf : Nat} {msg : IpcMsg} {s₁ x : IpcState H} {node : IpcListNode} {data : Nat → UInt8} {info : IpcTaskInfo}
      {as : List ((SpecialObj × Nat) × SpecialObj)} (hpara : checkPara c s = .ok (dstTid,msg))
      (halloc : s.liteIpcNodeAlloc A (s.tasks dstTid).processCB (msgSize c msg) = some (buf,s₁))
      (hcopy : copyDataFromUser c s₁ buf msg = .ok node)
      (htrace : Run.Trace (TransStep A c dstTid) (s₁.initTask dstTid c.dstInfo) as x)
      (hobjects : as.map Prod.fst = (node.offsets.map (getObj node.data)).zipIdx)
      (hdata : node.offsets.map (getObj data) = as.map Prod.snd)
      (hrest : ∀ a, (∀ off ∈ node.offsets, a < off ∨ off + sizeofSpecialObj ≤ a) → data a = node.data a)
      (hinfo : (x.tasks dstTid).ipcTaskInfo = some info) : Delivers c s (x.enqueue dstTid info { node with data := data })

/-- A message that is refused leaves nothing at its receiver, and one that is not is delivered. -/
def WriteLaw (c : WriteCall) (s : IpcState H) : Prop :=
  ∀ ret s', liteIpcWrite A c s = some (ret,s') →
    (ret ≠ 0 → (∀ e, checkPara c s = .error e → s' = s) ∧
      ∀ dstTid msg, checkPara c s = .ok (dstTid,msg) → receiver A s' dstTid = receiver A s dstTid) ∧
    (ret = 0 → Delivers A c s s')

/-- When an object is misplaced or refused, what became of the objects before it can be taken back. -/
def SendOk (c : WriteCall) (s : IpcState H) : Prop :=
  ∀ dstTid msg buf s₁ node, checkPara c s = .ok (dstTid,msg) →
    s.liteIpcNodeAlloc A (s.tasks dstTid).processCB (msgSize c msg) = some (buf,s₁) → copyDataFromUser c s₁ buf msg = .ok node →
    ∀ pre off post as x, node.offsets = pre ++ off :: post →
      Handling A c dstTid node.msg.dataSz node.data (s₁.initTask dstTid c.dstInfo) pre as x →
      Refused A c dstTid node.msg.dataSz node.data pre off x →
      Run.Trace (CleanStep A c dstTid) (s₁.initTask dstTid c.dstInfo) as x

variable {A} {s s₁ x : IpcState H} {p : ProcIpcInfo H} {c : WriteCall} {dstTid buf n pid : Nat} {msg : IpcMsg} {node : IpcListNode} {r : Receiver}

-- The block of the message

private theorem liteIpcNodeAlloc_some (h : s.liteIpcNodeAlloc A pid n = some (buf,s₁)) : ∃ p hp h', s.procs pid = some p ∧ p.heap = some hp ∧
    A.alloc hp n = some (buf,h') ∧ s₁ = s.setProc pid { p with heap := some h' } := by
  rw [IpcState.liteIpcNodeAlloc] at h
  split at h
  case h_1 => cases h
  case h_2 p hproc =>
    split at h
    case h_1 => cases h
    case h_2 hp hheap =>
      split at h
      case h_1 => cases h
      case h_2 ptr h' halloc =>
        obtain ⟨rfl,rfl⟩ := Prod.ext_iff.mp (Option.some.inj h)
        exact ⟨p,hp,h',hproc,hheap,halloc,rfl⟩

private theorem nodeEffect (hw : s.Wf A) (h : s.liteIpcNodeAlloc A (s.tasks dstTid).processCB n = some (buf,s₁)) :
    (∃ m, effects.Possible (.node buf m) (receiver A s dstTid) ∧ effects.Clean (.node buf m) (receiver A s dstTid) ∧
      receiver A s₁ dstTid = effects.apply (.node buf m) (receiver A s dstTid)) ∧
    Frame s s₁ ∧ s₁.Wf A ∧ ∃ p, s₁.procs (s.tasks dstTid).processCB = some p := by
  obtain ⟨p,hp,h',hproc,hheap,halloc,rfl⟩ := liteIpcNodeAlloc_some h
  obtain ⟨hnew,m,-,hm⟩ := A.alloc_blocks halloc
  have hhold : (receiver A s dstTid).holding = some (p.holding A) := by
    rw [receiver, IpcState.holding, hproc, Option.map_some]
  have hk : (p.holding A).Ok := hw.holding (s.tasks dstTid).processCB _ hhold
  have hg : (p.holding A).heap = some (region A hp) := by rw [ProcIpcInfo.holding, hheap, Option.map_some]
  obtain ⟨hused,hok⟩ := hk.take hg hnew m false
  have hholding : ProcIpcInfo.holding A { p with heap := some h' } = (p.holding A).take buf m false :=
    holding_alloc hheap halloc hm false
  refine ⟨⟨m,⟨_,_,hhold,hg,hnew,hused⟩,?_,?_⟩,frame_setProc hproc rfl,hw.setProc (hholding ▸ hok) _,_,by rw [IpcState.procs_setProc, update_self]⟩
  · change Receiver.mk _ (((receiver A s dstTid).holding.map _).map _) _ _ _ = _
    rw [Receiver.ext_iff, hhold]
    exact ⟨rfl,congrArg some (Holding.release_take hg hnew m),rfl,rfl,rfl⟩
  · refine (receiver_setProc hproc ?_).trans ?_
    · rfl
    change _ = Receiver.mk _ ((receiver A s dstTid).holding.map _) _ _ _
    rw [hholding, hhold, Option.map_some]

/-- LiteIpcNodeFree of the block of the message. -/
private theorem nodeFree {m : Nat} (hf : Frame s x) (hp : effects.Possible (.node buf m) r) (hx : effects.apply (.node buf m) r ≤ receiver A x dstTid) :
    receiver A (x.liteIpcNodeFree A (s.tasks dstTid).processCB buf) dstTid = effects.revert (.node buf m) (receiver A x dstTid) := by
  obtain ⟨k,g,hk,hg,-⟩ := hp
  have hxh : Option.Rel Holding.Fuller (r.holding.map fun k => k.take buf m false) (receiver A x dstTid).holding := hx.holding
  rw [hk] at hxh
  obtain ⟨k',hk',hfull⟩ := rel_some hxh
  obtain ⟨h',hheap',hheld⟩ := Holding.held_take hg m false
  obtain ⟨p,hproc,rfl⟩ := Option.map_eq_some_iff.mp hk'
  obtain ⟨h'',hh'',hfuller⟩ := rel_some (hheap' ▸ hfull.heap)
  obtain ⟨h,hheap,rfl⟩ := Option.map_eq_some_iff.mp hh''
  have hb : A.blocks h buf ≠ none := by
    obtain ⟨n,hn⟩ := Option.ne_none_iff_exists'.mp hheld
    rw [show A.blocks h buf = some n from hfuller.blocks buf n hn]
    exact Option.some_ne_none n
  obtain ⟨hbase,hsize⟩ := A.free_region hb
  rw [← hf.processCB, IpcState.liteIpcNodeFree_eq hproc]
  refine (receiver_setProc hproc ?_).trans ?_
  · rfl
  change _ = Receiver.mk _ ((receiver A x dstTid).holding.map _) _ _ _
  rw [hk', Option.map_some, Holding.release, ProcIpcInfo.holding, ProcIpcInfo.holding, hheap, Option.map_some, Option.map_some,
    Option.map_some, region, region, hbase, hsize, A.free_blocks hb]
  rfl

-- The checks

private theorem copyLeft_ne_zero (left : CopyLeft) : (left.1 : Int) ≠ 0 := Int.natCast_ne_zero.mpr left.2

private theorem copyDataFromUser_error {ret : Int} (h : copyDataFromUser c s buf msg = .error ret) : ret ≠ 0 := by
  simp only [copyDataFromUser] at h
  split at h
  case h_1 left _ =>
    cases h
    exact copyLeft_ne_zero left
  case h_2 =>
    split at h
    case h_1 left _ =>
      cases h
      exact copyLeft_ne_zero left
    case h_2 =>
      rcases ite_eq_iff.mp h with ⟨-,h⟩ | ⟨-,h⟩
      · cases h
      · cases h
        decide

private theorem copyDataFromUser_ok (h : copyDataFromUser c s buf msg = .ok node) :
    node.msg.dataSz = msg.dataSz ∧ node.offsets.length = msg.spObjNum := by
  simp only [copyDataFromUser] at h
  split at h
  case h_1 => cases h
  case h_2 =>
    split at h
    case h_1 => cases h
    case h_2 =>
      rcases ite_eq_iff.mp h with ⟨-,h⟩ | ⟨-,h⟩
      · cases h
        exact ⟨rfl,by rw [List.length_map, List.length_range]⟩
      · cases h

private theorem copyDataFromUser_eq {data : Nat → UInt8} {offsets : Nat → UInt32} (hd : c.copyData = .ok data) (ho : c.copyOffsets = .ok offsets)
    (hsz : msg.dataSz ≠ 0) (hnum : msg.spObjNum ≠ 0) (h : copyDataFromUser c s buf msg = .ok node) :
    node.data = data ∧ node.offsets = (List.range msg.spObjNum).map fun i => (offsets i).toNat := by
  simp only [copyDataFromUser, if_pos hsz, if_pos hnum, hd, ho] at h
  rcases ite_eq_iff.mp h with ⟨-,h⟩ | ⟨-,h⟩
  · cases h
    exact ⟨rfl,rfl⟩
  · cases h

/-- What CheckPara lets pass has room for its objects. -/
private theorem checkPara_ok (h : checkPara c s = .ok (dstTid,msg)) :
    msg.dataSz ≤ IPC_MSG_DATA_SZ_MAX ∧ msg.spObjNum * sizeofSpecialObj ≤ msg.dataSz := by
  have hsame : msg.dataSz = c.outMsg.dataSz ∧ msg.spObjNum = c.outMsg.spObjNum ∧
      ¬ (IPC_MSG_DATA_SZ_MAX < c.outMsg.dataSz ∨ IPC_MSG_OBJECT_NUM_MAX < c.outMsg.spObjNum ∨
        c.outMsg.dataSz < c.outMsg.spObjNum * sizeofSpecialObj) := by
    simp only [checkPara] at h
    split at h
    case isTrue => cases h
    case isFalse hno =>
      obtain ⟨-,hno⟩ := not_or.mp (not_or.mp hno).2
      split at h
      case h_1 => cases h
      case h_2 tid m hdst =>
        split at h
        case isTrue => cases h
        case isFalse =>
          obtain ⟨-,rfl⟩ := Prod.ext_iff.mp (Except.ok.inj h)
          split at hdst
          case h_1 =>
            split at hdst
            case isFalse => cases hdst
            case isTrue =>
              split at hdst
              case h_1 => cases hdst
              case h_2 =>
                cases hdst
                exact ⟨rfl,rfl,hno⟩
          case h_4 =>
            cases hdst
            exact ⟨rfl,rfl,hno⟩
          case h_5 => cases hdst
          all_goals
            split_ifs at hdst
            cases hdst
            exact ⟨rfl,rfl,hno⟩
  obtain ⟨hsz,hnum,hno⟩ := hsame
  rw [hsz, hnum]
  obtain ⟨h1,h2⟩ := not_or.mp hno
  exact ⟨Nat.le_of_not_lt h1,Nat.le_of_not_lt (not_or.mp h2).2⟩

private theorem checkPara_error {ret : Int} (h : checkPara c s = .error ret) : ret ≠ 0 := by
  simp only [checkPara] at h
  split at h
  case isTrue =>
    cases h
    decide
  case isFalse =>
    split at h
    case h_2 =>
      split at h
      case isTrue =>
        cases h
        decide
      case isFalse => cases h
    case h_1 e hdst =>
      cases h
      split at hdst
      case h_1 =>
        split at hdst
        case isFalse =>
          cases hdst
          decide
        case isTrue =>
          split at hdst
          case h_1 =>
            cases hdst
            decide
          case h_2 => cases hdst
      case h_4 => cases hdst
      case h_5 =>
        cases hdst
        decide
      all_goals
        split_ifs at hdst <;> cases hdst <;> decide

-- LiteIpcWrite

/-- What LiteIpcWrite does when the message is in its block. -/
private theorem liteIpcWrite_handled {s₁ : IpcState H} (hpara : checkPara c s = .ok (dstTid,msg))
    (halloc : s.liteIpcNodeAlloc A (s.tasks dstTid).processCB (msgSize c msg) = some (buf,s₁)) (hcopy : copyDataFromUser c s₁ buf msg = .ok node)
    {res : Int × IpcState H × (Nat → UInt8)}
    (hres : handleLoop A c dstTid node.msg.dataSz (s₁.initTask dstTid c.dstInfo) node.data [] node.offsets = res) :
    liteIpcWrite A c s = if res.1 ≠ 0 then some (res.1,res.2.1.liteIpcNodeFree A (s.tasks dstTid).processCB buf) else
      match (res.2.1.tasks dstTid).ipcTaskInfo with
      | none => none
      | some info => some (0,res.2.1.enqueue dstTid info { node with data := res.2.2 }) := by
  obtain ⟨p,-,-,hproc,-⟩ := liteIpcNodeAlloc_some halloc
  have halloc' : s.liteIpcNodeAlloc A (s.tasks dstTid).processCB (sizeofIpcListNode c + msg.dataSz + msg.spObjNum * 4) = some (buf,s₁) := halloc
  rw [liteIpcWrite, hpara]
  dsimp only
  rw [hproc]
  dsimp only
  rw [halloc']
  dsimp only
  rw [hcopy, ← hres]
  rfl

/-- A message up to its objects: it is in its block, and the task it is for has its ipcTaskInfo if there is memory. -/
structure Ready (A : Allocator H) (c : WriteCall) (s : IpcState H) (dstTid buf m : Nat) (node : IpcListNode) (s₂ : IpcState H) : Prop where
  possible : effects.Possible (.node buf m) (receiver A s dstTid)
  clean : effects.Clean (.node buf m) (receiver A s dstTid)
  receiver : receiver A s₂ dstTid = effects.apply (.node buf m) (receiver A s dstTid)
  frame : Frame s s₂
  wf : s₂.Wf A
  proc : ∃ p, s₂.procs (s₂.tasks dstTid).processCB = some p
  self : s₂.isTaskAlive c.curTask = true
  room : node.offsets ≠ [] → sizeofSpecialObj ≤ node.msg.dataSz
  small : node.msg.dataSz + sizeofSpecialObj ≤ 2^32

theorem ready {s₁ : IpcState H} (hw : s.Wf A) (hself : s.isTaskAlive c.curTask = true) (hpara : checkPara c s = .ok (dstTid,msg))
    (halloc : s.liteIpcNodeAlloc A (s.tasks dstTid).processCB (msgSize c msg) = some (buf,s₁))
    (hcopy : copyDataFromUser c s₁ buf msg = .ok node) : ∃ m, Ready A c s dstTid buf m node (s₁.initTask dstTid c.dstInfo) := by
  obtain ⟨⟨m,hp,hclean,hr⟩,hframe,hw₁,p,hproc⟩ := nodeEffect hw halloc
  have hsame := IpcState.same_initTask (A := A) s₁ dstTid c.dstInfo
  have hrights := IpcState.sameRights_initTask s₁ dstTid c.dstInfo
  have hframe₂ := hframe.trans hsame.frame
  obtain ⟨hmax,hnum⟩ := checkPara_ok hpara
  obtain ⟨hsz,hlen⟩ := copyDataFromUser_ok hcopy
  have hsmall : IPC_MSG_DATA_SZ_MAX + sizeofSpecialObj ≤ 2^32 := by decide
  rw [← hframe.processCB] at hproc
  refine ⟨m,hp,hclean,(hsame.receiver hrights dstTid).trans hr,hframe₂,hw₁.same hsame,procs_of_frame hsame.frame hproc,
    (isTaskAlive_of_fixed (hframe₂.tasks c.curTask)).trans hself,fun hne => ?_,by omega⟩
  have hpos : 0 < msg.spObjNum := hlen ▸ List.length_pos_iff.mpr hne
  rw [hsz]
  exact (Nat.le_mul_of_pos_left _ hpos).trans hnum

/-- At an object that is misplaced or refused, the receiver is left as it was just when what the objects before it became can be taken back. -/
private theorem stopped_iff {m : Nat} {s₂ : IpcState H} {pre post : List Nat} {off : Nat} {as : List ((SpecialObj × Nat) × SpecialObj)}
    (hr : Ready A c s dstTid buf m node s₂) (hoffs : node.offsets = pre ++ off :: post)
    (h : Handling A c dstTid node.msg.dataSz node.data s₂ pre as x) (href : Refused A c dstTid node.msg.dataSz node.data pre off x) :
    (handleLoop A c dstTid node.msg.dataSz s₂ node.data [] node.offsets).1 ≠ 0 ∧
      (receiver A ((handleLoop A c dstTid node.msg.dataSz s₂ node.data [] node.offsets).2.1.liteIpcNodeFree A (s.tasks dstTid).processCB buf)
          dstTid = receiver A s dstTid ↔ Run.Trace (CleanStep A c dstTid) s₂ as x) := by
  obtain ⟨p,hproc⟩ := hr.proc
  have hroom := hr.room (by rw [hoffs]; exact List.append_ne_nil_of_right_ne_nil _ (List.cons_ne_nil _ _))
  rw [hoffs]
  obtain ⟨hret,x',data',hback,hsame,hrights,hobjects⟩ := handleLoop_stopped post hroom hr.small hr.wf hproc hr.self h href
  refine ⟨hret,?_⟩
  rw [hback]
  obtain ⟨es,he⟩ := hasEffects_of_trace hr.wf hproc h.trace
  have hx' : receiver A x' dstTid = effects.applyAll (receiver A s₂ dstTid) es := (hsame.receiver hrights dstTid).trans he.receiver
  obtain ⟨hroll,hframe⟩ := rollback_revertAll (hobjects ▸ he.marks) he.possible (he.frame.trans hsame.frame) hx'.ge
  have hle : effects.apply (.node buf m) (receiver A s dstTid) ≤ receiver A (rollback A c dstTid data' x' pre.reverse) dstTid := by
    rw [hroll, ← hr.receiver]
    exact Undo.le_revertAll he.possible hx'.ge
  rw [nodeFree (hr.frame.trans hframe) hr.possible hle, Undo.revert_eq_iff hr.possible hle, and_iff_left hr.clean, hroll, ← hr.receiver,
    Undo.revertAll_eq_iff he.possible hx'.ge, and_iff_right hx', he.clean]

/-- All the objects were handled. -/
private theorem handled_all {m : Nat} {s₂ : IpcState H} {as : List ((SpecialObj × Nat) × SpecialObj)} (hr : Ready A c s dstTid buf m node s₂)
    (h : Handling A c dstTid node.msg.dataSz node.data s₂ node.offsets as x) :
    handleLoop A c dstTid node.msg.dataSz s₂ node.data [] node.offsets = (0,x,handled node.data node.offsets as) ∧
      node.offsets.map (getObj (handled node.data node.offsets as)) = as.map Prod.snd := by
  obtain ⟨p,hproc⟩ := hr.proc
  by_cases hnil : node.offsets = []
  · rw [hnil] at h ⊢
    obtain rfl := List.length_eq_zero_iff.mp h.length
    obtain rfl := h.trace.nil_eq
    exact ⟨rfl,rfl⟩
  · have hroom := hr.room hnil
    obtain ⟨es,he⟩ := hasEffects_of_trace hr.wf hproc h.trace
    constructor
    · have hrun := handleLoop_upTo hroom hr.small hr.wf hproc hr.self h []
      rwa [List.append_nil] at hrun
    · have hobjects := h.objects_handled hroom hr.small (he.fits h.fits)
      rw [List.map_reverse, List.map_reverse] at hobjects
      exact List.reverse_injective hobjects

/-- Without a block nothing happens. -/
private theorem liteIpcWrite_no_block (hpara : checkPara c s = .ok (dstTid,msg))
    (halloc : s.liteIpcNodeAlloc A (s.tasks dstTid).processCB (msgSize c msg) = none) : ∃ ret, ret ≠ 0 ∧ liteIpcWrite A c s = some (ret,s) := by
  have halloc' : s.liteIpcNodeAlloc A (s.tasks dstTid).processCB (sizeofIpcListNode c + msg.dataSz + msg.spObjNum * 4) = none := halloc
  rw [liteIpcWrite, hpara]
  dsimp only
  cases s.procs (s.tasks dstTid).processCB with
  | none => exact ⟨_,show -EINVAL ≠ 0 by decide,rfl⟩
  | some p =>
    rw [halloc']
    exact ⟨_,show -ENOMEM ≠ 0 by decide,rfl⟩

/-- The block goes back when the message cannot be copied into it. -/
private theorem liteIpcWrite_no_copy {s₁ : IpcState H} {e : Int} (hw : s.Wf A) (hpara : checkPara c s = .ok (dstTid,msg))
    (halloc : s.liteIpcNodeAlloc A (s.tasks dstTid).processCB (msgSize c msg) = some (buf,s₁)) (hcopy : copyDataFromUser c s₁ buf msg = .error e) :
    ∃ s', liteIpcWrite A c s = some (e,s') ∧ receiver A s' dstTid = receiver A s dstTid := by
  obtain ⟨p,-,-,hproc,-⟩ := liteIpcNodeAlloc_some halloc
  obtain ⟨⟨m,hp,hclean,hr⟩,hframe,-⟩ := nodeEffect hw halloc
  have halloc' : s.liteIpcNodeAlloc A (s.tasks dstTid).processCB (sizeofIpcListNode c + msg.dataSz + msg.spObjNum * 4) = some (buf,s₁) := halloc
  refine ⟨s₁.liteIpcNodeFree A (s.tasks dstTid).processCB buf,?_,?_⟩
  · rw [liteIpcWrite, hpara]
    dsimp only
    rw [hproc]
    dsimp only
    rw [halloc']
    dsimp only
    rw [hcopy]
  · rw [nodeFree hframe hp hr.ge, hr]
    exact hclean

/-- LiteIpcWrite meets its law just when no object is refused after one whose handling the way back does not undo. -/
theorem writeLaw_iff (hw : s.Wf A) (hself : s.isTaskAlive c.curTask = true) : WriteLaw A c s ↔ SendOk A c s := by
  constructor
  · intro hlaw dstTid msg buf s₁ node hpara halloc hcopy pre off post as x hoffs h href
    obtain ⟨m,hr⟩ := ready hw hself hpara halloc hcopy
    obtain ⟨hret,hiff⟩ := stopped_iff hr hoffs h href
    have hrun := liteIpcWrite_handled hpara halloc hcopy rfl
    rw [if_pos hret] at hrun
    exact hiff.mp (((hlaw _ _ hrun).1 hret).2 dstTid msg hpara)
  · intro hok ret s' hrun
    cases hpara : checkPara c s with
    | error e =>
      rw [liteIpcWrite, hpara] at hrun
      obtain ⟨rfl,rfl⟩ := Prod.ext_iff.mp (Option.some.inj hrun)
      exact ⟨fun _ => ⟨fun _ _ => rfl,fun _ _ h => by cases h⟩,fun h => absurd h (checkPara_error hpara)⟩
    | ok dst =>
      obtain ⟨dstTid,msg⟩ := dst
      have herror : ret ≠ 0 → receiver A s' dstTid = receiver A s dstTid →
          (ret ≠ 0 → (∀ e, checkPara c s = .error e → s' = s) ∧
            ∀ t m, checkPara c s = .ok (t,m) → receiver A s' t = receiver A s t) ∧ (ret = 0 → Delivers A c s s') := by
        intro hret hsame
        refine ⟨fun _ => ⟨fun e he => ?_,fun t m ht => ?_⟩,fun h0 => absurd h0 hret⟩
        · cases hpara.symm.trans he
        · obtain ⟨rfl,-⟩ := Prod.ext_iff.mp (Except.ok.inj (hpara.symm.trans ht))
          exact hsame
      rw [← hpara]
      cases halloc : s.liteIpcNodeAlloc A (s.tasks dstTid).processCB (msgSize c msg) with
      | none =>
        obtain ⟨ret',hret,hrun'⟩ := liteIpcWrite_no_block hpara halloc
        obtain ⟨rfl,rfl⟩ := Prod.ext_iff.mp (Option.some.inj (hrun'.symm.trans hrun))
        exact herror hret rfl
      | some r =>
        obtain ⟨buf,s₁⟩ := r
        cases hcopy : copyDataFromUser c s₁ buf msg with
        | error e =>
          obtain ⟨s'',hrun',hsame⟩ := liteIpcWrite_no_copy hw hpara halloc hcopy
          obtain ⟨rfl,rfl⟩ := Prod.ext_iff.mp (Option.some.inj (hrun'.symm.trans hrun))
          exact herror (copyDataFromUser_error hcopy) hsame
        | ok node =>
          obtain ⟨m,hr⟩ := ready hw hself hpara halloc hcopy
          have hrun' := liteIpcWrite_handled hpara halloc hcopy rfl
          rcases handling_or_refused node.offsets (Handling.nil _) with ⟨as,x,h⟩ | ⟨pre,off,post,as,x,hoffs,h,href⟩
          · rw [List.nil_append] at h
            obtain ⟨hloop,hobjects⟩ := handled_all hr h
            rw [hloop, if_neg (not_not.mpr rfl)] at hrun'
            dsimp only at hrun'
            cases hinfo : (x.tasks dstTid).ipcTaskInfo with
            | none =>
              rw [hinfo] at hrun'
              cases hrun'.symm.trans hrun
            | some info =>
              rw [hinfo] at hrun'
              obtain ⟨rfl,rfl⟩ := Prod.ext_iff.mp (Option.some.inj (hrun'.symm.trans hrun))
              refine ⟨fun h0 => absurd rfl h0,fun _ => .mk hpara halloc hcopy h.trace h.objects hobjects (fun a ha => ?_) hinfo⟩
              refine placed_outside fun q hq => ha q.1 ?_
              have hmem := List.mem_map_of_mem (f := Prod.fst) hq
              rw [h.zip.1] at hmem
              exact List.mem_reverse.mp hmem
          · obtain ⟨hret,hiff⟩ := stopped_iff hr hoffs h href
            rw [if_pos hret] at hrun'
            obtain ⟨rfl,rfl⟩ := Prod.ext_iff.mp (Option.some.inj (hrun'.symm.trans hrun))
            exact herror hret (hiff.mpr (hok dstTid msg buf s₁ node hpara halloc hcopy pre off post as x hoffs h href))

end

/-- A region whose blocks are handed out one behind the other, with 16 bytes between them. -/
structure Arena where
  base : Nat
  size : Nat
  next : Nat
  blocks : Nat → Option Nat
  above : base < next
  fresh : ∀ a, next ≤ a → blocks a = none

def arena : Allocator Arena where
  base := Arena.base
  size := Arena.size
  blocks := Arena.blocks
  alloc h n :=
    if h.next + n + 16 ≤ h.base + h.size then
      some (h.next,⟨h.base,h.size,h.next + n + 16,update h.blocks h.next (some n),by have := h.above; omega,fun a ha => by
        rw [update_of_ne (by omega)]
        exact h.fresh a (by omega)⟩)
    else none
  free h a := ⟨h.base,h.size,h.next,update h.blocks a none,h.above,fun b hb => by
    by_cases hab : b = a
    · rw [hab, update_self]
    · rw [update_of_ne hab]
      exact h.fresh b hb⟩
  alloc_region := by
    intro h n a h' ha
    obtain ⟨hroom,ha⟩ := Option.ite_none_right_eq_some.mp ha
    obtain ⟨rfl,rfl⟩ := Prod.ext_iff.mp (Option.some.inj ha)
    exact ⟨h.above,show h.next < h.base + h.size by omega,rfl,rfl⟩
  alloc_blocks := by
    intro h n a h' ha
    obtain ⟨-,ha⟩ := Option.ite_none_right_eq_some.mp ha
    obtain ⟨rfl,rfl⟩ := Prod.ext_iff.mp (Option.some.inj ha)
    exact ⟨h.fresh _ le_rfl,n,le_rfl,rfl⟩
  free_region _ := ⟨rfl,rfl⟩
  free_blocks _ := rfl

/-- A pool of 4096 bytes that nothing is taken of. -/
def emptyArena : Arena := ⟨0x8000,4096,0x8010,fun _ => none,by decide,fun _ _ => rfl⟩

/-- The processes 1 and 2 with the tasks 11 and 12, where the descriptor 3 of the process 1 is the system descriptor 7. -/
def startIpc : IpcState Arena where
  fds :=
    { cfg := ⟨false,true,0,0,0⟩
      processMaxNum := 64
      procs := fun pid => ⟨false,some pid⟩
      tables := fun id => some ⟨8,fun d => if id = 1 ∧ d = 3 then 7 else -1,fun d => d < 3 ∨ id = 1 ∧ d = 3,fun _ => false⟩
      refs := fun _ => 1 }
  tasks tid := ⟨false,false,true,if tid = 11 then 1 else 2,false,some ⟨[],fun pid => tid = 12 && pid = 1⟩⟩
  procs pid := some ⟨⟨0x10000,0x8000,4096⟩,some emptyArena,[],fun tid => pid = 1 && tid = 12,fun _ => []⟩
  cmsTask := ⟨10,4096⟩

/-- A request of the task 11 to the service of the task 12. The objects are a new service, at 0, and the descriptor fd, at 16. -/
def request (spObjNum : Nat) (fd : UInt8) : WriteCall where
  curTask := 11
  securityCapability := false
  flag := 0
  request := ⟨.MT_NUM,⟨0,0,0⟩,0,0,0,0,0,0,0,0,0⟩
  outMsg := ⟨.MT_REQUEST,⟨12,0,0⟩,0,0,0,32,0x20000,spObjNum,0x20020,0,0⟩
  now := 5
  copyData := .ok fun a => if a = 0 then 2 else if a < 8 ∧ 4 ≤ a then 255 else if a = 8 then 1 else if a = 20 then fd else 0
  copyOffsets := .ok fun i => if i = 0 then 0 else 16
  dstInfo := true
  fd := ⟨fun _ => true,fun _ => true⟩
  obj _ := ⟨true,true,true,.ok []⟩

private theorem startIpc_wf : startIpc.Wf arena := by
  refine ⟨fun pid k hk => ?_,fun id fdt hf => ?_⟩
  · obtain rfl := Option.some.inj hk
    refine ⟨fun r hr => ?_,List.nodup_nil,fun a ha => (List.not_mem_nil ha).elim⟩
    obtain rfl := Option.some.inj hr
    exact ⟨rfl,rfl,show 0 < 0x10000 by decide,show 0x10000 + 4096 ≤ 2 ^ 32 by decide,show 0x8000 + 4096 ≤ 2 ^ 32 by decide⟩
  · obtain rfl := Option.some.inj hf
    exact show 8 ≤ 2 ^ 31 by decide

/-- The request with two descriptors: 3 is open and 5 is not. -/
def fdRequest : WriteCall := { request 2 5 with copyData := .ok fun a => if a = 4 then 3 else if a = 20 then 5 else 0 }

private theorem fdRequest_para {dstTid : Nat} {msg : IpcMsg} (h : checkPara fdRequest startIpc = .ok (dstTid,msg)) :
    dstTid = 12 ∧ msg.spObjNum = 2 ∧ msg.dataSz = 32 := by
  have hpara : (checkPara fdRequest startIpc).map (fun r => (r.1,r.2.spObjNum,r.2.dataSz)) = .ok (12,2,32) := by decide +kernel
  rw [h] at hpara
  exact Prod.ext_iff.mp (Except.ok.inj hpara) |>.imp_right Prod.ext_iff.mp

/-- The first object of the request was a descriptor that can be taken back. -/
private theorem fdRequest_undoable {s : IpcState Arena} (hfds : s.fds = startIpc.fds) (hproc : (s.tasks 12).processCB = 2) (n : Nat) :
    Undoable fdRequest 12 (fdRequest.obj n) s (getObj (fun a => if a = 4 then 3 else if a = 20 then 5 else 0) 0) := by
  refine ⟨fun _ id fdt d hid hfdt _ => ?_,fun h => absurd h (by decide +kernel),fun h => absurd h (by decide +kernel)⟩
  rw [hproc, hfds] at hid
  rw [hfds] at hfdt
  obtain rfl : 2 = id := Option.some.inj hid
  obtain rfl := Option.some.inj hfdt
  exact ⟨rfl,by simp⟩

/-- The first descriptor is copied to the receiver, the second one is refused, and the first one is taken back. -/
theorem writeLaw_rolled_back :
    (liteIpcWrite arena fdRequest startIpc).map Prod.fst = some (-EBADF) ∧ WriteLaw arena fdRequest startIpc := by
  refine ⟨by decide +kernel,(writeLaw_iff startIpc_wf (by decide +kernel)).mpr ?_⟩
  intro dstTid msg buf s₁ node hpara halloc hcopy pre off post as x hoffs h _
  obtain ⟨rfl,hnum,hsz⟩ := fdRequest_para hpara
  obtain ⟨hdata,hoffsets⟩ := copyDataFromUser_eq rfl rfl (by rw [hsz]; decide) (by rw [hnum]; decide) hcopy
  rw [hnum] at hoffsets
  have htwo : pre ++ off :: post = [0,16] := hoffs.symm.trans hoffsets
  obtain ⟨p,hp,h',-,-,-,rfl⟩ := liteIpcNodeAlloc_some halloc
  cases pre with
  | nil =>
    obtain rfl := List.length_eq_zero_iff.mp h.length
    obtain rfl := h.trace.nil_eq
    exact .nil
  | cons first pre =>
    have hlen := congrArg List.length htwo
    simp only [List.length_append, List.length_cons, List.length_nil] at hlen
    obtain rfl : pre = [] := List.eq_nil_of_length_eq_zero (by omega)
    obtain ⟨rfl,-⟩ := List.cons.inj htwo
    have hone := h.objects
    rw [hdata] at hone
    obtain ⟨a,rfl⟩ := List.length_eq_one_iff.mp h.length
    obtain ⟨y,htrace,hstep⟩ := Run.Trace.last (show Run.Trace _ _ ([] ++ [a]) x from h.trace)
    obtain rfl := htrace.nil_eq
    have ha : a.1 = (getObj _ 0,0) := (List.cons.inj hone).1
    refine Run.Trace.snoc (show Run.Trace _ _ [] _ from .nil) ⟨hstep,?_⟩
    rw [ha]
    refine fdRequest_undoable ?_ ?_ 0
    · rfl
    · rfl

/-- The service that the receiver was given stays with it when the descriptor behind it is refused. -/
theorem writeLaw_fails_svc : ¬ ∀ (c : WriteCall) (s : IpcState Arena), s.Wf arena → s.isTaskAlive c.curTask = true → WriteLaw arena c s := by
  intro hall
  have hlaw := hall (request 2 5) startIpc startIpc_wf (by decide +kernel)
  have hrun : (liteIpcWrite arena (request 2 5) startIpc).map (fun r => (r.1,r.2.access 2 11,(r.2.tasks 12).processCB)) =
      some (-EBADF,true,2) := by decide +kernel
  obtain ⟨⟨ret,s'⟩,hwrite,hres⟩ := Option.map_eq_some_iff.mp hrun
  obtain ⟨hret,hres⟩ := Prod.ext_iff.mp hres
  obtain ⟨haccess,hproc⟩ := Prod.ext_iff.mp hres
  have hpara : (checkPara (request 2 5) startIpc).map Prod.fst = .ok 12 := by decide +kernel
  cases hpara' : checkPara (request 2 5) startIpc with
  | error e =>
    rw [hpara'] at hpara
    cases hpara
  | ok dst =>
    obtain ⟨dstTid,msg⟩ := dst
    rw [hpara'] at hpara
    obtain rfl : dstTid = 12 := Except.ok.inj hpara
    have hsame := ((hlaw ret s' hwrite).1 (by rw [show ret = -EBADF from hret]; decide)).2 12 msg hpara'
    have hkept : s'.access (s'.tasks 12).processCB 11 = startIpc.access 2 11 := congrFun (congrArg Receiver.access hsame) 11
    rw [show (s'.tasks 12).processCB = 2 from hproc, show s'.access 2 11 = true from haccess] at hkept
    exact absurd hkept (by decide)

end LiteOsKernel.LiteIpc
