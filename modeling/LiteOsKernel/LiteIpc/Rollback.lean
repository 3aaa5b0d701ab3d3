import LiteOsKernel.LiteIpc.Translate
import LiteOsKernel.Lib.Undo

/-! What the receiver of a message has of it before the message is in its queue, and how the way back of HandleSpecialObjects undoes it. -/
namespace LiteOsKernel.LiteIpc
open Fs Function Lib

/-- What a message may change at its receiver: the table of the process's descriptors, the process's pool with its used nodes, the queues, the
services that let the process in, and those that it is noted to have access to. -/
@[ext] structure Receiver where
  fdTable : Option FdTable
  holding : Option Holding
  queue : Nat → List IpcListNode
  accessMap : Nat → Bool
  access : Nat → Bool

/-- A table in which descriptors that are not in use may have been cleared. -/
structure Cleared (f g : FdTable) : Prop where
  maxFds : g.maxFds = f.maxFds
  procFds : g.procFds = f.procFds
  entries : ∀ d, g.cloexecFds d = f.cloexecFds d ∧ g.sysFd d = f.sysFd d ∨
    f.procFds d = false ∧ g.cloexecFds d = false ∧ g.sysFd d = -1

/-- A pool in which more blocks may be held. -/
structure Region.Fuller (g g' : Region) : Prop where
  base : g'.base = g.base
  size : g'.size = g.size
  blocks : ∀ a n, g.blocks a = some n → g'.blocks a = some n

structure Holding.Fuller (k k' : Holding) : Prop where
  pool : k'.pool = k.pool
  used : k'.used = k.used
  heap : Option.Rel Region.Fuller k.heap k'.heap

/-- A receiver that something may have been left at. -/
structure Receiver.Left (r x : Receiver) : Prop where
  fdTable : Option.Rel Cleared r.fdTable x.fdTable
  holding : Option.Rel Holding.Fuller r.holding x.holding
  queue : x.queue = r.queue
  accessMap : ∀ t, r.accessMap t = true → x.accessMap t = true
  access : ∀ t, r.access t = true → x.access t = true

section
variable {α : Type*} {R : α → α → Prop} {a b c : Option α}

private theorem rel_refl (h : ∀ x, R x x) (a : Option α) : Option.Rel R a a := by
  cases a with
  | none => exact .none
  | some x => exact .some (h x)

private theorem rel_trans (h : ∀ {x y z}, R x y → R y z → R x z) (hab : Option.Rel R a b) (hbc : Option.Rel R b c) : Option.Rel R a c := by
  cases hab with
  | none => exact hbc
  | some hab => cases hbc with
    | some hbc => exact .some (h hab hbc)

private theorem rel_map {f : α → α} (h : ∀ {x y}, R x y → R (f x) (f y)) (hab : Option.Rel R a b) : Option.Rel R (a.map f) (b.map f) := by
  cases hab with
  | none => exact .none
  | some hab => exact .some (h hab)

private theorem rel_antisymm (h : ∀ {x y}, R x y → R y x → x = y) (hab : Option.Rel R a b) (hba : Option.Rel R b a) : a = b := by
  cases hab with
  | none => rfl
  | some hab => cases hba with
    | some hba => exact congrArg some (h hab hba)

end

section
variable {f g : FdTable} {k k' : Holding}

theorem Cleared.refl (f : FdTable) : Cleared f f := ⟨rfl,rfl,fun _ => .inl ⟨rfl,rfl⟩⟩

theorem Cleared.trans {e : FdTable} (h : Cleared e f) (h' : Cleared f g) : Cleared e g := by
  refine ⟨h'.maxFds.trans h.maxFds,h'.procFds.trans h.procFds,fun d => ?_⟩
  rcases h'.entries d with ⟨hc,hs⟩ | ⟨hp,hc⟩
  · rw [hc, hs]
    exact h.entries d
  · exact .inr ⟨h.procFds ▸ hp,hc⟩

theorem Cleared.antisymm (h : Cleared f g) (h' : Cleared g f) : f = g := by
  have he : ∀ d, f.cloexecFds d = g.cloexecFds d ∧ f.sysFd d = g.sysFd d := by
    intro d
    rcases h.entries d with ⟨hc,hs⟩ | ⟨-,hc,hs⟩
    · exact ⟨hc.symm,hs.symm⟩
    · rcases h'.entries d with hcs | ⟨-,hc',hs'⟩
      · exact hcs
      · exact ⟨hc'.trans hc.symm,hs'.trans hs.symm⟩
  change (⟨f.maxFds,f.sysFd,f.procFds,f.cloexecFds⟩ : FdTable) = ⟨g.maxFds,g.sysFd,g.procFds,g.cloexecFds⟩
  rw [h.maxFds, h.procFds, funext fun d => (he d).1, funext fun d => (he d).2]

theorem Region.Fuller.antisymm {g g' : Region} (h : g.Fuller g') (h' : g'.Fuller g) : g = g' := by
  have hb : g.blocks = g'.blocks := by
    funext a
    cases hg : g.blocks a with
    | some n => exact (h.blocks a n hg).symm
    | none =>
      cases hg' : g'.blocks a with
      | none => rfl
      | some n => exact absurd (hg.symm.trans (h'.blocks a n hg')) (Option.some_ne_none n).symm
  change (⟨g.base,g.size,g.blocks⟩ : Region) = ⟨g'.base,g'.size,g'.blocks⟩
  rw [h.base, h.size, hb]

theorem Region.Fuller.refl (g : Region) : g.Fuller g := ⟨rfl,rfl,fun _ _ h => h⟩

theorem Region.Fuller.trans {g g' g'' : Region} (h : g.Fuller g') (h' : g'.Fuller g'') : g.Fuller g'' :=
  ⟨h'.base.trans h.base,h'.size.trans h.size,fun a n hn => h'.blocks a n (h.blocks a n hn)⟩

theorem Holding.Fuller.refl (k : Holding) : k.Fuller k := ⟨rfl,rfl,rel_refl Region.Fuller.refl _⟩

theorem Holding.Fuller.trans {k'' : Holding} (h : k.Fuller k') (h' : k'.Fuller k'') : k.Fuller k'' :=
  ⟨h'.pool.trans h.pool,h'.used.trans h.used,rel_trans Region.Fuller.trans h.heap h'.heap⟩

theorem Holding.Fuller.antisymm (h : k.Fuller k') (h' : k'.Fuller k) : k = k' := by
  have hheap := rel_antisymm Region.Fuller.antisymm h.heap h'.heap
  change (⟨k.pool,k.heap,k.used⟩ : Holding) = ⟨k'.pool,k'.heap,k'.used⟩
  rw [h.pool, h.used, hheap]

end

instance : PartialOrder Receiver where
  le := Receiver.Left
  le_refl r := ⟨rel_refl Cleared.refl _,rel_refl Holding.Fuller.refl _,rfl,fun _ h => h,fun _ h => h⟩
  le_trans _ _ _ h h' := ⟨rel_trans Cleared.trans h.fdTable h'.fdTable,rel_trans Holding.Fuller.trans h.holding h'.holding,
    h'.queue.trans h.queue,fun t ht => h'.accessMap t (h.accessMap t ht),fun t ht => h'.access t (h.access t ht)⟩
  le_antisymm _ _ h h' := Receiver.ext (rel_antisymm Cleared.antisymm h.fdTable h'.fdTable)
    (rel_antisymm Holding.Fuller.antisymm h.holding h'.holding) h'.queue
    (funext fun t => Bool.eq_iff_iff.mpr ⟨h.accessMap t,h'.accessMap t⟩) (funext fun t => Bool.eq_iff_iff.mpr ⟨h.access t,h'.access t⟩)

/-- What the blocks of a message and its objects are at the receiver: the block of the message, a descriptor, the block of a PTR object that
may be noted in the used nodes, and the access to a service. -/
inductive Effect where
  | node (buf size : Nat)
  | fd (d : Nat) (sysFd : Int)
  | ptr (buf size : Nat) (noted : Bool)
  | svc (tid : Option Nat)

/-- A block that is held, and may be noted in the used nodes. -/
def Holding.take (k : Holding) (buf size : Nat) (noted : Bool) : Holding :=
  ⟨k.pool,k.heap.map fun g => { g with blocks := update g.blocks buf (some size) },if noted then buf :: k.used else k.used⟩

def Holding.release (k : Holding) (buf : Nat) : Holding :=
  ⟨k.pool,k.heap.map fun g => { g with blocks := update g.blocks buf none },k.used⟩

/-- A block is released when it is a used node. -/
def Holding.giveBack (k : Holding) (buf : Nat) : Holding :=
  if buf ∈ k.used then { k.release buf with used := k.used.erase buf } else k

namespace Effect

def apply : Effect → Receiver → Receiver
  | node buf size, r => { r with holding := r.holding.map fun k => k.take buf size false }
  | fd d sysFd, r => { r with fdTable := r.fdTable.map fun f => f.occupy d sysFd }
  | ptr buf size noted, r => { r with holding := r.holding.map fun k => k.take buf size noted }
  | svc none, r => r
  | svc (some tid), r => { r with accessMap := update r.accessMap tid true, access := update r.access tid true }

/-- LiteIpcNodeFree for the block of the message, and HandleObj with isRollback for the others. -/
def revert : Effect → Receiver → Receiver
  | node buf _, r => { r with holding := r.holding.map fun k => k.release buf }
  | fd d _, r => { r with fdTable := r.fdTable.map fun f => f.clear d }
  | ptr buf _ _, r => { r with holding := r.holding.map fun k => k.giveBack buf }
  | svc _, r => r

/-- The descriptor is free, and the block is new. -/
def Possible : Effect → Receiver → Prop
  | node buf _, r | ptr buf _ _, r => ∃ k g, r.holding = some k ∧ k.heap = some g ∧ g.blocks buf = none ∧ buf ∉ k.used
  | fd d sysFd, r => ∃ f, r.fdTable = some f ∧ f.procFds d = false ∧ d < f.maxFds ∧ 0 ≤ sysFd
  | svc _, _ => True

end Effect

section
variable {f g x : FdTable} {d : Nat} {sysFd : Int} {k k' : Holding} {buf size : Nat} {h : Region} {noted : Bool}

theorem rel_some {α : Type*} {R : α → α → Prop} {a : α} {o : Option α} (h : Option.Rel R (some a) o) : ∃ b, o = some b ∧ R a b := by
  cases h with
  | some h => exact ⟨_,rfl,h⟩

-- Descriptors

private theorem cleared_clear (hd : f.procFds d = false) : Cleared f (f.clear d) := by
  refine ⟨rfl,?_,fun e => ?_⟩
  · rw [FdTable.clear, ← hd, update_eq_self]
  · by_cases he : e = d
    · subst he
      exact .inr ⟨hd,update_self ..,update_self ..⟩
    · exact .inl ⟨update_of_ne he ..,update_of_ne he ..⟩

theorem Cleared.clear (hx : Cleared g x) (d : Nat) : Cleared (g.clear d) (x.clear d) := by
  refine ⟨hx.maxFds,?_,fun e => ?_⟩
  · rw [FdTable.clear, FdTable.clear, hx.procFds]
  · by_cases he : e = d
    · subst he
      rw [FdTable.clear, FdTable.clear]
      dsimp only
      rw [update_self, update_self, update_self, update_self]
      exact .inl ⟨rfl,rfl⟩
    · rw [FdTable.clear, FdTable.clear]
      dsimp only
      rw [update_of_ne he, update_of_ne he, update_of_ne he, update_of_ne he, update_of_ne he]
      exact hx.entries e

/-- A descriptor in use is not cleared by anything that is left. -/
private theorem Cleared.clear_inj (hx : Cleared g x) (hd : g.procFds d = true) (h : x.clear d = g.clear d) : x = g := by
  have hself : x.cloexecFds d = g.cloexecFds d ∧ x.sysFd d = g.sysFd d := by
    rcases hx.entries d with h1 | ⟨h1,-⟩
    · exact h1
    · exact absurd (h1.symm.trans hd) Bool.false_ne_true
  have hall : ∀ e, x.cloexecFds e = g.cloexecFds e ∧ x.sysFd e = g.sysFd e := by
    intro e
    by_cases he : e = d
    · rw [he]
      exact hself
    · have hc := congrFun (congrArg FdTable.cloexecFds h) e
      have hs := congrFun (congrArg FdTable.sysFd h) e
      rw [FdTable.clear, FdTable.clear] at hc hs
      dsimp only at hc hs
      rw [update_of_ne he, update_of_ne he] at hc hs
      exact ⟨hc,hs⟩
  refine Cleared.antisymm ⟨hx.maxFds.symm,hx.procFds.symm,fun e => .inl ?_⟩ hx
  exact ⟨(hall e).1.symm,(hall e).2.symm⟩

-- Blocks

theorem Region.Fuller.release {g g' : Region} (h : g.Fuller g') (buf : Nat) :
    Region.Fuller { g with blocks := update g.blocks buf none } { g' with blocks := update g'.blocks buf none } := by
  refine ⟨h.base,h.size,fun a n hn => ?_⟩
  dsimp only at hn ⊢
  by_cases ha : a = buf
  · rw [ha, update_self] at hn
    cases hn
  · rw [update_of_ne ha] at hn ⊢
    exact h.blocks a n hn

theorem Holding.Fuller.release (hk : k.Fuller k') (buf : Nat) : (k.release buf).Fuller (k'.release buf) :=
  ⟨hk.pool,hk.used,rel_map (fun h => h.release buf) hk.heap⟩

theorem Holding.Fuller.giveBack (hk : k.Fuller k') (buf : Nat) : (k.giveBack buf).Fuller (k'.giveBack buf) := by
  rw [Holding.giveBack, Holding.giveBack, hk.used]
  split
  · exact { hk.release buf with used := rfl }
  · exact hk

/-- A block that is held is released by nothing that is left. -/
private theorem Holding.Fuller.release_inj (hk : k.Fuller k') (hh : k.heap = some h) (hb : h.blocks buf ≠ none)
    (he : (k'.release buf).heap = (k.release buf).heap) : k' = k := by
  obtain ⟨n,hn⟩ := Option.ne_none_iff_exists'.mp hb
  obtain ⟨h',hh',hfull⟩ := rel_some (hh ▸ hk.heap)
  rw [Holding.release, Holding.release, hh, hh'] at he
  have hblocks := congrArg Region.blocks (Option.some.inj he)
  dsimp only at hblocks
  refine Holding.Fuller.antisymm ⟨hk.pool.symm,hk.used.symm,?_⟩ hk
  rw [hh, hh']
  refine .some ⟨hfull.base.symm,hfull.size.symm,fun a m hm => ?_⟩
  by_cases ha : a = buf
  · rw [ha] at hm ⊢
    exact hn.trans ((hfull.blocks buf n hn).symm.trans hm)
  · have hsame := congrFun hblocks a
    rw [update_of_ne ha, update_of_ne ha] at hsame
    exact hsame.symm.trans hm

private theorem Holding.Fuller.giveBack_inj (hk : k.Fuller k') (hused : buf ∈ k.used → ∃ h, k.heap = some h ∧ h.blocks buf ≠ none)
    (he : k'.giveBack buf = k.giveBack buf) : k' = k := by
  rw [Holding.giveBack, Holding.giveBack, hk.used] at he
  split at he
  case isTrue hmem =>
    obtain ⟨h,hh,hb⟩ := hused hmem
    have hheap : (k'.release buf).heap = (k.release buf).heap := by
      injection he
    exact hk.release_inj hh hb hheap
  case isFalse => exact he

private theorem Holding.fuller_take (hh : k.heap = some h) (hnew : h.blocks buf = none) (size : Nat) : k.Fuller (k.take buf size false) := by
  refine ⟨rfl,rfl,?_⟩
  rw [Holding.take, hh]
  refine .some ⟨rfl,rfl,fun a n hn => ?_⟩
  have ha : a ≠ buf := by
    rintro rfl
    exact absurd (hn.symm.trans hnew) (Option.some_ne_none n)
  exact (update_of_ne ha _ _).trans hn

theorem Holding.release_take (hh : k.heap = some h) (hnew : h.blocks buf = none) (size : Nat) : (k.take buf size false).release buf = k := by
  cases k
  obtain rfl := hh
  rw [Holding.take, Holding.release]
  simp only [Option.map_some, update_idem, Bool.false_eq_true, if_false]
  rw [← hnew, update_eq_self]

/-- A block that is noted is given back. -/
theorem Holding.giveBack_noted (hh : k.heap = some h) (hnew : h.blocks buf = none) (size : Nat) : (k.take buf size true).giveBack buf = k := by
  have hused : (k.take buf size true).used = buf :: k.used := rfl
  rw [Holding.giveBack, hused, if_pos List.mem_cons_self, List.erase_cons_head]
  exact Holding.release_take hh hnew size

/-- One that is not noted stays. -/
theorem Holding.giveBack_unnoted (hused : buf ∉ k.used) (size : Nat) :
    (k.take buf size false).giveBack buf = k.take buf size false := if_neg hused

theorem Holding.held_take (hh : k.heap = some h) (size : Nat) (noted : Bool) :
    ∃ h', (k.take buf size noted).heap = some h' ∧ h'.blocks buf ≠ none := by
  refine ⟨_,by rw [Holding.take, hh]; rfl,?_⟩
  dsimp only
  rw [update_self]
  exact Option.some_ne_none size

end

/-- The effects of a message and how they are undone. -/
def effects : Undo Receiver Effect where
  apply := Effect.apply
  revert := Effect.revert
  Possible := Effect.Possible
  le_revert := by
    intro e r h
    have hr := le_refl r
    cases e with
    | node buf size =>
      obtain ⟨k,g,hk,hg,hnew,-⟩ := h
      refine { hr with holding := ?_ }
      rw [Effect.revert, Effect.apply, hk]
      have hback : Holding.Fuller k ((k.take buf size false).release buf) := by
        rw [Holding.release_take hg hnew]
        exact .refl k
      exact .some hback
    | fd d sysFd =>
      obtain ⟨f,hf,hfree,-⟩ := h
      refine { hr with fdTable := ?_ }
      rw [Effect.revert, Effect.apply, hf]
      have hclear : Cleared f ((f.occupy d sysFd).clear d) := by
        rw [FdTable.clear_occupy]
        exact cleared_clear hfree
      exact .some hclear
    | ptr buf size noted =>
      obtain ⟨k,g,hk,hg,hnew,hused⟩ := h
      refine { hr with holding := ?_ }
      rw [Effect.revert, Effect.apply, hk]
      have hback : Holding.Fuller k ((k.take buf size noted).giveBack buf) := by
        cases noted with
        | false =>
          rw [Holding.giveBack_unnoted hused]
          exact Holding.fuller_take hg hnew size
        | true =>
          rw [Holding.giveBack_noted hg hnew]
          exact .refl k
      exact .some hback
    | svc tid =>
      cases tid with
      | none => exact hr
      | some tid =>
        refine { hr with accessMap := fun t ht => ?_, access := fun t ht => ?_ }
        · exact (update_apply ..).trans (ite_eq_left_iff.mpr fun _ => ht)
        · exact (update_apply ..).trans (ite_eq_left_iff.mpr fun _ => ht)
  revert_le := by
    intro e r x _ hx
    cases e with
    | node buf size => exact { hx with holding := rel_map (fun hk => hk.release buf) hx.holding }
    | fd d sysFd => exact { hx with fdTable := rel_map (fun hf => hf.clear d) hx.fdTable }
    | ptr buf size noted => exact { hx with holding := rel_map (fun hk => hk.giveBack buf) hx.holding }
    | svc tid => exact hx
  revert_inj := by
    intro e r x h hx he
    obtain ⟨hfd,hhold,hqueue,hmap,haccess⟩ := Receiver.ext_iff.mp he
    cases e with
    | node buf size =>
      obtain ⟨k,g,hk,hg,hnew,-⟩ := h
      obtain ⟨h',hh',hb⟩ := Holding.held_take hg size false
      refine Receiver.ext hfd ?_ hqueue hmap haccess
      have hxh := hx.holding
      rw [Effect.apply, hk] at hxh
      obtain ⟨k',hk',hfull⟩ := rel_some hxh
      rw [Effect.revert, Effect.revert, Effect.apply, hk, hk'] at hhold
      rw [Effect.apply, hk, hk']
      exact congrArg some (hfull.release_inj hh' hb (congrArg Holding.heap (Option.some.inj hhold)))
    | fd d sysFd =>
      obtain ⟨f,hf,-⟩ := h
      refine Receiver.ext ?_ hhold hqueue hmap haccess
      have hxf := hx.fdTable
      rw [Effect.apply, hf] at hxf
      obtain ⟨f',hf',hclear⟩ := rel_some hxf
      rw [Effect.revert, Effect.revert, Effect.apply, hf, hf'] at hfd
      rw [Effect.apply, hf, hf']
      exact congrArg some (hclear.clear_inj (update_self ..) (Option.some.inj hfd))
    | ptr buf size noted =>
      obtain ⟨k,g,hk,hg,-⟩ := h
      refine Receiver.ext hfd ?_ hqueue hmap haccess
      have hxh := hx.holding
      rw [Effect.apply, hk] at hxh
      obtain ⟨k',hk',hfull⟩ := rel_some hxh
      rw [Effect.revert, Effect.revert, Effect.apply, hk, hk'] at hhold
      rw [Effect.apply, hk, hk']
      exact congrArg some (hfull.giveBack_inj (fun _ => Holding.held_take hg size noted) (Option.some.inj hhold))
    | svc tid => exact he

section
variable {H : Type} {A : Allocator H}

/-- The receiver of a message for a task. -/
def receiver (A : Allocator H) (s : IpcState H) (dstTid : Nat) : Receiver :=
  let pid := (s.tasks dstTid).processCB
  ⟨(s.fds.getProcessFTable pid).bind s.fds.tables,s.holding A pid,s.queue,s.accessMap pid,s.access pid⟩

/-- What no part of a message changes. -/
structure Frame (s x : IpcState H) : Prop where
  files : x.fds.procs = s.fds.procs
  processMaxNum : x.fds.processMaxNum = s.fds.processMaxNum
  tasks : ∀ t, (x.tasks t).fixed = (s.tasks t).fixed
  pool : ∀ pid, (x.procs pid).map ProcIpcInfo.pool = (s.procs pid).map ProcIpcInfo.pool

/-- What the way back finds in an object that an effect was made for. -/
inductive Marks (c : WriteCall) (s : IpcState H) (dstTid : Nat) : Effect → SpecialObj → Prop
  | fd {id d : Nat} {sysFd : Int} {o : SpecialObj} (htype : o.type = OBJ_FD) (hd : o.fd = d) (hlt : d < 2^31)
      (hpid : (s.tasks dstTid).processCB < s.fds.processMaxNum) (hfiles : s.fds.getProcessFTable (s.tasks dstTid).processCB = some id)
      (hsem : c.fd.sem id = true) : Marks c s dstTid (.fd d sysFd) o
  | ptr {buf size : Nat} {noted : Bool} {o : SpecialObj} {pool : IpcPool} (htype : o.type = OBJ_PTR) (hbuff : o.buff ≠ 0)
      (hsize : o.buffSz ≠ 0) (hpool : (s.procs (s.tasks dstTid).processCB).map ProcIpcInfo.pool = some pool)
      (haddr : getIpcKernelAddr pool o.buff = buf) : Marks c s dstTid (.ptr buf size noted) o
  | svc {tid : Option Nat} {o : SpecialObj} (htype : o.type = OBJ_SVC) : Marks c s dstTid (.svc tid) o

variable {s x v w : IpcState H} {p : ProcIpcInfo H} {c : WriteCall} {ans : ObjAnswers} {obj obj' : SpecialObj} {dstTid pid : Nat}
  {r : Receiver} {e : Effect}

theorem Frame.refl (s : IpcState H) : Frame s s := ⟨rfl,rfl,fun _ => rfl,fun _ => rfl⟩

theorem Frame.trans (h : Frame s v) (h' : Frame v w) : Frame s w :=
  ⟨h'.files.trans h.files,h'.processMaxNum.trans h.processMaxNum,fun t => (h'.tasks t).trans (h.tasks t),
    fun pid => (h'.pool pid).trans (h.pool pid)⟩

theorem Frame.processCB (h : Frame s x) (t : Nat) : (x.tasks t).processCB = (s.tasks t).processCB :=
  (Prod.ext_iff.mp (Prod.ext_iff.mp (Prod.ext_iff.mp (h.tasks t)).2).2).2

theorem Frame.getProcessFTable (h : Frame s x) (pid : Nat) : x.fds.getProcessFTable pid = s.fds.getProcessFTable pid := by
  rw [FdState.getProcessFTable, FdState.getProcessFTable, h.files]

theorem Marks.frame (hm : Marks c x dstTid e obj) (h : Frame s x) : Marks c s dstTid e obj := by
  cases hm with
  | fd htype hd hlt hpid hfiles hsem =>
    rw [h.processCB] at hpid hfiles
    exact .fd htype hd hlt (h.processMaxNum ▸ hpid) (h.getProcessFTable _ ▸ hfiles) hsem
  | ptr htype hbuff hsize hpool haddr =>
    rw [h.processCB, h.pool] at hpool
    exact .ptr htype hbuff hsize hpool haddr
  | svc htype => exact .svc htype

private theorem map_pool_holding (s : IpcState H) (pid : Nat) : (s.procs pid).map ProcIpcInfo.pool = (s.holding A pid).map Holding.pool := by
  rw [IpcState.holding, Option.map_map]
  rfl

theorem Same.frame (h : Same A x s) : Frame s x := by
  obtain ⟨refs,hrefs⟩ := h.fds
  refine ⟨?_,?_,h.tasks,fun pid => ?_⟩
  · rw [hrefs]
    rfl
  · rw [hrefs]
    rfl
  · rw [map_pool_holding (A := A), map_pool_holding (A := A), h.holding]

theorem Same.receiver (h : Same A x s) (hr : SameRights x s) (dstTid : Nat) : receiver A x dstTid = receiver A s dstTid := by
  obtain ⟨refs,hrefs⟩ := h.fds
  rw [LiteIpc.receiver, LiteIpc.receiver, h.processCB, h.holding, hr.queue, hr.accessMap, hr.access, hrefs]
  rfl

theorem frame_setProc (hp : s.procs pid = some p) {q : ProcIpcInfo H} (hq : q.pool = p.pool) : Frame s (s.setProc pid q) := by
  refine ⟨rfl,rfl,fun _ => rfl,fun x => ?_⟩
  rw [IpcState.procs_setProc]
  by_cases hx : x = pid
  · rw [hx, update_self, hp, Option.map_some, Option.map_some, hq]
  · rw [update_of_ne hx]

/-- A receiver whose pool is changed. -/
theorem receiver_setProc (hp : s.procs (s.tasks dstTid).processCB = some p) {q : ProcIpcInfo H} (hq : q.access = p.access) :
    receiver A (s.setProc (s.tasks dstTid).processCB q) dstTid =
      { receiver A s dstTid with holding := some (q.holding A) } := by
  have hr := IpcState.sameRights_setProc hp hq
  rw [receiver, receiver, IpcState.tasks_setProc, IpcState.holding_setProc, update_self, hr.queue, hr.accessMap, hr.access]
  rfl

theorem receiver_setTable {id : Nat} (fdt : FdTable) (refs : Int → Int)
    (hfiles : s.fds.getProcessFTable (s.tasks dstTid).processCB = some id) :
    receiver A (s.setFds ((s.fds.setTable id fdt).withRefs refs)) dstTid = { receiver A s dstTid with fdTable := some fdt } := by
  have hset : (((s.fds.setTable id fdt).withRefs refs).getProcessFTable (s.tasks dstTid).processCB).bind
      ((s.fds.setTable id fdt).withRefs refs).tables = some fdt := by
    change (s.fds.getProcessFTable (s.tasks dstTid).processCB).bind (update s.fds.tables id (some fdt)) = some fdt
    rw [hfiles, Option.bind_some, update_self]
  exact congrArg (fun t => Receiver.mk t _ _ _ _) hset

/-- A used node that is released. -/
private theorem holding_giveBack {h : H} {buf : Nat} (hheap : p.heap = some h) (hb : A.blocks h buf ≠ none) (hmem : buf ∈ p.ipcUsedNodelist) :
    ProcIpcInfo.holding A { p with heap := some (A.free h buf), ipcUsedNodelist := p.ipcUsedNodelist.erase buf } =
      (p.holding A).giveBack buf := by
  obtain ⟨hbase,hsize⟩ := A.free_region hb
  have hmem' : buf ∈ (p.holding A).used := hmem
  rw [Holding.giveBack, if_pos hmem', Holding.release, ProcIpcInfo.holding, ProcIpcInfo.holding, hheap, Option.map_some, Option.map_some,
    Option.map_some, region, region, hbase, hsize, A.free_blocks hb]

private theorem isIpcNode_eq {buf : Nat} (hproc : s.procs pid = some p) : s.isIpcNode pid buf =
    if buf ∈ p.ipcUsedNodelist then (true,s.setProc pid { p with ipcUsedNodelist := p.ipcUsedNodelist.erase buf }) else (false,s) := by
  rw [IpcState.isIpcNode, hproc]

private theorem toInt_natCast {d : Nat} (h : d < 2^31) : toInt d = (d : Int) := if_pos h

/-- The way back takes the effect of an object back, whatever is left of the objects after it. -/
theorem handleObj_revert (ans : ObjAnswers) (hm : Marks c s dstTid e obj) (hf : Frame s x) (hp : effects.Possible e r)
    (hx : effects.apply e r ≤ receiver A x dstTid) :
    receiver A (handleObj A c ans x dstTid obj true).2.1 dstTid = effects.revert e (receiver A x dstTid) ∧
      Frame s (handleObj A c ans x dstTid obj true).2.1 := by
  cases hm with
  | @fd id d sysFd _ htype hd hlt hpid hfiles hsem =>
    obtain ⟨f,hfd,-,hmax,hsys⟩ := hp
    have hxf : Option.Rel Cleared (Option.map (fun f => f.occupy d sysFd) r.fdTable) (receiver A x dstTid).fdTable := hx.fdTable
    rw [hfd] at hxf
    obtain ⟨f',hf',hclear⟩ := rel_some hxf
    have hclear : Cleared (f.occupy d sysFd) f' := hclear
    have hoccupied : (f.occupy d sysFd).procFds d = true ∧ (f.occupy d sysFd).sysFd d = sysFd := ⟨update_self ..,update_self ..⟩
    have hfiles' : x.fds.getProcessFTable (x.tasks dstTid).processCB = some id := by
      rw [hf.processCB, hf.getProcessFTable, hfiles]
    have htable : x.fds.tables id = some f' := by
      change (x.fds.getProcessFTable (x.tasks dstTid).processCB).bind x.fds.tables = some f' at hf'
      rwa [hfiles', Option.bind_some] at hf'
    have hpid' : (x.tasks dstTid).processCB < x.fds.processMaxNum := by
      rw [hf.processCB, hf.processMaxNum]
      exact hpid
    have hsys' : 0 ≤ f'.sysFd d := by
      rcases hclear.entries d with ⟨-,hs⟩ | ⟨hfree,-⟩
      · rwa [hs, hoccupied.2]
      · exact absurd (hfree.symm.trans hoccupied.1) Bool.false_ne_true
    obtain ⟨refs,hclose⟩ := closeProcFd_clear hpid' hfiles' htable hsem (hclear.maxFds ▸ hmax) hsys'
    have hend : (handleObj A c ans x dstTid obj true).2.1 = x.setFds ((x.fds.setTable id (f'.clear d)).withRefs refs) := by
      rw [handleObj, if_pos htype, handleFd, if_neg Bool.noConfusion, hd, toInt_natCast hlt, ← hclose]
      dsimp only
      split <;> rfl
    rw [hend, receiver_setTable (f'.clear d) refs hfiles']
    refine ⟨?_,hf.trans ⟨rfl,rfl,fun _ => rfl,fun _ => rfl⟩⟩
    change Receiver.mk _ _ _ _ _ = Receiver.mk ((receiver A x dstTid).fdTable.map fun f : FdTable => f.clear d) _ _ _ _
    rw [hf', Option.map_some]
  | @ptr buf size noted _ pool htype hbuff hsize hpool haddr =>
    obtain ⟨k,g,hk,hg,-⟩ := hp
    rw [← hf.processCB, ← hf.pool] at hpool
    obtain ⟨p,hproc,rfl⟩ := Option.map_eq_some_iff.mp hpool
    have hxp : (receiver A x dstTid).holding = some (p.holding A) := by
      rw [receiver, IpcState.holding, hproc, Option.map_some]
    have hxh : Option.Rel Holding.Fuller (r.holding.map fun k => k.take buf size noted) (receiver A x dstTid).holding := hx.holding
    rw [hk, hxp] at hxh
    obtain ⟨h',hheap',hheld⟩ := Holding.held_take hg size noted
    obtain ⟨k',hk',hfull⟩ := rel_some hxh
    obtain rfl := Option.some.inj hk'
    obtain ⟨h'',hh'',hfuller⟩ := rel_some (hheap' ▸ hfull.heap)
    obtain ⟨h,hheap,rfl⟩ := Option.map_eq_some_iff.mp hh''
    have hb : A.blocks h buf ≠ none := by
      obtain ⟨n,hn⟩ := Option.ne_none_iff_exists'.mp hheld
      rw [show A.blocks h buf = some n from hfuller.blocks buf n hn]
      exact Option.some_ne_none n
    have hrevert : effects.revert (.ptr buf size noted) (receiver A x dstTid) =
        { receiver A x dstTid with holding := some ((p.holding A).giveBack buf) } := by
      change Receiver.mk _ ((receiver A x dstTid).holding.map _) _ _ _ = _
      rw [hxp, Option.map_some]
    have hobj (b : Bool) (y : IpcState H) (hnode : x.isIpcNode (x.tasks dstTid).processCB buf = (b,y)) :
        (handleObj A c ans x dstTid obj true).2.1 = if b = true then y.liteIpcNodeFree A (x.tasks dstTid).processCB buf else y := by
      rw [handleObj, if_neg (by rw [htype]; decide), if_pos htype, handlePtr, hproc]
      dsimp only
      rw [if_neg (not_or.mpr ⟨hbuff,hsize⟩), if_neg Bool.noConfusion, haddr, hnode]
      cases b <;> rfl
    by_cases hmem : buf ∈ p.ipcUsedNodelist
    · have hself : (x.setProc (x.tasks dstTid).processCB { p with ipcUsedNodelist := p.ipcUsedNodelist.erase buf }).procs
          (x.tasks dstTid).processCB = some { p with ipcUsedNodelist := p.ipcUsedNodelist.erase buf } := by
        rw [IpcState.procs_setProc, update_self]
      have hnode := hobj _ _ ((isIpcNode_eq hproc).trans (if_pos hmem))
      rw [hrevert, hnode, if_pos rfl, IpcState.liteIpcNodeFree_eq hself, IpcState.setProc_setProc]
      dsimp only
      rw [hheap, Option.map_some]
      refine ⟨?_,hf.trans (frame_setProc hproc rfl)⟩
      have hset := receiver_setProc (A := A) (q := { p with
        heap := some (A.free h buf)
        ipcUsedNodelist := p.ipcUsedNodelist.erase buf }) hproc rfl
      rw [hset, holding_giveBack hheap hb hmem]
    · rw [hrevert, hobj _ _ ((isIpcNode_eq hproc).trans (if_neg hmem)), if_neg Bool.false_ne_true]
      refine ⟨?_,hf⟩
      have hstay : (p.holding A).giveBack buf = p.holding A := if_neg hmem
      rw [hstay, ← hxp]
  | svc htype =>
    have hend : handleObj A c ans x dstTid obj true = (0,x,obj) := by
      rw [handleObj, if_neg (by rw [htype]; decide), if_neg (by rw [htype]; decide), if_pos htype, handleSvc, if_neg Bool.noConfusion]
    rw [hend]
    exact ⟨rfl,hf⟩

end

end LiteOsKernel.LiteIpc
