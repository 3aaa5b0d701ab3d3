import LiteOsKernel.Fs.ProcFd
import LiteOsKernel.Lib.Run
import Mathlib.Data.List.Range
import Mathlib.Tactic.Linarith

/-! Descriptor tables and references over every interleaving of the calls, with processes that come and go: the calls, the law, and the
calls on a process' own table. -/
namespace LiteOsKernel.Fs

/-- The calls on the table of the process that runs. -/
inductive TableCall where
  | allocLowest (minFd : Int)
  | allocAndAssoc (sysFd minFd : Int)
  | allocSpecified (procFd : Int)
  | associate (procFd sysFd : Int)
  | disassociate (procFd : Int)
  | free (procFd : Int)

def TableCall.run (s : FdState) (p : Nat) : TableCall → Int × FdState
  | .allocLowest minFd => s.allocLowestProcessFd p minFd
  | .allocAndAssoc sysFd minFd => s.allocAndAssocProcessFd p sysFd minFd
  | .allocSpecified procFd => s.allocSpecifiedProcessFd p procFd
  | .associate procFd sysFd => (OK,s.associateSystemFd p procFd sysFd)
  | .disassociate procFd => s.disassociateProcessFd p procFd
  | .free procFd => (OK,s.freeProcessFd p procFd)

/-- Whether descriptor d of table id is associated with the system descriptor n, as a number. -/
def FdState.entry (s : FdState) (id d : Nat) (n : Int) : Int :=
  match s.tables id with
  | none => 0
  | some fdt => if fdt.sysFd d = n ∧ 0 ≤ n then 1 else 0

/-- A call of CopyFdToProc (kind 1) or CloseProcFd (kind -1), whether FdRefer found the queue of a queue descriptor there, and by how much
the steps of the call have changed the reference count of each system descriptor and each entry of each table. -/
structure FdCall where
  kind : Int
  pc : FdPc
  isOpen : Bool
  refs : Int → Int
  entries : Nat → Nat → Int → Int

def FdCall.start (kind : Int) (pc : FdPc) : FdCall := ⟨kind,pc,false,fun _ => 0,fun _ _ _ => 0⟩

/-- A call after one step. -/
def FdCall.next (s : FdState) (answer : Bool) (c : FdCall) : FdCall where
  kind := c.kind
  pc := (fdStep s answer c.pc).1
  isOpen := match c.pc with
    | .copyRefer .. => answer
    | _ => c.isOpen
  refs n := c.refs n + ((fdStep s answer c.pc).2.refs n - s.refs n)
  entries id d n := c.entries id d n + ((fdStep s answer c.pc).2.entry id d n - s.entry id d n)

/-- The state, who holds a descriptor of a table between its allocation and its association, and the calls that are under way. -/
structure FdWorld where
  state : FdState
  holder : Nat → Nat → Option Nat
  calls : Nat → Option FdCall

inductive FdLabel where
  | table (p who : Nat) (call : TableCall)
  | copyFdToProc (k p : Nat) (fd : Int) (target : Nat)
  | closeProcFd (k : Nat) (procFd : Int) (target : Nat)
  | step (k : Nat) (answer : Bool)
  | inactive (p : Nat)
  | deleteFiles (p : Nat)
  | start (p id : Nat) (fdt : FdTable)

namespace FdWorld

def setHolder (w : FdWorld) (id d : Nat) (h : Option Nat) : Nat → Nat → Option Nat :=
  Function.update w.holder id (Function.update (w.holder id) d h)

/-- Who holds what after a call on a table: an allocated or taken off descriptor is held until it is associated or freed. -/
def holderAfter (w : FdWorld) (p who : Nat) (call : TableCall) : Nat → Nat → Option Nat :=
  match w.state.getFdTable p with
  | none => w.holder
  | some (id,fdt) =>
    let result := (call.run w.state p).1
    match call with
    | .allocLowest _ => if 0 ≤ result then w.setHolder id result.toNat (some who) else w.holder
    | .allocAndAssoc _ _ => w.holder
    | .allocSpecified procFd => if result = OK then w.setHolder id procFd.toNat (some who) else w.holder
    | .associate procFd sysFd =>
      if isValidProcessFd fdt procFd = true ∧ 0 ≤ sysFd then w.setHolder id procFd.toNat none else w.holder
    | .disassociate procFd => if 0 ≤ result ∧ MIN_START_FD ≤ procFd then w.setHolder id procFd.toNat (some who) else w.holder
    | .free procFd =>
      if isValidProcessFd fdt procFd = true ∧ w.holder id procFd.toNat = some who then w.setHolder id procFd.toNat none else w.holder

def run (w : FdWorld) : FdLabel → FdWorld
  | .table p who call => { w with state := (call.run w.state p).2, holder := w.holderAfter p who call }
  | .copyFdToProc k p fd target => { w with calls := Function.update w.calls k (some (.start 1 (.copyGet p fd target))) }
  | .closeProcFd k procFd target => { w with calls := Function.update w.calls k (some (.start (-1) (.closeTable procFd target))) }
  | .step k answer =>
    match w.calls k with
    | none => w
    | some c =>
      { w with state := (fdStep w.state answer c.pc).2, calls := Function.update w.calls k (some (c.next w.state answer)) }
  | .inactive p =>
    { w with state := { w.state with procs := Function.update w.state.procs p { w.state.procs p with inactive := true } } }
  | .deleteFiles p =>
    { w with state := { w.state with
        procs := Function.update w.state.procs p { w.state.procs p with files := none }
        tables := match (w.state.procs p).files with
          | none => w.state.tables
          | some id => Function.update w.state.tables id none } }
  | .start p id fdt =>
    { w with
      state := { w.state with
        procs := Function.update w.state.procs p ⟨false,some id⟩
        tables := Function.update w.state.tables id (some fdt) }
      holder := Function.update w.holder id fun _ => none }

end FdWorld

/-- Associated entries have their bit set. -/
def FdTable.Marked (fdt : FdTable) : Prop := ∀ d, 0 ≤ fdt.sysFd d → fdt.procFds d = true

/-- A call is new, and so is the table of a new process. -/
def FdLabel.pre (w : FdWorld) : FdLabel → Prop
  | .copyFdToProc k _ _ _ => w.calls k = none
  | .closeProcFd k _ _ => w.calls k = none
  | .start _ id fdt => w.state.tables id = none ∧ fdt.Marked
  | _ => True

/-- One descriptor of a table: an associated one has its bit set, and so has one that is held, which is not associated. -/
def SlotOk (bit : Bool) (sysFd : Int) (holder : Option Nat) : Prop := (0 ≤ sysFd → bit = true) ∧ (holder ≠ none → bit = true ∧ sysFd < 0)

/-- The steps of the call have added k references to the system descriptor n, and none to others. -/
def FdCall.Refers (c : FdCall) (n k : Int) : Prop := c.refs = fun m => if m = n then k else 0

/-- The steps of the call have added k entries for n at descriptor d of table id, and changed no other entry. -/
def FdCall.Enters (c : FdCall) (id d : Nat) (n k : Int) : Prop := c.entries = fun i e m => if i = id ∧ e = d ∧ m = n then k else 0

/-- A call that has ended has added as many references as entries. A copy that succeeded: one each, for the descriptor it returns; a close
that succeeded: minus one each; a call that failed: it has left the reference counts and the tables as they were. -/
def FdCall.Settled (c : FdCall) : Prop :=
  ∀ result, c.pc = .done result →
    (0 ≤ result → ∃ n id d, 0 ≤ n ∧ c.Refers n c.kind ∧ c.Enters id d n c.kind ∧ (c.kind = 1 → result = d)) ∧
    (result < 0 → (∀ n, c.refs n = 0) ∧ ∀ id d n, c.entries id d n = 0)

/-- The tables agree with what is held. -/
def Slots (s : FdState) (holder : Nat → Nat → Option Nat) : Prop :=
  ∀ id fdt, s.tables id = some fdt → ∀ d, SlotOk (fdt.procFds d) (fdt.sysFd d) (holder id d)

/-- The tables agree with what is held, and the calls that have ended have added what they were to add. -/
structure Agrees (w : FdWorld) : Prop where
  slot : Slots w.state w.holder
  settled : ∀ k c, w.calls k = some c → c.Settled

/-- What a call allocates: the table, the bound of the search if there was one, and the descriptor. -/
def FdWorld.allocated (w : FdWorld) : FdLabel → Option (Nat × Option Nat × Nat)
  | .table p _ call =>
    (w.state.getFdTable p).bind fun (id,_) =>
      let result := (call.run w.state p).1
      match call with
      | .allocLowest minFd => if 0 ≤ result then some (id,some (max minFd 3).toNat,result.toNat) else none
      | .allocAndAssoc _ minFd => if 0 ≤ result then some (id,some (max minFd 3).toNat,result.toNat) else none
      | .allocSpecified procFd => if result = OK then some (id,none,procFd.toNat) else none
      | _ => none
  | .step k answer =>
    match w.calls k with
    | some ⟨_,.copyAssign sysFd target id,_,_,_⟩ =>
      match (fdStep w.state answer (.copyAssign sysFd target id)).1 with
      | .done result => some (id,some 3,result.toNat)
      | _ => none
    | _ => none
  | _ => none

/-- The lowest descriptor from m on whose bit is not set. -/
structure LowestFree (fdt : FdTable) (m d : Nat) : Prop where
  le : m ≤ d
  lt : d < fdt.maxFds
  free : fdt.procFds d = false
  least : ∀ e, m ≤ e → e < d → fdt.procFds e = true

/-- After the step everything agrees, and what it allocates is the lowest free descriptor, or the one asked for, that no call holds. -/
structure FdLaw (w : FdWorld) (l : FdLabel) : Prop where
  agrees : Agrees (w.run l)
  allocated : ∀ id m d, w.allocated l = some (id,m,d) →
    w.holder id d = none ∧ ∀ fdt, w.state.tables id = some fdt → ∀ b, m = some b → LowestFree fdt b d

/-- A descriptor that has a reference count: a file, a socket, or a queue that is there. -/
def FdConfig.Counted (cfg : FdConfig) (sysFd : Int) (isOpen : Bool) : Prop :=
  isFile sysFd = true ∨ cfg.isSocket sysFd = true ∨ cfg.isMqueue sysFd = true ∧ isOpen = true

instance (cfg : FdConfig) (sysFd : Int) (isOpen : Bool) : Decidable (cfg.Counted sysFd isOpen) := inferInstanceAs (Decidable (_ ∨ _))

/-- The condition on the next step of a call: an entry is added for a descriptor that has a reference count; a failing copy finds the
target of a file active and a queue as FdRefer found it; a close has a descriptor with a reference count, and the target of a file
active. -/
def FdCall.StepOk (s : FdState) (answer : Bool) (c : FdCall) : Prop :=
  match c.pc with
  | .copyAssign sysFd _ id => ∀ fdt, s.tables id = some fdt → answer = true → assignProcessFd fdt 3 ≠ none → s.cfg.Counted sysFd c.isOpen
  | .copyUndo sysFd target _ =>
    (isFile sysFd = true → (s.procs target).inactive = false) ∧ (s.cfg.isMqueue sysFd = true → answer = c.isOpen)
  | .closeRefs sysFd target => s.cfg.Counted sysFd answer ∧ (isFile sysFd = true → (s.procs target).inactive = false)
  | _ => True

/-- The condition on the steps: only an entry whose bit is set is associated, no descriptor is freed that another call holds, and the steps
of copies and closes meet theirs. -/
def FdOk (w : FdWorld) : FdLabel → Prop
  | .table p _ (.associate procFd sysFd) => ∀ id fdt, w.state.getFdTable p = some (id,fdt) → isValidProcessFd fdt procFd = true →
    0 ≤ sysFd → fdt.procFds procFd.toNat = true
  | .table p who (.free procFd) => ∀ id fdt, w.state.getFdTable p = some (id,fdt) → isValidProcessFd fdt procFd = true →
    ∀ other, w.holder id procFd.toNat = some other → other = who
  | .step k answer => ∀ c, w.calls k = some c → c.StepOk w.state answer
  | _ => True

theorem assignProcessFd_some {fdt : FdTable} {m d : Nat} (h : assignProcessFd fdt m = some d) : LowestFree fdt m d := by
  rw [assignProcessFd] at h
  split at h
  · cases h
  obtain ⟨hfree,as,bs,hsplit,has⟩ := List.find?_eq_some_iff_append.mp h
  have hmem : d ∈ List.range' m (fdt.maxFds - m) := by rw [hsplit]; exact List.mem_append_right as List.mem_cons_self
  have hrange := List.mem_range'_1.mp hmem
  refine ⟨hrange.1,by omega,Bool.not_eq_true' _ |>.mp hfree,fun e he hlt => ?_⟩
  have hin : e ∈ as := by
    have he' : e ∈ List.range' m (fdt.maxFds - m) := List.mem_range'_1.mpr ⟨he,by omega⟩
    have hsorted : (as ++ d :: bs).Pairwise (· < ·) := hsplit ▸ List.pairwise_lt_range'
    rw [hsplit] at he'
    rcases List.mem_append.mp he' with hin | hin
    · exact hin
    · rcases List.mem_cons.mp hin with rfl | hin
      · exact absurd hlt (Nat.lt_irrefl _)
      · exact absurd (List.rel_of_pairwise_cons (List.pairwise_append.mp hsorted).2.1 hin) (by omega)
  have := has e hin
  rwa [Bool.not_not] at this

section
variable {w : FdWorld} {p who id d : Nat} {fdt fdt' : FdTable} {h : Option Nat}

private theorem FdState.getFdTable_some {s : FdState} (hf : s.getFdTable p = some (id,fdt)) : s.tables id = some fdt := by
  rw [getFdTable] at hf
  split at hf
  · cases hf
  · obtain ⟨t,ht,heq⟩ := Option.map_eq_some_iff.mp hf
    obtain ⟨rfl,rfl⟩ := Prod.mk.inj heq
    exact ht

private theorem FdWorld.setHolder_self (w : FdWorld) (id d : Nat) : w.setHolder id d (w.holder id d) = w.holder := by
  rw [setHolder, Function.update_eq_self, Function.update_eq_self]

/-- A change of one descriptor of a table keeps the agreement exactly if that descriptor is in order afterwards. -/
theorem slots_iff {s : FdState} {holder : Nat → Nat → Option Nat} (hs : Slots s holder) (ht : s.tables id = some fdt)
    (hsame : ∀ e, e ≠ d → fdt'.procFds e = fdt.procFds e ∧ fdt'.sysFd e = fdt.sysFd e) :
    Slots (s.setTable id fdt') (Function.update holder id (Function.update (holder id) d h)) ↔
      SlotOk (fdt'.procFds d) (fdt'.sysFd d) h := by
  constructor
  · intro hslots
    have htable : (s.setTable id fdt').tables id = some fdt' := by simp only [FdState.setTable, Function.update_self]
    have hslot := hslots id fdt' htable d
    rwa [Function.update_self, Function.update_self] at hslot
  · intro hslot j t hj e
    by_cases hid : j = id
    · subst hid
      simp only [FdState.setTable, Function.update_self] at hj
      obtain rfl := Option.some.inj hj
      rw [Function.update_self]
      by_cases he : e = d
      · rw [he, Function.update_self]
        exact hslot
      · rw [Function.update_of_ne he, (hsame e he).1, (hsame e he).2]
        exact hs j fdt ht e
    · simp only [FdState.setTable, Function.update_of_ne hid] at hj
      rw [Function.update_of_ne hid]
      exact hs j t hj e

private theorem agrees_slot_iff (hg : Agrees w) (ht : w.state.tables id = some fdt)
    (hsame : ∀ e, e ≠ d → fdt'.procFds e = fdt.procFds e ∧ fdt'.sysFd e = fdt.sysFd e) :
    Agrees { w with state := w.state.setTable id fdt', holder := w.setHolder id d h } ↔ SlotOk (fdt'.procFds d) (fdt'.sysFd d) h :=
  ⟨fun ha => (slots_iff hg.slot ht hsame).mp ha.slot,fun hslot => ⟨(slots_iff hg.slot ht hsame).mpr hslot,hg.settled⟩⟩

private theorem run_allocLowest (hf : w.state.getFdTable p = some (id,fdt)) (minFd : Int) : w.run (.table p who (.allocLowest minFd)) =
    match assignProcessFd fdt (max minFd MIN_START_FD).toNat with
    | none => w
    | some d => { w with
        state := w.state.setTable id { fdt with procFds := Function.update fdt.procFds d true }
        holder := w.setHolder id d (some who) } := by
  simp only [FdWorld.run, FdWorld.holderAfter, TableCall.run, FdState.allocLowestProcessFd, hf]
  cases assignProcessFd fdt (max minFd MIN_START_FD).toNat with
  | none => rfl
  | some d => simp only [Int.natCast_nonneg, if_true, Int.toNat_natCast]

private theorem run_allocAndAssoc (hf : w.state.getFdTable p = some (id,fdt)) (sysFd minFd : Int) :
    w.run (.table p who (.allocAndAssoc sysFd minFd)) =
      match assignProcessFd fdt (max minFd MIN_START_FD).toNat with
      | none => w
      | some d => { w with state := w.state.setTable id (fdt.occupy d sysFd), holder := w.setHolder id d (w.holder id d) } := by
  simp only [FdWorld.run, FdWorld.holderAfter, TableCall.run, FdState.allocAndAssocProcessFd, hf]
  cases assignProcessFd fdt (max minFd MIN_START_FD).toNat with
  | none => rfl
  | some d => simp only [FdWorld.setHolder_self]

private theorem run_allocSpecified (hf : w.state.getFdTable p = some (id,fdt)) (procFd : Int) :
    w.run (.table p who (.allocSpecified procFd)) =
      if isValidProcessFd fdt procFd = true then
        if 0 ≤ fdt.sysFd procFd.toNat then { w with
          state := w.state.setTable id { fdt with sysFd := Function.update fdt.sysFd procFd.toNat (-1) }
          holder := w.setHolder id procFd.toNat (some who) }
        else if fdt.procFds procFd.toNat = true then w
        else { w with
          state := w.state.setTable id { fdt with procFds := Function.update fdt.procFds procFd.toNat true }
          holder := w.setHolder id procFd.toNat (some who) }
      else w := by
  have h1 : ¬ -EBADF = OK := by decide
  have h2 : ¬ -EBUSY = OK := by decide
  simp only [FdWorld.run, FdWorld.holderAfter, TableCall.run, FdState.allocSpecifiedProcessFd, hf]
  cases hv : isValidProcessFd fdt procFd with
  | false => simp only [if_true, h1, if_false, Bool.false_eq_true]
  | true =>
    simp only [Bool.true_eq_false, if_false, if_true]
    by_cases hs : 0 ≤ fdt.sysFd procFd.toNat
    · simp only [if_pos hs, if_true]
    · simp only [if_neg hs]
      by_cases hb : fdt.procFds procFd.toNat = true
      · simp only [if_pos hb, h2, if_false]
      · simp only [if_neg hb, if_true]

private theorem run_associate (hf : w.state.getFdTable p = some (id,fdt)) (procFd sysFd : Int) :
    w.run (.table p who (.associate procFd sysFd)) =
      if isValidProcessFd fdt procFd = true ∧ 0 ≤ sysFd then { w with
        state := w.state.setTable id { fdt with sysFd := Function.update fdt.sysFd procFd.toNat sysFd }
        holder := w.setHolder id procFd.toNat none }
      else w := by
  simp only [FdWorld.run, FdWorld.holderAfter, TableCall.run, FdState.associateSystemFd, hf]
  cases hv : isValidProcessFd fdt procFd with
  | false => simp only [if_true, Bool.false_eq_true, false_and, if_false]
  | true =>
    by_cases hs : 0 ≤ sysFd
    · simp only [Bool.true_eq_false, if_false, if_neg (not_lt.mpr hs), true_and, if_pos hs]
    · simp only [Bool.true_eq_false, if_false, if_pos (not_le.mp hs), true_and, if_neg hs]

private theorem run_disassociate (hf : w.state.getFdTable p = some (id,fdt)) (procFd : Int) :
    w.run (.table p who (.disassociate procFd)) =
      if isValidProcessFd fdt procFd = true ∧ 0 ≤ fdt.sysFd procFd.toNat ∧ MIN_START_FD ≤ procFd then { w with
        state := w.state.setTable id { fdt with sysFd := Function.update fdt.sysFd procFd.toNat (-1) }
        holder := w.setHolder id procFd.toNat (some who) }
      else w := by
  have h1 : ¬ 0 ≤ VFS_ERROR := by decide
  simp only [FdWorld.run, FdWorld.holderAfter, TableCall.run, FdState.disassociateProcessFd, hf]
  cases hv : isValidProcessFd fdt procFd with
  | false => simp only [if_true, h1, Bool.false_eq_true, false_and, if_false]
  | true =>
    by_cases hs : 0 ≤ fdt.sysFd procFd.toNat
    · by_cases hm : MIN_START_FD ≤ procFd
      · simp only [Bool.true_eq_false, if_false, if_neg (not_lt.mpr hs), hs, hm, and_true, if_true]
      · simp only [Bool.true_eq_false, if_false, if_neg (not_lt.mpr hs), hm, and_false]
    · simp only [Bool.true_eq_false, if_false, if_pos (not_le.mp hs), h1, hs, false_and, and_false]

theorem run_free (hf : w.state.getFdTable p = some (id,fdt)) (procFd : Int) : w.run (.table p who (.free procFd)) =
    if isValidProcessFd fdt procFd = true then { w with
      state := w.state.setTable id (fdt.clear procFd.toNat)
      holder := w.setHolder id procFd.toNat
        (if w.holder id procFd.toNat = some who then none else w.holder id procFd.toNat) }
    else w := by
  simp only [FdWorld.run, FdWorld.holderAfter, TableCall.run, FdState.freeProcessFd, hf]
  cases hv : isValidProcessFd fdt procFd with
  | false => simp only [if_true, Bool.false_eq_true, false_and, if_false]
  | true =>
    by_cases hh : w.holder id procFd.toNat = some who
    · simp only [Bool.true_eq_false, if_false, true_and, if_pos hh, if_true]
    · simp only [Bool.true_eq_false, if_false, true_and, if_neg hh, if_true, FdWorld.setHolder_self]

private theorem run_table_none (hf : w.state.getFdTable p = none) (call : TableCall) : w.run (.table p who call) = w := by
  have hstate : (call.run w.state p).2 = w.state := by
    cases call with
    | allocLowest minFd => simp only [TableCall.run, FdState.allocLowestProcessFd, hf]
    | allocAndAssoc sysFd minFd => simp only [TableCall.run, FdState.allocAndAssocProcessFd, hf]
    | allocSpecified procFd => simp only [TableCall.run, FdState.allocSpecifiedProcessFd, hf]
    | associate procFd sysFd => simp only [TableCall.run, FdState.associateSystemFd, hf]
    | disassociate procFd => simp only [TableCall.run, FdState.disassociateProcessFd, hf]
    | free procFd => simp only [TableCall.run, FdState.freeProcessFd, hf]
  simp only [FdWorld.run, FdWorld.holderAfter, hf, hstate]

/-- A call on a table keeps the agreement exactly if it meets the condition. -/
theorem agrees_table_iff (hg : Agrees w) (call : TableCall) : Agrees (w.run (.table p who call)) ↔ FdOk w (.table p who call) := by
  cases hf : w.state.getFdTable p with
  | none =>
    rw [run_table_none hf]
    refine iff_of_true hg ?_
    cases call with
    | associate procFd sysFd =>
      intro id fdt h
      rw [hf] at h
      cases h
    | free procFd =>
      intro id fdt h
      rw [hf] at h
      cases h
    | _ => trivial
  | some t =>
    obtain ⟨id,fdt⟩ := t
    have ht := FdState.getFdTable_some hf
    have hslot := hg.slot id fdt ht
    cases call with
    | allocLowest minFd =>
      refine iff_of_true ?_ trivial
      rw [run_allocLowest hf]
      cases hd : assignProcessFd fdt (max minFd MIN_START_FD).toNat with
      | none => exact hg
      | some d =>
        refine (agrees_slot_iff hg ht ?_).mpr ?_
        · exact fun e he => ⟨Function.update_of_ne he .., rfl⟩
        simp only [Function.update_self]
        refine ⟨fun _ => rfl,fun _ => ⟨rfl,not_le.mp fun h0 => ?_⟩⟩
        have hfree := (assignProcessFd_some hd).free
        rw [(hslot d).1 h0] at hfree
        cases hfree
    | allocAndAssoc sysFd minFd =>
      refine iff_of_true ?_ trivial
      rw [run_allocAndAssoc hf]
      cases hd : assignProcessFd fdt (max minFd MIN_START_FD).toNat with
      | none => exact hg
      | some d =>
        refine (agrees_slot_iff hg ht ?_).mpr ?_
        · exact fun e he => ⟨Function.update_of_ne he .., Function.update_of_ne he ..⟩
        simp only [FdTable.occupy, Function.update_self]
        refine ⟨fun _ => rfl,fun hheld => absurd ((hslot d).2 hheld).1 ?_⟩
        rw [(assignProcessFd_some hd).free]
        decide
    | allocSpecified procFd =>
      refine iff_of_true ?_ trivial
      rw [run_allocSpecified hf]
      split
      · split
        · rename_i h0
          refine (agrees_slot_iff hg ht ?_).mpr ?_
          · exact fun e he => ⟨rfl,Function.update_of_ne he ..⟩
          simp only [Function.update_self]
          exact ⟨fun h => absurd h (by decide),fun _ => ⟨(hslot _).1 h0,by decide⟩⟩
        · rename_i h0
          split
          · exact hg
          · refine (agrees_slot_iff hg ht ?_).mpr ?_
            · exact fun e he => ⟨Function.update_of_ne he ..,rfl⟩
            simp only [Function.update_self]
            exact ⟨fun _ => rfl,fun _ => ⟨rfl,not_le.mp h0⟩⟩
      · exact hg
    | associate procFd sysFd =>
      rw [run_associate hf]
      have hok : FdOk w (.table p who (.associate procFd sysFd)) ↔
          (isValidProcessFd fdt procFd = true ∧ 0 ≤ sysFd → fdt.procFds procFd.toNat = true) := by
        refine ⟨fun h hv => h id fdt hf hv.1 hv.2,fun h id' fdt' hf' hv hs => ?_⟩
        rw [hf] at hf'
        obtain ⟨rfl,rfl⟩ := Prod.mk.inj (Option.some.inj hf')
        exact h ⟨hv,hs⟩
      rw [hok]
      by_cases hv : isValidProcessFd fdt procFd = true ∧ 0 ≤ sysFd
      · rw [if_pos hv]
        refine (agrees_slot_iff hg ht fun e he => ?_).trans ?_
        · exact ⟨rfl,Function.update_of_ne he ..⟩
        simp only [Function.update_self]
        exact ⟨fun h _ => h.1 hv.2,fun h => ⟨fun _ => h hv,fun h => absurd rfl h⟩⟩
      · rw [if_neg hv]
        exact iff_of_true hg fun h => absurd h hv
    | disassociate procFd =>
      refine iff_of_true ?_ trivial
      rw [run_disassociate hf]
      split
      · rename_i hv
        refine (agrees_slot_iff hg ht ?_).mpr ?_
        · exact fun e he => ⟨rfl,Function.update_of_ne he ..⟩
        simp only [Function.update_self]
        exact ⟨fun h => absurd h (by decide),fun _ => ⟨(hslot _).1 hv.2.1,by decide⟩⟩
      · exact hg
    | free procFd =>
      rw [run_free hf]
      have hok : FdOk w (.table p who (.free procFd)) ↔
          (isValidProcessFd fdt procFd = true → ∀ other, w.holder id procFd.toNat = some other → other = who) := by
        refine ⟨fun h hv => h id fdt hf hv,fun h id' fdt' hf' hv => ?_⟩
        rw [hf] at hf'
        obtain ⟨rfl,rfl⟩ := Prod.mk.inj (Option.some.inj hf')
        exact h hv
      rw [hok]
      by_cases hv : isValidProcessFd fdt procFd = true
      · rw [if_pos hv]
        refine (agrees_slot_iff hg ht fun e he => ?_).trans ?_
        · exact ⟨Function.update_of_ne he ..,Function.update_of_ne he ..⟩
        simp only [FdTable.clear, Function.update_self]
        constructor
        · intro h _ other hother
          by_contra hne
          have hheld := h.2
          rw [hother, if_neg fun h => hne (Option.some.inj h)] at hheld
          exact absurd (hheld (Option.some_ne_none other)).1 (by decide)
        · refine fun h => ⟨fun h0 => absurd h0 (by decide),fun hne => absurd ?_ hne⟩
          cases hh : w.holder id procFd.toNat with
          | none => rw [if_neg (Option.some_ne_none who).symm]
          | some other => rw [h hv other hh, if_pos rfl]
      · rw [if_neg hv]
        exact iff_of_true hg fun h => absurd h hv

/-- What a call on a table allocates. -/
theorem allocated_table (hg : Agrees w) (call : TableCall) {m : Option Nat} (ha : w.allocated (.table p who call) = some (id,m,d)) :
    w.holder id d = none ∧ ∀ fdt, w.state.tables id = some fdt → ∀ b, m = some b → LowestFree fdt b d := by
  rw [FdWorld.allocated] at ha
  obtain ⟨⟨j,fdt⟩,hf,ha⟩ := Option.bind_eq_some_iff.mp ha
  have ht := FdState.getFdTable_some hf
  have hslot := hg.slot j fdt ht
  have hlowest : ∀ {b d'}, assignProcessFd fdt b = some d' → w.holder j d' = none ∧
      ∀ t, w.state.tables j = some t → ∀ b', some b = some b' → LowestFree t b' d' := by
    intro b d' hd
    have hlow := assignProcessFd_some hd
    refine ⟨by_contra fun hheld => ?_,fun t htt b' hb => ?_⟩
    · have := ((hslot d').2 hheld).1
      rw [hlow.free] at this
      cases this
    · rw [ht] at htt
      obtain rfl := Option.some.inj htt
      obtain rfl := Option.some.inj hb
      exact hlow
  have hneg : ¬ 0 ≤ VFS_ERROR := by decide
  cases call with
  | allocLowest minFd =>
    simp only [TableCall.run, FdState.allocLowestProcessFd, hf] at ha
    cases hd : assignProcessFd fdt (max minFd MIN_START_FD).toNat with
    | none =>
      simp only [hd, hneg, if_false] at ha
      cases ha
    | some d' =>
      simp only [hd, Int.natCast_nonneg, if_true, Int.toNat_natCast] at ha
      obtain ⟨rfl,rfl,rfl⟩ : j = id ∧ some (max minFd 3).toNat = m ∧ d' = d := by simpa using ha
      exact hlowest hd
  | allocAndAssoc sysFd minFd =>
    simp only [TableCall.run, FdState.allocAndAssocProcessFd, hf] at ha
    cases hd : assignProcessFd fdt (max minFd MIN_START_FD).toNat with
    | none =>
      simp only [hd, hneg, if_false] at ha
      cases ha
    | some d' =>
      simp only [hd, Int.natCast_nonneg, if_true, Int.toNat_natCast] at ha
      obtain ⟨rfl,rfl,rfl⟩ : j = id ∧ some (max minFd 3).toNat = m ∧ d' = d := by simpa using ha
      exact hlowest hd
  | allocSpecified procFd =>
    have h1 : ¬ -EBADF = OK := by decide
    have h2 : ¬ -EBUSY = OK := by decide
    simp only at ha
    split at ha
    · rename_i hok
      obtain ⟨rfl,rfl,rfl⟩ : j = id ∧ none = m ∧ procFd.toNat = d := by simpa using ha
      refine ⟨by_contra fun hheld => ?_,fun t _ b hb => by cases hb⟩
      obtain ⟨hbit,hneg⟩ := (hslot procFd.toNat).2 hheld
      simp only [TableCall.run, FdState.allocSpecifiedProcessFd, hf] at hok
      split at hok
      · exact h1 hok
      · rw [if_neg (not_le.mpr hneg)] at hok
        exact h2 hok
    · cases ha
  | associate procFd sysFd => cases ha
  | disassociate procFd => cases ha
  | free procFd => cases ha

end

end LiteOsKernel.Fs
