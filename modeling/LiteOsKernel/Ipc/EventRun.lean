import LiteOsKernel.Ipc.Event
import LiteOsKernel.Lib.Run

/-! Event flags along any run: no task waits for flags that are there, and a reader that waits forever returns with flags. -/
namespace LiteOsKernel.Ipc.Event

/-- The condition of a reader: one flag of the mask is there, or all of them are. -/
def Satisfied (eventMask mode eventID : BitVec 32) : Prop :=
  if mode &&& LOS_WAITMODE_OR ≠ 0 then eventID &&& eventMask ≠ 0 else eventID &&& eventMask = eventMask

instance (eventMask mode eventID : BitVec 32) : Decidable (Satisfied eventMask mode eventID) :=
  inferInstanceAs (Decidable (if mode &&& LOS_WAITMODE_OR ≠ 0 then eventID &&& eventMask ≠ 0 else eventID &&& eventMask = eventMask))

/-- A call of LOS_EventRead that returned, with the flags before and after its last look at them. -/
structure Read where
  eventMask : BitVec 32
  mode : BitVec 32
  timeout : Nat
  before : BitVec 32
  after : BitVec 32
  ret : EventRet
  deriving DecidableEq

/-- The event with the reads that have returned. -/
structure EventHist where
  st : EventState
  reads : List Read

inductive EventCall where
  | read (ptr : Bool) (ctx : PendContext) (task : Nat) (eventMask mode : BitVec 32) (timeout : Nat)
  | write (ptr : Bool) (events : BitVec 32)
  | clear (ptr : Bool) (eventMask : BitVec 32)
  | expire (w : EventWaiter) (ops : SchedOps)
  | resume (r : Resumed)

/-- The flags that a poll takes away. -/
def polled (eventID eventMask mode : BitVec 32) : BitVec 32 :=
  if mode &&& LOS_WAITMODE_CLR ≠ 0 then (osEventPoll eventID eventMask mode).2 else 0

namespace EventCall

def run (x : EventHist) : EventCall → EventHist
  | read ptr ctx task eventMask mode timeout =>
    match losEventRead x.st ptr ctx task eventMask mode timeout with
    | (st,some ret) => ⟨st,x.reads ++ [⟨eventMask,mode,timeout,x.st.uwEventID,st.uwEventID,ret⟩]⟩
    | (st,none) => { x with st := st }
  | write ptr events => { x with st := (losEventWrite x.st ptr events).1 }
  | clear ptr eventMask => { x with st := (losEventClear x.st ptr eventMask).1 }
  | expire w ops => { x with st := eventTimeout x.st w ops }
  | resume r =>
    let (st,ret) := eventReturn x.st r
    ⟨st,x.reads ++ [⟨r.eventMask,r.eventMode,r.ticks,x.st.uwEventID,st.uwEventID,ret⟩]⟩

/-- A task that times out waits for a bounded time, and a task that returns was resumed. -/
def Pre (x : EventHist) : EventCall → Prop
  | expire w _ => w ∈ x.st.stEventList ∧ w.ticks ≠ LOS_WAIT_FOREVER
  | resume r => r ∈ x.st.resumed
  | read .. | write .. | clear .. => True

instance (x : EventHist) (r : Resumed) : Decidable ((resume r).Pre x) := inferInstanceAs (Decidable (_ ∈ _))

/-- The flags that a call takes away. -/
def taken (s : EventState) : EventCall → BitVec 32
  | read ptr ctx _ eventMask mode _ =>
    if osEventReadCheck ptr ctx eventMask mode = none then polled s.uwEventID eventMask mode else 0
  | clear ptr eventMask => if ptr then ~~~eventMask else 0
  | resume r => if r.timeout then 0 else polled s.uwEventID r.eventMask r.eventMode
  | write .. | expire .. => 0

/-- The resumed tasks but the one that the call is about. -/
def others (s : EventState) : EventCall → List Resumed
  | resume r => s.resumed.erase r
  | read .. | write .. | clear .. | expire .. => s.resumed

/-- The condition: no call takes away the flags of another reader that waited forever, was woken and has not run since. -/
def Ok (x : EventHist) (c : EventCall) : Prop :=
  ∀ r ∈ c.others x.st, r.ticks = LOS_WAIT_FOREVER → Satisfied r.eventMask r.eventMode (x.st.uwEventID &&& ~~~c.taken x.st)

instance (x : EventHist) (c : EventCall) : Decidable (c.Ok x) := inferInstanceAs (Decidable (∀ r ∈ _, _))

end EventCall

/-- An event and its users. -/
@[reducible] def eventSystem : Run.System EventHist EventCall where
  init x := x = ⟨losEventInit,[]⟩
  pre x c := c.Pre x
  run x c := c.run x

abbrev EventReachable (ok : EventHist → EventCall → Prop) : EventHist → Prop := Run.Reachable eventSystem ok

/-- The flags that a reader gets are those of its mask that were there, and one that clears takes away these and no others. -/
def Read.Exact (d : Read) : Prop :=
  ∀ ret, d.ret = .ok ret → (ret ≠ 0 → Satisfied d.eventMask d.mode d.before ∧ ret = d.before &&& d.eventMask) ∧
    d.after = if d.mode &&& LOS_WAITMODE_CLR ≠ 0 then d.before &&& ~~~ret else d.before

/-- A reader that waits forever does not time out, and does not return without flags. -/
def Read.Served (d : Read) : Prop :=
  d.timeout = LOS_WAIT_FOREVER → d.ret ≠ .error .readTimeout ∧ d.ret ≠ .ok 0

structure EventLaw (x : EventHist) : Prop where
  blocked : ∀ w ∈ x.st.stEventList, ¬ Satisfied w.eventMask w.eventMode x.st.uwEventID
  exact : ∀ d ∈ x.reads, d.Exact
  served : ∀ d ∈ x.reads, d.Served

variable {x : EventHist} {s : EventState} {eventMask mode eventID events m : BitVec 32} {w : EventWaiter} {ws : List EventWaiter}
  {r : Resumed}

/-- The parameters that OsEventParamCheck lets pass. -/
structure Valid (eventMask mode : BitVec 32) : Prop where
  mask : eventMask ≠ 0
  either : mode &&& LOS_WAITMODE_AND ≠ 0 ↔ mode &&& LOS_WAITMODE_OR = 0

structure EventInv (x : EventHist) : Prop where
  law : EventLaw x
  valid : ∀ w ∈ x.st.stEventList, Valid w.eventMask w.eventMode
  resumed : ∀ r ∈ x.st.resumed, Valid r.eventMask r.eventMode
  woken : ∀ r ∈ x.st.resumed, r.ticks = LOS_WAIT_FOREVER → r.timeout = false ∧ Satisfied r.eventMask r.eventMode x.st.uwEventID

private theorem osEventReadCheck_valid {ptr : Bool} {ctx : PendContext} (h : osEventReadCheck ptr ctx eventMask mode = none) :
    Valid eventMask mode := by
  have hc : osEventParamCheck ptr eventMask mode = none := by
    rw [osEventReadCheck] at h
    cases hp : osEventParamCheck ptr eventMask mode with
    | none => rfl
    | some err => rw [hp] at h; exact h
  rw [osEventParamCheck] at hc
  split_ifs at hc with h1 h2 h3 h4
  simp only [not_or, not_and, not_not] at h4
  refine ⟨h2,fun ha => ?_,fun ho ha => ?_⟩
  · by_contra ho
    exact ha (h4.1 ho)
  · apply h4.2.2
    have hd : mode &&& (LOS_WAITMODE_OR ||| LOS_WAITMODE_AND) = mode &&& LOS_WAITMODE_OR ||| mode &&& LOS_WAITMODE_AND :=
      BitVec.and_or_distrib_left ..
    rw [hd, ho, ha]
    rfl

/-- A poll returns the flags of the mask when the condition holds, and none otherwise. -/
private theorem osEventPoll_ret (hm : eventMask ≠ 0) :
    (osEventPoll eventID eventMask mode).2 = if Satisfied eventMask mode eventID then eventID &&& eventMask else 0 := by
  rw [osEventPoll]
  simp only [Satisfied]
  split_ifs with h1 h2 h3 h4 h5
  · rfl
  · rfl
  · rfl
  · exact absurd h3.2.symm h4
  · exact absurd ⟨hm,h5.symm⟩ h3
  · rfl

private theorem osEventPoll_ne_zero (hm : eventMask ≠ 0) :
    (osEventPoll eventID eventMask mode).2 ≠ 0 ↔ Satisfied eventMask mode eventID := by
  rw [osEventPoll_ret hm]
  split_ifs with h
  · refine ⟨fun _ => h,fun _ => ?_⟩
    rw [Satisfied] at h
    split_ifs at h
    · exact h
    · rw [h]; exact hm
  · exact ⟨fun hn => absurd rfl hn,fun hs => absurd hs h⟩

private theorem and_not_zero (v : BitVec 32) : v &&& ~~~0 = v := BitVec.and_allOnes

private theorem osEventPoll_eventID : (osEventPoll eventID eventMask mode).1 = eventID &&& ~~~polled eventID eventMask mode := by
  have hp : (osEventPoll eventID eventMask mode).1 =
      if (osEventPoll eventID eventMask mode).2 ≠ 0 ∧ mode &&& LOS_WAITMODE_CLR ≠ 0 then
        eventID &&& ~~~(osEventPoll eventID eventMask mode).2 else eventID := rfl
  rw [hp, polled]
  split_ifs with h1 h2 h3
  · rfl
  · exact absurd h1.2 h2
  · have hz : (osEventPoll eventID eventMask mode).2 = 0 := by
      by_contra hz
      exact h1 ⟨hz,h3⟩
    rw [hz, and_not_zero]
  · rw [and_not_zero]

private theorem satisfied_or (h : Satisfied eventMask mode eventID) : Satisfied eventMask mode (eventID ||| events) := by
  have hd : (eventID ||| events) &&& eventMask = eventID &&& eventMask ||| events &&& eventMask := BitVec.and_or_distrib_right ..
  rw [Satisfied] at h ⊢
  rw [hd]
  split_ifs at h ⊢
  · intro hz
    exact h (BitVec.or_eq_zero_iff.mp hz).1
  · rw [h]
    ext i
    simp +contextual

private theorem not_satisfied_and (h : ¬ Satisfied eventMask mode eventID) : ¬ Satisfied eventMask mode (eventID &&& m) := by
  intro hs
  apply h
  rw [Satisfied] at hs ⊢
  split_ifs at hs ⊢
  · intro hz
    apply hs
    rw [BitVec.and_assoc, BitVec.and_comm m, ← BitVec.and_assoc, hz]
    exact BitVec.zero_and
  · have : eventID &&& eventMask = eventID &&& (eventID &&& m &&& eventMask) := by rw [hs]
    rw [this, ← BitVec.and_assoc, ← BitVec.and_assoc, BitVec.and_self]
    exact hs

/-- A writer wakes exactly the tasks whose condition its flags make true. -/
private theorem osEventResume_iff (hv : Valid w.eventMask w.eventMode) (hn : ¬ Satisfied w.eventMask w.eventMode eventID) :
    osEventResume w (eventID ||| events) events = true ↔ Satisfied w.eventMask w.eventMode (eventID ||| events) := by
  have hd : (eventID ||| events) &&& w.eventMask = eventID &&& w.eventMask ||| events &&& w.eventMask :=
    BitVec.and_or_distrib_right ..
  rw [Satisfied] at hn ⊢
  rw [osEventResume]
  by_cases ho : w.eventMode &&& LOS_WAITMODE_OR = 0
  · have ha := hv.either.mpr ho
    simp only [ho, ha, ne_eq, not_true_eq_false, decide_false, Bool.false_and, Bool.false_or, not_false_eq_true, decide_true,
      Bool.true_and, decide_eq_true_eq, if_false]
    rw [BitVec.and_comm]
  · have ha : w.eventMode &&& LOS_WAITMODE_AND = 0 := by
      by_contra ha
      exact ho (hv.either.mp ha)
    simp only [ho, ne_eq, not_false_eq_true, if_true, not_not] at hn
    simp only [ho, ha, ne_eq, not_false_eq_true, decide_true, Bool.true_and, not_true_eq_false, decide_false, Bool.false_and,
      Bool.or_false, decide_not, Bool.not_eq_true', decide_eq_false_iff_not, if_true, hd, hn]
    rw [BitVec.and_comm, show 0 ||| events &&& w.eventMask = events &&& w.eventMask from BitVec.zero_or]

private theorem writeLoop_stay (h : w ∈ (writeLoop eventID events false ws).1) : w ∈ ws ∧ osEventResume w eventID events = false := by
  induction ws with
  | nil => cases h
  | cons v ws ih =>
    rw [writeLoop] at h
    simp only [Bool.false_eq_true, if_false] at h
    split_ifs at h with hv
    · exact ⟨List.mem_cons_of_mem v (ih h).1,(ih h).2⟩
    · rcases List.mem_cons.mp h with rfl | h
      · exact ⟨List.mem_cons_self,Bool.not_eq_true _ ▸ hv⟩
      · exact ⟨List.mem_cons_of_mem v (ih h).1,(ih h).2⟩

private theorem writeLoop_woken (h : w ∈ (writeLoop eventID events false ws).2) : w ∈ ws ∧ osEventResume w eventID events = true := by
  induction ws with
  | nil => cases h
  | cons v ws ih =>
    rw [writeLoop] at h
    simp only [Bool.false_eq_true, if_false] at h
    split_ifs at h with hv
    · rcases List.mem_cons.mp h with rfl | h
      · exact ⟨List.mem_cons_self,hv⟩
      · exact ⟨List.mem_cons_of_mem v (ih h).1,(ih h).2⟩
    · exact ⟨List.mem_cons_of_mem v (ih h).1,(ih h).2⟩

private theorem osEventReadCheck_ne_timeout {ptr : Bool} {ctx : PendContext} :
    osEventReadCheck ptr ctx eventMask mode ≠ some .readTimeout := by
  rw [osEventReadCheck, osEventParamCheck]
  split_ifs <;> simp

/-- What LOS_EventRead does: it returns an error, it returns what the poll has found, or the task waits. -/
private theorem losEventRead_cases (s : EventState) (ptr : Bool) (ctx : PendContext) (task : Nat) (eventMask mode : BitVec 32) (timeout : Nat) :
    (∃ err, err ≠ .readTimeout ∧ losEventRead s ptr ctx task eventMask mode timeout = (s,some (.error err))) ∨
    (osEventReadCheck ptr ctx eventMask mode = none ∧ (timeout = LOS_WAIT_FOREVER → (osEventPoll s.uwEventID eventMask mode).2 ≠ 0) ∧
      losEventRead s ptr ctx task eventMask mode timeout =
        ({ s with uwEventID := (osEventPoll s.uwEventID eventMask mode).1 },some (.ok (osEventPoll s.uwEventID eventMask mode).2))) ∨
    (osEventReadCheck ptr ctx eventMask mode = none ∧ (osEventPoll s.uwEventID eventMask mode).2 = 0 ∧
      losEventRead s ptr ctx task eventMask mode timeout =
        ({ s with stEventList := s.stEventList ++ [⟨⟨task,timeout⟩,eventMask,mode⟩] },none)) := by
  rw [losEventRead, osEventRead]
  cases hc : osEventReadCheck ptr ctx eventMask mode with
  | some err => exact .inl ⟨err,fun he => osEventReadCheck_ne_timeout (he ▸ hc),rfl⟩
  | none =>
    simp only [osEventReadImp, if_true]
    by_cases hz : (osEventPoll s.uwEventID eventMask mode).2 = 0
    · have hs : (osEventPoll s.uwEventID eventMask mode).1 = s.uwEventID := by
        rw [osEventPoll_eventID, polled, hz, ite_self, and_not_zero]
      rw [if_neg (not_not.mpr hz), hs]
      split_ifs with ht hl
      · refine .inr (.inl ⟨trivial,fun hf => ?_,rfl⟩)
        rw [ht] at hf
        exact absurd hf (by decide)
      · exact .inl ⟨.readInLock,by decide,rfl⟩
      · exact .inr (.inr ⟨trivial,hz,rfl⟩)
    · rw [if_pos hz]
      exact .inr (.inl ⟨trivial,fun _ => hz,rfl⟩)

private theorem read_exact (hm : eventMask ≠ 0) (timeout : Nat) :
    Read.Exact ⟨eventMask,mode,timeout,eventID,(osEventPoll eventID eventMask mode).1,.ok (osEventPoll eventID eventMask mode).2⟩ := by
  rintro ret ⟨rfl⟩
  refine ⟨fun hne => ?_,?_⟩
  · have hs := (osEventPoll_ne_zero hm).mp hne
    exact ⟨hs,by rw [osEventPoll_ret hm, if_pos hs]⟩
  · rw [osEventPoll_eventID, polled]
    split_ifs
    · rfl
    · exact and_not_zero eventID

/-- Flags are taken away, and readers return. -/
theorem EventInv.take (hx : EventInv x) {l : List Resumed} {reads : List Read} (hl : ∀ r ∈ l, r ∈ x.st.resumed)
    (hw : ∀ r ∈ l, r.ticks = LOS_WAIT_FOREVER → Satisfied r.eventMask r.eventMode (x.st.uwEventID &&& m))
    (hreads : ∀ d ∈ reads, d.Exact ∧ d.Served) : EventInv ⟨⟨x.st.uwEventID &&& m,x.st.stEventList,l⟩,reads⟩ where
  law := ⟨fun w h => not_satisfied_and (hx.law.blocked w h),fun d h => (hreads d h).1,fun d h => (hreads d h).2⟩
  valid := hx.valid
  resumed r h := hx.resumed r (hl r h)
  woken r h ht := ⟨(hx.woken r (hl r h) ht).1,hw r h ht⟩

theorem EventInv.append (hx : EventInv x) {d : Read} (hd : d.Exact ∧ d.Served) : ∀ e ∈ x.reads ++ [d], e.Exact ∧ e.Served := by
  intro e he
  rcases List.mem_append.mp he with he | he
  · exact ⟨hx.law.exact e he,hx.law.served e he⟩
  · rw [List.mem_singleton.mp he]
    exact hd

theorem EventInv.keep (hx : EventInv x) (r : Resumed) (hr : r ∈ x.st.resumed) (ht : r.ticks = LOS_WAIT_FOREVER) :
    Satisfied r.eventMask r.eventMode (x.st.uwEventID &&& ~~~0) := by
  rw [and_not_zero]
  exact (hx.woken r hr ht).2

theorem EventInv.write (hx : EventInv x) (events : BitVec 32) : EventInv { x with st := osEventWriteUnsafe x.st events false } := by
  refine ⟨⟨fun w h => ?_,hx.law.exact,hx.law.served⟩,fun w h => hx.valid w (writeLoop_stay h).1,fun r h => ?_,fun r h ht => ?_⟩
  · obtain ⟨hw,hn⟩ := writeLoop_stay h
    intro hs
    have := (osEventResume_iff (hx.valid w hw) (hx.law.blocked w hw)).mpr hs
    rw [hn] at this
    exact absurd this Bool.false_ne_true
  · rcases List.mem_append.mp h with h | h
    · exact hx.resumed r h
    · obtain ⟨w,hw,rfl⟩ := List.mem_map.mp h
      exact hx.valid w (writeLoop_woken hw).1
  · rcases List.mem_append.mp h with h | h
    · exact ⟨(hx.woken r h ht).1,satisfied_or (hx.woken r h ht).2⟩
    · obtain ⟨w,hw,rfl⟩ := List.mem_map.mp h
      obtain ⟨hm,hr⟩ := writeLoop_woken hw
      exact ⟨rfl,(osEventResume_iff (hx.valid w hm) (hx.law.blocked w hm)).mp hr⟩

theorem EventInv.wait (hx : EventInv x) (hv : Valid eventMask mode) (hn : ¬ Satisfied eventMask mode x.st.uwEventID) (v : Waiter) :
    EventInv { x with st := { x.st with stEventList := x.st.stEventList ++ [⟨v,eventMask,mode⟩] } } := by
  refine ⟨⟨fun w h => ?_,hx.law.exact,hx.law.served⟩,fun w h => ?_,hx.resumed,hx.woken⟩
  · rcases List.mem_append.mp h with h | h
    · exact hx.law.blocked w h
    · rw [List.mem_singleton.mp h]
      exact hn
  · rcases List.mem_append.mp h with h | h
    · exact hx.valid w h
    · rw [List.mem_singleton.mp h]
      exact hv

theorem EventInv.expire (hx : EventInv x) (hw : w ∈ x.st.stEventList) (ht : w.ticks ≠ LOS_WAIT_FOREVER) (ops : SchedOps) :
    EventInv { x with st := eventTimeout x.st w ops } := by
  refine ⟨⟨fun v h => hx.law.blocked v (List.mem_of_mem_erase h),hx.law.exact,hx.law.served⟩,
    fun v h => hx.valid v (List.mem_of_mem_erase h),fun r h => ?_,fun r h hf => ?_⟩
  · rcases List.mem_append.mp h with h | h
    · exact hx.resumed r h
    · rw [List.mem_singleton.mp h]
      exact hx.valid w hw
  · rcases List.mem_append.mp h with h | h
    · exact hx.woken r h hf
    · rw [List.mem_singleton.mp h] at hf
      exact absurd hf ht

theorem EventCall.step_inv (c : EventCall) (hx : EventInv x) (hp : c.Pre x) (hok : c.Ok x) : EventInv (c.run x) := by
  cases c with
  | read ptr ctx task eventMask mode timeout =>
    rw [run]
    rcases losEventRead_cases x.st ptr ctx task eventMask mode timeout with ⟨err,he,h⟩ | ⟨hc,hf,h⟩ | ⟨hc,hz,h⟩
    all_goals rw [h]
    · have := hx.take (m := ~~~0) (fun _ hr => hr) hx.keep
        (hx.append (d := ⟨eventMask,mode,timeout,x.st.uwEventID,x.st.uwEventID,.error err⟩)
          ⟨nofun,fun _ => ⟨fun hc => he (Except.error.inj hc),nofun⟩⟩)
      rwa [and_not_zero] at this
    · have hv := osEventReadCheck_valid hc
      have hok' : ∀ r ∈ x.st.resumed, r.ticks = LOS_WAIT_FOREVER →
          Satisfied r.eventMask r.eventMode (x.st.uwEventID &&& ~~~polled x.st.uwEventID eventMask mode) := by
        intro r hr ht
        have := hok r hr ht
        rwa [taken, if_pos hc] at this
      have := hx.take (fun _ hr => hr) hok'
        (hx.append ⟨read_exact hv.mask timeout,fun ht => ⟨nofun,fun h0 => hf ht (Except.ok.inj h0)⟩⟩)
      rwa [← osEventPoll_eventID] at this
    · have hv := osEventReadCheck_valid hc
      exact hx.wait hv (fun hs => (osEventPoll_ne_zero hv.mask).mpr hs hz) ⟨task,timeout⟩
  | write ptr events =>
    rw [run, losEventWrite, osEventWrite]
    split_ifs
    · exact hx
    · exact hx
    · exact hx.write events
  | clear ptr eventMask =>
    rw [run, losEventClear]
    cases ptr with
    | false => exact hx
    | true =>
      refine hx.take (fun _ hr => hr) (fun r hr ht => ?_) fun d hd => ⟨hx.law.exact d hd,hx.law.served d hd⟩
      have := hok r hr ht
      rwa [taken, if_pos rfl, BitVec.not_not] at this
  | expire w ops => exact hx.expire hp.1 hp.2 ops
  | resume r =>
    have hv := hx.resumed r hp
    rw [run, eventReturn]
    cases hb : r.timeout with
    | true =>
      have hnf : r.ticks ≠ LOS_WAIT_FOREVER := fun hf => absurd (hb.symm.trans (hx.woken r hp hf).1) (by decide)
      have := hx.take (m := ~~~0) (fun _ hr => List.mem_of_mem_erase hr) (fun q hq => hx.keep q (List.mem_of_mem_erase hq))
        (hx.append (d := ⟨r.eventMask,r.eventMode,r.ticks,x.st.uwEventID,x.st.uwEventID,.error .readTimeout⟩)
          ⟨nofun,fun hf => absurd hf hnf⟩) (l := x.st.resumed.erase r)
      rwa [and_not_zero] at this
    | false =>
      have hok' : ∀ q ∈ x.st.resumed.erase r, q.ticks = LOS_WAIT_FOREVER →
          Satisfied q.eventMask q.eventMode (x.st.uwEventID &&& ~~~polled x.st.uwEventID r.eventMask r.eventMode) := by
        intro q hq ht
        have := hok q hq ht
        rwa [taken, hb] at this
      have := hx.take (fun _ hr => List.mem_of_mem_erase hr) hok'
        (hx.append ⟨read_exact hv.mask r.ticks,
          fun ht => ⟨nofun,fun h0 => (osEventPoll_ne_zero hv.mask).mpr (hx.woken r hp ht).2 (Except.ok.inj h0)⟩⟩)
      rwa [← osEventPoll_eventID] at this

theorem EventReachable.inv (h : EventReachable (fun x c => c.Ok x) x) : EventInv x := by
  refine Run.Reachable.invariant h ?_ fun x c hx hp hok => c.step_inv hx hp hok
  rintro x rfl
  exact ⟨⟨nofun,nofun,nofun⟩,nofun,nofun,nofun⟩

/-- No wake-up is missed and no reader that waits forever returns without flags, along every run in which the flags of a woken
reader stay until it runs. -/
theorem eventLaw_of_reachable (x : EventHist) (h : EventReachable (fun x c => c.Ok x) x) : EventLaw x := (EventReachable.inv h).law

/-- A task that may wait. -/
def readerContext : PendContext := ⟨false,false,true⟩

/-- A reader of either of two flags that clears what it gets. -/
def clearingReader (task : Nat) : EventWaiter := ⟨⟨task,LOS_WAIT_FOREVER⟩,3,LOS_WAITMODE_OR ||| LOS_WAITMODE_CLR⟩

def clearingRead (task : Nat) : EventCall :=
  .read true readerContext task 3 (LOS_WAITMODE_OR ||| LOS_WAITMODE_CLR) LOS_WAIT_FOREVER

/-- A reader of all of two other flags that clears what it gets. -/
def otherReader : EventWaiter := ⟨⟨2,LOS_WAIT_FOREVER⟩,12,LOS_WAITMODE_AND ||| LOS_WAITMODE_CLR⟩

/-- One reader waits for either of two flags and one for both of two others. A write wakes both, and each returns with its own. -/
theorem eventLaw_reader_woken : ∃ x, EventReachable (fun x c => c.Ok x) x ∧ x.st.uwEventID = 16 ∧
    x.reads.map Read.ret = [.ok 2,.ok 12] ∧ EventLaw x := by
  have h0 : EventReachable (fun x c => c.Ok x) ⟨losEventInit,[]⟩ := .init rfl
  have h1 : EventReachable (fun x c => c.Ok x) _ := .call h0 (clearingRead 1) trivial (by decide)
  have h2 : EventReachable (fun x c => c.Ok x) _ :=
    .call h1 (.read true readerContext 2 12 (LOS_WAITMODE_AND ||| LOS_WAITMODE_CLR) LOS_WAIT_FOREVER) trivial (by decide)
  have h3 : EventReachable (fun x c => c.Ok x) _ := .call h2 (.write true 30) trivial (by decide)
  have h4 : EventReachable (fun x c => c.Ok x) _ := .call h3 (.resume ⟨clearingReader 1,false⟩) (by decide +kernel) (by decide +kernel)
  have h5 : EventReachable (fun x c => c.Ok x) _ := .call h4 (.resume ⟨otherReader,false⟩) (by decide +kernel) (by decide +kernel)
  exact ⟨_,h5,by decide +kernel,by decide +kernel,eventLaw_of_reachable _ h5⟩

/-- Two readers wait for the same flag and are woken by one write: the first takes it, and the second returns with none. -/
theorem eventLaw_fails_two_readers : ¬ ∀ x, EventReachable (fun _ _ => True) x → EventLaw x := by
  intro hall
  have h0 : EventReachable (fun _ _ => True) ⟨losEventInit,[]⟩ := .init rfl
  have h1 : EventReachable (fun _ _ => True) _ := .call h0 (clearingRead 1) trivial trivial
  have h2 : EventReachable (fun _ _ => True) _ := .call h1 (clearingRead 2) trivial trivial
  have h3 : EventReachable (fun _ _ => True) _ := .call h2 (.write true 1) trivial trivial
  have h4 : EventReachable (fun _ _ => True) _ := .call h3 (.resume ⟨clearingReader 1,false⟩) (by decide +kernel) trivial
  have h5 : EventReachable (fun _ _ => True) _ := .call h4 (.resume ⟨clearingReader 2,false⟩) (by decide +kernel) trivial
  have hs := (hall _ h5).served ⟨3,LOS_WAITMODE_OR ||| LOS_WAITMODE_CLR,LOS_WAIT_FOREVER,0,0,.ok 0⟩ (by decide +kernel) rfl
  exact hs.2 rfl

end LiteOsKernel.Ipc.Event
