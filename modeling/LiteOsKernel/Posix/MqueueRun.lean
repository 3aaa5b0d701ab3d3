import LiteOsKernel.Posix.MqueueSetup

/-! Message queues along any run of mq_open, MqueueRefer, mq_close and mq_unlink, by any processes: when a queue exists, what its
descriptors refer to, and what mq_open answers. -/
namespace LiteOsKernel.Posix.Mqueue

variable {st st' : MqState} {x : MqHist} {n : Name} {s a i : Nat}

theorem MqCall.step_inv (c : MqCall) (hx : MqInv x) (hp : c.Pre x) (hok : c.Ok x) : MqInv (c.run x) := by
  cases c with
  | openQueue mqName args => exact hx.openQueue mqName args hp hok
  | refer sysFd => exact hx.refer sysFd hok
  | close personal inUse => exact hx.close personal inUse hok
  | unlink mqName inUse => exact hx.unlink mqName inUse hok

theorem start_pool : PoolInv startMq := by
  have hfree : startMq.freeQueueList = List.range LOSCFG_BASE_IPC_QUEUE_LIMIT := by rw [startMq]
  refine ⟨?_,fun i hi => ?_,fun i hi => ?_,nofun,fun s _ => ⟨rfl,rfl,rfl⟩⟩
  · rw [hfree]
    exact List.nodup_range
  · rw [hfree, List.mem_range] at hi
    exact ⟨hi,rfl⟩
  · exact Nat.mod_eq_of_lt (Nat.lt_trans hi (by decide))

theorem start_inv : MqInv startHist := by
  refine ⟨start_pool,⟨nofun,nofun,nofun,nofun,nofun,nofun,List.nodup_nil,nofun,fun q hpos hle => ?_⟩,
    ⟨fun s => ?_,nofun,fun i _ => ⟨rfl,rfl⟩,nofun⟩,nofun⟩
  · have hzero : startHist.created = 0 := rfl
    omega
  · exact ⟨[],trivial,List.nodup_nil,fun a => ⟨nofun,fun ⟨i,hi,_⟩ => absurd hi nofun⟩⟩

/-- A queue exists as long as it is linked or open and is deleted once after that, and the descriptors refer to the queues that they were
opened on, along every run whose calls meet the condition. -/
theorem mqLaw_of_reachable (x : MqHist) (h : Run.Reachable mqSystem (fun x c => c.Ok x) x) : MqLaw x := by
  have hinv : MqInv x := h.invariant (by rintro x rfl; exact start_inv) fun x c hx hp hok => c.step_inv hx hp hok
  exact hinv.law

private theorem ok_create {name : Name} {args : OpenArgs} (hn : getMqueueCBByName x.st name = none) (hmem : args.nameMem = true)
    (hfree : x.st.freeQueueList.head? = some s) (hid : (x.st.allQueue s).queueID < 2^31) : (MqCall.openQueue (some name) args).Ok x := by
  refine fun _ => ⟨fun t h => absurd (hn.symm.trans h) nofun,fun _ _ attr _ st mqueueID h => ⟨hmem,?_⟩⟩
  rcases losQueueCreate_cases x.st attr.mqMaxmsg.toNat attr.mqMsgsize.toNat args.queueMem with ⟨e,hq,-⟩ | ⟨t,freeQueueList,hf,hq⟩
  · exact absurd (congrArg Prod.snd (hq.symm.trans h)) nofun
  · rw [hf] at hfree
    obtain rfl : t = s := Option.some.inj hfree
    obtain rfl := Except.ok.inj (congrArg Prod.snd (hq.symm.trans h))
    exact hid

private theorem ok_open {name : Name} {args : OpenArgs} (hn : getMqueueCBByName x.st name = some s)
    (hf : (x.st.queueTable s).unlinkflag = false) : (MqCall.openQueue (some name) args).Ok x := by
  refine fun _ => ⟨fun t h => ?_,fun _ h => absurd (hn.symm.trans h) nofun⟩
  rw [← Option.some.inj (hn.symm.trans h)]
  exact hf

private theorem ok_refer {sysFd : Int} (hb : mqGetPrivDataBuff x.st sysFd = some (some a)) (h : (x.st.node a).mqRefcount + 1 < 2^32) :
    (MqCall.refer sysFd).Ok x := by
  intro b hb'
  rw [← Option.some.inj (Option.some.inj (hb.symm.trans hb'))]
  exact h

private theorem ok_close {personal : Int} {inUse : Bool} (hb : mqGetPrivDataBuff x.st personal = some (some a))
    (h : (x.st.node a).mqRefcount = 0 → lastReference x.st (x.st.node a) = true →
      (x.st.queueTable (x.st.node a).mqPosixdes).mqPersonal = some a ∧ inUse = false) : (MqCall.close personal inUse).Ok x := by
  intro b hb'
  rw [← Option.some.inj (Option.some.inj (hb.symm.trans hb'))]
  exact h

private theorem ok_unlink {name : Name} (h : (x.st.queueTable s).mqPersonal ≠ none) (hn : getMqueueCBByName x.st name = some s) (inUse : Bool) :
    (MqCall.unlink (some name) inUse).Ok x := by
  intro t ht hnone
  rw [← Option.some.inj (hn.symm.trans ht)] at hnone
  exact absurd hnone h

/-- Root opens with O_CREAT and O_RDWR, and the node is at this address. -/
def openArgs (personal : Nat) : OpenArgs := ⟨0o102,0o600,.null,⟨0,0⟩,true,true,some personal,0⟩

/-- The name /a. -/
def queueName : Name := [47,97]

private theorem fresh_of_isNone {x : MqHist} {personal : Nat} (h : (x.st.heap personal).isNone = true) :
    (MqCall.openQueue (some queueName) (openArgs personal)).Pre x := by
  intro a ha
  obtain rfl : personal = a := Option.some.inj ha
  exact Option.isNone_iff_eq_none.mp h

/-- A queue is opened twice and unlinked, and the descriptors are closed in the other order, one of them with a reference more. -/
theorem mqLaw_closed : ∃ x, Run.Reachable mqSystem (fun x c => c.Ok x) x ∧ x.deletes = [1] ∧ x.created = 1 ∧ MqLaw x := by
  have h0 : Run.Reachable mqSystem (fun x c => c.Ok x) startHist := .init rfl
  have h1 : Run.Reachable mqSystem (fun x c => c.Ok x) _ := .call h0 (.openQueue (some queueName) (openArgs 1))
    (fresh_of_isNone (by decide +kernel)) (ok_create (s := 0) (by decide +kernel) rfl (by decide +kernel) (by decide +kernel))
  have h2 : Run.Reachable mqSystem (fun x c => c.Ok x) _ := .call h1 (.openQueue (some queueName) (openArgs 2))
    (fresh_of_isNone (by decide +kernel)) (ok_open (s := 0) (by decide +kernel) (by decide +kernel))
  have h3 : Run.Reachable mqSystem (fun x c => c.Ok x) _ := .call h2 (.refer 513) trivial
    (ok_refer (a := 2) (by decide +kernel) (by decide +kernel))
  have h4 : Run.Reachable mqSystem (fun x c => c.Ok x) _ := .call h3 (.unlink (some queueName) false) trivial
    (ok_unlink (s := 0) (by decide +kernel) (by decide +kernel) false)
  have h5 : Run.Reachable mqSystem (fun x c => c.Ok x) _ := .call h4 (.close 513 false) trivial
    (ok_close (a := 2) (by decide +kernel) (by decide +kernel))
  have h6 : Run.Reachable mqSystem (fun x c => c.Ok x) _ := .call h5 (.close 513 false) trivial
    (ok_close (a := 2) (by decide +kernel) (by decide +kernel))
  have h7 : Run.Reachable mqSystem (fun x c => c.Ok x) _ := .call h6 (.close 512 false) trivial
    (ok_close (a := 1) (by decide +kernel) (by decide +kernel))
  exact ⟨_,h7,by decide +kernel,by decide +kernel,mqLaw_of_reachable _ h7⟩

/-- A queue is opened twice and unlinked, and the descriptor that was opened first is closed first: the queue is deleted while the
other descriptor is open. -/
theorem mqLaw_fails_first_closed : ¬ ∀ x, Run.Reachable mqSystem (fun _ _ => True) x → MqLaw x := by
  intro hall
  have h0 : Run.Reachable mqSystem (fun _ _ => True) startHist := .init rfl
  have h1 : Run.Reachable mqSystem (fun _ _ => True) _ := .call h0 (.openQueue (some queueName) (openArgs 1))
    (fresh_of_isNone (by decide +kernel)) trivial
  have h2 : Run.Reachable mqSystem (fun _ _ => True) _ := .call h1 (.openQueue (some queueName) (openArgs 2))
    (fresh_of_isNone (by decide +kernel)) trivial
  have h3 : Run.Reachable mqSystem (fun _ _ => True) _ := .call h2 (.unlink (some queueName) false) trivial trivial
  have h4 : Run.Reachable mqSystem (fun _ _ => True) _ := .call h3 (.close 512 false) trivial trivial
  have hlaw := hall _ h4
  have hexists := (hlaw.lifetime 1).mpr (.inr ⟨1,⟨1,0⟩,by decide +kernel,rfl⟩)
  exact absurd ((hlaw.once 1 (by decide) (by decide +kernel)).1 hexists) (by decide +kernel)

end LiteOsKernel.Posix.Mqueue
