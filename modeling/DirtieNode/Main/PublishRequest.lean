import DirtieNode.Main.Readiness

/-!
# Publish requests

`update_state` takes a publish request by entering `MQTT_PUBLISH`, and the block behind it that
serves a dump request can still change the state. `request_kept_iff` says that this is the only way
in which a request is lost.
-/

namespace DirtieNode.Main

open CString Flashmem Logger State Transition Util

variable {σ : Type} {ops : StoreOps σ} {env : Env} {err : DtErr} {node node' : Node σ}
  {ctx ctx' : AppCtx}

/-! ## The next handler -/

/-- Whatever happens in between, the next step of the main program calls the handler of this
state. -/
def NextHandler (ops : StoreOps σ) (node : Node σ) (state : LoopState) : Prop :=
  ∀ trace node', Run (step ops) node trace node' → (∀ taken ∈ trace, taken.event.async) →
    node'.pc = .call ∧ node'.ram.ctx.loopState = state

/-- No event between two steps moves the loop. -/
theorem loopState_async {ram ram' : Ram} (h : AsyncChange ram ram') :
    ram'.ctx.loopState = ram.ctx.loopState := by
  cases h <;> rfl

/-- The next handler is that of the state when the loop is at a call. -/
theorem nextHandler_iff {state : LoopState} :
    NextHandler ops node state ↔ node.pc = .call ∧ node.ram.ctx.loopState = state := by
  constructor
  · intro h
    exact h [] node .refl (by simp)
  · intro hnode trace node' hrun hasync
    refine hrun.invariant_of_forall
      (fun node ↦ node.pc = .call ∧ node.ram.ctx.loopState = state) hasync hnode ?_
    intro before event after hbefore hstep hevent
    cases step_cases hstep with
    | async _ _ hram => exact ⟨hbefore.1, (loopState_async hram).trans hbefore.2⟩
    | call | writeSsid | writePassword | writeContract | update => exact absurd hevent id

/-! ## When a dump is due -/

/-- The dump block will find its flag: it is set, or the log message about a failed handler sets
it, because more than half of the slots in front are taken. -/
def DumpDue (env : Env) (err : DtErr) (logs : Logs) : Prop :=
  logs.dumpLogs = true ∨ err ≠ .ok ∧ (env.log 0).mallocOk = true ∧
    maxLogEntries / 2 < (logs.logdump.takeWhile Option.isSome).length

/-- The switch leaves the flag alone, in the states that the loop can be in. -/
theorem updateSwitch_flag {ram : Ram} (h : ram.ctx.loopState ≠ .loopStateCount) :
    (updateSwitch env ram).logs.dumpLogs = ram.logs.dumpLogs := by
  unfold updateSwitch
  dsimp only
  cases hstate : ram.ctx.loopState <;> dsimp only <;> repeat' split
  all_goals first | rfl | exact absurd hstate h

/-- The flag that the dump block finds is the one that is due. -/
theorem dumpFlag_iff {ram : Ram} (h : ram.ctx.loopState ≠ .loopStateCount) :
    dumpFlag env err ram = true ↔ DumpDue env err ram.logs := by
  rw [dumpFlag, updateSwitch_flag (by rwa [logError_ctx])]
  unfold logError DumpDue
  by_cases herr : err = .ok
  · simp [herr]
  · simpa [herr, Ram.dlog] using dlog_flag (env.log 0) .err _ ram.logs

/-! ## Requests -/

/-- A pending publish request is still pending after the step, or the next handler serves it. -/
def KeepsRequest (ops : StoreOps σ) (taken : Taken (Node σ) Event) : Prop :=
  taken.before.ram.ctx.setPublish = true →
    taken.after.ram.ctx.setPublish = true ∨ NextHandler ops taken.after .mqttPublish

/-- `update_state` does not find a request that it can serve together with a log dump. -/
def ServesOne (taken : Taken (Node σ) Event) : Prop :=
  ∀ env err, taken.event = .main env → taken.before.pc = .update err →
    taken.before.ram.ctx.reset = false → taken.before.ram.ctx.ready = true →
    taken.before.ram.ctx.setPublish = true → ¬ DumpDue env err taken.before.ram.logs

/-- Handlers leave the request alone. -/
theorem setPublish_handler (h : HandlerChange env ctx err ctx') :
    ctx'.setPublish = ctx.setPublish := by
  cases h <;> rfl

/-- No event between the steps of `main` takes a publish request. -/
theorem setPublish_async {ram ram' : Ram} (h : AsyncChange ram ram')
    (hset : ram.ctx.setPublish = true) : ram'.ctx.setPublish = true := by
  cases h with
  | tick => rfl
  | _ => exact hset

/-- A step keeps the request exactly when it does not serve it together with a dump. -/
theorem keepsRequest_step {event : Event} (h : Inv node)
    (hstep : step ops node event = some node') :
    KeepsRequest ops ⟨node, event, node'⟩ ↔ ServesOne ⟨node, event, node'⟩ := by
  unfold KeepsRequest ServesOne
  dsimp only
  cases step_cases hstep with
  | async hasync hevent hram =>
      refine iff_of_true (fun hset ↦ .inl (setPublish_async hram hset)) ?_
      rintro env err rfl
      exact absurd hasync id
  | call hcall _ _ _ hctx =>
      refine iff_of_true (fun hset ↦ .inl ((setPublish_handler hctx).trans hset)) ?_
      intro env err _ hpc
      simp [hcall] at hpc
  | writeSsid hcall _ hrun =>
      have hram := (writeStep_cases hrun).1
      refine iff_of_true (fun hset ↦ .inl (by rwa [hram])) ?_
      intro env err _ hpc
      simp [hcall] at hpc
  | writePassword hplace hrun =>
      have hram := (writeStep_cases hrun).1
      refine iff_of_true (fun hset ↦ .inl (by rwa [hram])) ?_
      intro env err _ hpc
      simp [hplace] at hpc
  | writeContract hplace hrun =>
      obtain ⟨err, _, _, _, hctx⟩ := writeContract_cases hrun
      refine iff_of_true (fun hset ↦ .inl ?_) ?_
      · rw [hctx]
        split <;> exact hset
      · intro env err _ hpc
        simp [hplace] at hpc
  | @update env err hpc hctx =>
      have hflag : dumpFlag env err node.ram = true ↔ DumpDue env err node.ram.logs :=
        dumpFlag_iff h.flags.below
      have hserves : (∀ env' err', Event.main env = Event.main env' → node.pc = .update err' →
          node.ram.ctx.reset = false → node.ram.ctx.ready = true →
          node.ram.ctx.setPublish = true → ¬ DumpDue env' err' node.ram.logs) ↔
          (node.ram.ctx.reset = false → node.ram.ctx.ready = true →
            node.ram.ctx.setPublish = true → ¬ DumpDue env err node.ram.logs) := by
        constructor
        · exact fun hall ↦ hall env err rfl hpc
        · rintro hone env' err' henv herr
          obtain rfl := Event.main.inj henv
          obtain rfl := Pc.update.inj (hpc.symm.trans herr)
          exact hone
      rw [hserves, nextHandler_iff, ← hflag]
      have hcall : (updateStep env err node).pc = .call := rfl
      generalize (updateStep env err node) = after at hctx hcall
      obtain ⟨⟨ctx, logs, sent⟩, store, hosting, pc⟩ := after
      dsimp only at hctx hcall ⊢
      cases hctx with
      | reset hreset => simp [hreset]
      | publish hreset hready hpublish hdump => simp [hcall, hdump]
      | dump hreset hready hdump => simp [hreset, hready, hdump]
      | switch hreset hidle =>
          rcases hidle with hready | ⟨hpublish, _⟩
          · exact iff_of_true .inl (by simp [hready])
          · simp [hpublish]

/-- A run keeps every publish request exactly when no `update_state` of it serves one together with
a log dump. -/
theorem request_kept_iff {hub : Hub} {store : σ} {trace : List (Taken (Node σ) Event)}
    (h : Run (step ops) (boot hub env store) trace node) :
    (∀ taken ∈ trace, KeepsRequest ops taken) ↔ ∀ taken ∈ trace, ServesOne taken := by
  refine forall₂_congr fun taken hmem ↦ ?_
  obtain ⟨hreach, hstep⟩ := h.of_mem hmem
  exact keepsRequest_step (inv_reachable hreach) hstep

/-- A tick in `MQTT_PUBLISH` is served by a second publication. -/
theorem request_kept_tick : ∃ (trace : List (Taken (Node Values) Event)) (node : Node Values),
    Run (step atomicStore) freshNode trace node ∧
      (∃ taken ∈ trace, taken.before.ram.ctx.setPublish = true) ∧
        ∀ taken ∈ trace, KeepsRequest atomicStore taken := by
  obtain ⟨trace, node, hrun, htest⟩ := exists_run_of_record (step atomicStore) freshNode
    (provisionEvents ++ connectEvents ++ .tick :: turn)
    (fun trace _ ↦ trace.any (fun taken ↦ taken.before.ram.ctx.setPublish) &&
      trace.all fun taken ↦ !taken.before.ram.logs.dumpLogs &&
        decide ((taken.before.ram.logs.logdump.takeWhile Option.isSome).length = 0))
    (by decide +kernel)
  simp only [Bool.and_eq_true, List.any_eq_true, List.all_eq_true, Bool.not_eq_true',
    decide_eq_true_eq] at htest
  refine ⟨trace, node, hrun, htest.1, (request_kept_iff hrun).mpr fun taken hmem ↦ ?_⟩
  obtain ⟨hflag, hfree⟩ := htest.2 taken hmem
  rintro env err _ _ _ _ _ (hdump | ⟨_, _, hfull⟩)
  · simp [hflag] at hdump
  · simp [hfree] at hfull

/-- A tick and a dump request in `MQTT_PUBLISH`: the request is taken, and logs are dumped. -/
theorem request_lost : ¬ ∀ (trace : List (Taken (Node Values) Event)) (node : Node Values),
    Run (step atomicStore) freshNode trace node →
      ∀ taken ∈ trace, KeepsRequest atomicStore taken := by
  intro hclaim
  obtain ⟨trace, node, hrun, htest⟩ := exists_run_of_record (step atomicStore) freshNode
    (provisionEvents ++ connectEvents ++ .tick :: .dumpRequest :: turn)
    (fun trace _ ↦ trace.any fun taken ↦ taken.before.ram.ctx.setPublish &&
      !taken.after.ram.ctx.setPublish && taken.after.ram.ctx.loopState == .logdump)
    (by decide +kernel)
  simp only [List.any_eq_true, Bool.and_eq_true, Bool.not_eq_true', beq_iff_eq] at htest
  obtain ⟨taken, hmem, ⟨hbefore, hafter⟩, hstate⟩ := htest
  rcases hclaim trace node hrun taken hmem hbefore with hkept | hnext
  · simp [hafter] at hkept
  · simpa [hstate] using (nextHandler_iff.mp hnext).2

end DirtieNode.Main
