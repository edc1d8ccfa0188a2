import DirtieNode.Main.Publications

/-!
# The working cycle

From `MQTT_PUBLISH` on the loop goes round five states, and a request moves it out of turn: a
publish request to `MQTT_PUBLISH`, a dump request to `LOGDUMP`. What a dump request can count on,
and how long requests can keep one handler of the cycle from being called.
-/

namespace DirtieNode.Main

open CString Flashmem Logger State Transition Util

variable {σ : Type} {ops : StoreOps σ} {env : Env} {err : DtErr} {node node' : Node σ}
  {ram ram' : Ram} {event : Event} {trace : List (Taken (Node σ) Event)} {target : LoopState}

/-- The step ends a turn of the loop. -/
def turns (taken : Taken (Node σ) Event) : Bool :=
  match taken.event, taken.before.pc with
  | .main _, .update _ => true
  | _, _ => false

/-! ## Dump requests -/

/-- A log message sets the flag or leaves it. -/
theorem dlog_dumpLogs (env : LogEnv) (lvl : LogLvl) (mesg : List UInt8) {logs : Logs}
    (h : logs.dumpLogs = true) : (dlog env lvl mesg logs).2.dumpLogs = true :=
  (dlog_flag env lvl mesg logs).mpr (.inl h)

/-- `mqtt_init_handler` does not take the request. -/
theorem mqttInitHandler_dumpLogs (h : ram.logs.dumpLogs = true) :
    (Connect.mqttInitHandler env ram).2.logs.dumpLogs = true := by
  unfold Connect.mqttInitHandler
  split
  · exact dlog_dumpLogs _ _ _ h
  · have hconnecting := dlog_dumpLogs (env.log 0) .info
      (lit "connecting to " ++ ram.ctx.text.str wifiSsid ++ lit "\n") h
    dsimp only
    split
    · exact dlog_dumpLogs _ _ _ hconnecting
    · have hconnected := dlog_dumpLogs (env.log 1) .info (lit "Connected.\n") hconnecting
      split
      · exact hconnected
      · split
        · exact dlog_dumpLogs _ _ _ hconnected
        · split
          · exact dlog_dumpLogs _ _ _ hconnected
          · generalize hprov : Connect.provisionToken env _ = prov
            have hlogs := (congrArg (fun result ↦ result.2.logs) hprov).symm.trans
              provisionToken_logs
            have hprovisioned : prov.2.logs.dumpLogs = true := by
              rw [hlogs]
              exact hconnected
            split
            · exact dlog_dumpLogs _ _ _ hprovisioned
            · exact hprovisioned

/-- `logdump_handler` does not look at the request. -/
theorem logdumpHandler_dumpLogs :
    (Connect.logdumpHandler env ram).2.logs.dumpLogs = ram.logs.dumpLogs := by
  have hdump : (Connect.logdump env ram).2.logs.dumpLogs = ram.logs.dumpLogs := by
    unfold Connect.logdump
    split
    · rfl
    · split
      · rfl
      · split
        · split
          · rfl
          · rw [publish_logs]
            rfl
        · rfl
  unfold Connect.logdumpHandler
  split
  · exact hdump
  · rfl

/-- No handler takes a dump request. -/
theorem ramHandler_dumpLogs {state : LoopState} (h : ram.logs.dumpLogs = true)
    (hrun : ramHandler env ram state = some (err, ram')) : ram'.logs.dumpLogs = true := by
  cases state <;> simp only [ramHandler, Option.some.injEq, reduceCtorEq] at hrun
  case mqttInit =>
    rw [← congrArg (fun result ↦ result.2.logs.dumpLogs) hrun]
    exact mqttInitHandler_dumpLogs h
  case senseInit =>
    unfold Sensor.senseInitHandler at hrun
    dsimp only at hrun
    split at hrun <;> obtain ⟨rfl, rfl⟩ := Prod.mk.inj hrun <;> exact h
  case ntpSync =>
    unfold ntpSyncHandler at hrun
    split at hrun <;> obtain ⟨rfl, rfl⟩ := Prod.mk.inj hrun
    · exact dlog_dumpLogs _ _ _ h
    · exact h
  case mqttPublish =>
    rw [← congrArg (fun result ↦ result.2.logs.dumpLogs) hrun]
    show (Connect.breadcrumb env ram).2.logs.dumpLogs = true
    rwa [breadcrumb_logs]
  case logdump =>
    rw [← congrArg (fun result ↦ result.2.logs.dumpLogs) hrun]
    exact logdumpHandler_dumpLogs.trans h
  case senseListen | mqttListen | battListen | throttle =>
    obtain ⟨rfl, rfl⟩ := Prod.mk.inj hrun
    exact h

/-- `update_state` takes the request when all flags are set and there is no reset. -/
theorem updateBlocks_dumpLogs (ram : Ram) :
    (updateDump (updatePublish (updateReset ram))).logs.dumpLogs =
      (ram.logs.dumpLogs && !(ram.ctx.ready && !ram.ctx.reset)) := by
  cases hreset : ram.ctx.reset with
  | true =>
      simp [updateReset, hreset, updatePublish, updateDump, AppCtx.ready]
  | false =>
      have hready : (updatePublish ram).ctx.ready = ram.ctx.ready := by
        unfold updatePublish
        split <;> rfl
      have hlogs : (updatePublish ram).logs = ram.logs := by
        unfold updatePublish
        split <;> rfl
      rw [updateReset_idle hreset, updateDump, hready, hlogs]
      cases hdump : ram.logs.dumpLogs <;> cases ram.ctx.ready <;> simp [hlogs, hdump]

/-- A turn of a node that is ready takes the request, if there is no reset. -/
theorem updateStep_dumpLogs :
    (updateStep env err node).ram.logs.dumpLogs = (dumpFlag env err node.ram &&
      !(node.ram.ctx.ready && !node.ram.ctx.reset)) := by
  have hctx : (updateSwitch env (logError env err node.ram)).ctx =
      { node.ram.ctx with loopState := switchTarget node.ram.ctx } := by
    rw [updateSwitch_ctx, logError_ctx]
  show (updateDump (updatePublish (updateReset
    (updateSwitch env (logError env err node.ram))))).logs.dumpLogs = _
  rw [updateBlocks_dumpLogs, hctx]
  rfl

/-- The step takes the dump request, and the next handler serves it. -/
structure ServesDump (ops : StoreOps σ) (taken : Taken (Node σ) Event) : Prop where
  turn : turns taken = true
  requested : taken.before.ram.ctx.reset = false ∧ taken.before.ram.ctx.ready = true
  cleared : taken.after.ram.logs.dumpLogs = false
  next : NextHandler ops taken.after .logdump

/-- A step keeps the request and does not end a turn in which it could be taken, or it serves it. -/
theorem dumpLogs_step (hinv : Inv node) (h : step ops node event = some node')
    (hdump : node.ram.logs.dumpLogs = true) :
    ServesDump ops ⟨node, event, node'⟩ ∨ node'.ram.logs.dumpLogs = true ∧
      (turns ⟨node, event, node'⟩ = true →
        node.ram.ctx.ready = false ∨ node.ram.ctx.reset = true) := by
  have hidle : (∀ err, node.pc ≠ .update err) ∨ event.async →
      turns ⟨node, event, node'⟩ = false := by
    intro hplace
    unfold turns
    split
    · rename_i hevent hpc
      dsimp only at hevent
      exact hplace.elim (fun hother ↦ absurd hpc (hother _)) fun hasync ↦ by
        rw [hevent] at hasync
        exact hasync.elim
    · rfl
  have hkept : (∀ err, node.pc ≠ .update err) ∨ event.async → node'.ram.logs.dumpLogs = true →
      node'.ram.logs.dumpLogs = true ∧ (turns ⟨node, event, node'⟩ = true →
        node.ram.ctx.ready = false ∨ node.ram.ctx.reset = true) :=
    fun hplace hpending ↦ ⟨hpending, fun hturn ↦ absurd hturn (by simp [hidle hplace])⟩
  cases step_cases h with
  | async hasync _ hram =>
      refine .inr (hkept (.inr hasync) ?_)
      cases hram <;> first | exact hdump | rfl
  | call hcall hstate hrun =>
      refine .inr (hkept (.inl (by simp [hcall])) ?_)
      cases handlerCall hrun with
      | flashInit | wifiConfig => exact hdump
      | flashWrite hwrite => exact absurd hwrite hstate
      | ram hhandler => exact ramHandler_dumpLogs hdump hhandler
  | writeSsid hpc _ hrun | writePassword hpc hrun =>
      refine .inr (hkept (.inl (by simp [hpc])) ?_)
      rw [(writeStep_cases hrun).1]
      exact hdump
  | writeContract hpc hrun =>
      refine .inr (hkept (.inl (by simp [hpc])) ?_)
      obtain ⟨_, _, _, hlogs, _⟩ := writeContract_cases hrun
      rw [hlogs]
      exact hdump
  | @update env err hpc hctx =>
      have hflag : dumpFlag env err node.ram = true :=
        (dumpFlag_iff hinv.flags.below).mpr (.inl hdump)
      have hafter : (updateStep env err node).ram.logs.dumpLogs =
          !(node.ram.ctx.ready && !node.ram.ctx.reset) := by
        rw [updateStep_dumpLogs, hflag, Bool.true_and]
      have hturn : turns ⟨node, .main env, updateStep env err node⟩ = true := by
        simp only [turns, hpc]
      generalize hctx' : (updateStep env err node).ram.ctx = ctx at hctx
      cases hctx with
      | reset hreset => exact .inr ⟨by simp [hafter, hreset], fun _ ↦ .inr hreset⟩
      | publish _ _ _ hnone => exact absurd hflag (by simp [hnone])
      | dump hreset hready =>
          refine .inl ⟨hturn, ⟨hreset, hready⟩, by simp [hafter, hreset, hready],
            nextHandler_iff.mpr ⟨rfl, ?_⟩⟩
          show (updateStep env err node).ram.ctx.loopState = .logdump
          rw [hctx']
      | switch hreset hother =>
          have hready : node.ram.ctx.ready = false := hother.elim id fun hnone ↦ by
            exact absurd hflag (by simp [hnone.2])
          exact .inr ⟨by simp [hafter, hready], fun _ ↦ .inl hready⟩

/-- From any state that the node can reach, a dump request stays pending, through resets too, until
a turn ends with all flags set and no reset, and that turn makes `logdump_handler` the next one. -/
theorem dump_request_served {hub : Hub} {store : σ}
    (h : Reachable (step ops) (boot hub env store) node) (hdump : node.ram.logs.dumpLogs = true)
    (hrun : Run (step ops) node trace node') :
    (∃ taken ∈ trace, ServesDump ops taken) ∨ node'.ram.logs.dumpLogs = true ∧
      ∀ taken ∈ trace, turns taken = true →
        taken.before.ram.ctx.ready = false ∨ taken.before.ram.ctx.reset = true := by
  have hboth : Inv node' ∧ ((∃ taken ∈ trace, ServesDump ops taken) ∨
      node'.ram.logs.dumpLogs = true ∧ ∀ taken ∈ trace, turns taken = true →
        taken.before.ram.ctx.ready = false ∨ taken.before.ram.ctx.reset = true) := by
    induction hrun with
    | refl => exact ⟨inv_reachable h, .inr ⟨hdump, fun _ hmem ↦ absurd hmem (by simp)⟩⟩
    | step _ hlast ih =>
        obtain ⟨hinv, hserved | ⟨hpending, hturns⟩⟩ := ih
        · obtain ⟨taken, hmem, hserves⟩ := hserved
          exact ⟨inv_step hinv hlast, .inl ⟨taken, List.mem_cons_of_mem _ hmem, hserves⟩⟩
        · refine ⟨inv_step hinv hlast, ?_⟩
          rcases dumpLogs_step hinv hlast hpending with hserves | ⟨hkept, hturn⟩
          · exact .inl ⟨_, List.mem_cons_self, hserves⟩
          · refine .inr ⟨hkept, fun taken hmem ↦ ?_⟩
            rcases List.mem_cons.mp hmem with rfl | hold
            · exact hturn
            · exact hturns taken hold
  exact hboth.2

/-- The request comes before the first measurement. -/
theorem dump_request_served_first : ∃ (trace : List (Taken (Node Values) Event))
    (node node' : Node Values), node.ram.logs.dumpLogs = true ∧
      Run (step atomicStore) node trace node' ∧ trace.countP turns = 1 ∧
      ((∃ taken ∈ trace, ServesDump atomicStore taken) ∨ node'.ram.logs.dumpLogs = true ∧
        ∀ taken ∈ trace, turns taken = true →
          taken.before.ram.ctx.ready = false ∨ taken.before.ram.ctx.reset = true) := by
  obtain ⟨older, node, hbefore, htest⟩ := exists_run_of_record (step atomicStore) freshNode
    (provisionEvents ++ connectEvents ++ [.dumpRequest])
    (fun _ (node : Node Values) ↦ node.ram.logs.dumpLogs &&
      ((record (step atomicStore) node turn).map fun run ↦ run.1.countP turns == 1) == some true)
    (by decide +kernel)
  obtain ⟨hdump, hrecord⟩ := Bool.and_eq_true_iff.mp htest
  obtain ⟨trace, node', hrun, hturns⟩ := exists_run_of_record (step atomicStore) node turn
    (fun trace _ ↦ trace.countP turns == 1) (beq_iff_eq.mp hrecord)
  exact ⟨trace, node, node', hdump, hrun, beq_iff_eq.mp hturns,
    dump_request_served ⟨older, hbefore⟩ hdump hrun⟩

/-! ## The cycle -/

/-- The states from `MQTT_PUBLISH` on. -/
def working (state : LoopState) : Bool :=
  decide (LoopState.mqttPublish.toNat ≤ state.toNat ∧ state.toNat ≤ LoopState.throttle.toNat)

/-- The turns until the handler of a state of the cycle is called, when no request comes. The cycle
has five states, and `MQTT_PUBLISH` is in front of it. -/
def turnsTo (target state : LoopState) : Nat :=
  if state = .mqttPublish then target.toNat - state.toNat else (target.toNat + 5 - state.toNat) % 5

/-- The turns that can still end before the handler of `target` is called. -/
def turnsLeft (target : LoopState) (node : Node σ) : Nat :=
  match node.pc with
  | .update _ => 1 + turnsTo target (switchTarget node.ram.ctx)
  | _ => turnsTo target node.ram.ctx.loopState

/-- The step takes a publish or a dump request. -/
def serves (taken : Taken (Node σ) Event) : Bool :=
  match taken.event, taken.before.pc with
  | .main env, .update err => !taken.before.ram.ctx.reset && taken.before.ram.ctx.ready &&
      (taken.before.ram.ctx.setPublish || dumpFlag env err taken.before.ram)
  | _, _ => false

/-- The target is one of the five states of the cycle. -/
def InCycle (target : LoopState) : Prop :=
  LoopState.mqttListen.toNat ≤ target.toNat ∧ target.toNat ≤ LoopState.throttle.toNat

instance (target : LoopState) : Decidable (InCycle target) :=
  inferInstanceAs (Decidable (_ ∧ _))

/-- No handler of the cycle is more than five turns away. -/
theorem turnsTo_le (htarget : InCycle target) {state : LoopState} :
    turnsTo target state ≤ 5 := by
  unfold InCycle at htarget
  unfold turnsTo
  cases target <;> simp_all [LoopState.toNat] <;> cases state <;> decide

/-- The switch keeps the loop in the cycle. -/
theorem working_switch {ctx : AppCtx} (hwork : working ctx.loopState = true) :
    working (switchTarget ctx) = true := by
  unfold working at hwork
  unfold switchTarget
  cases hstate : ctx.loopState <;> simp only [hstate, LoopState.toNat] at hwork ⊢
  all_goals simp_all [working, LoopState.toNat]

/-- The switch goes on by one state of the cycle. -/
theorem turnsTo_switch (htarget : InCycle target) {ctx : AppCtx}
    (hwork : working ctx.loopState = true) : 1 + turnsTo target (switchTarget ctx) =
      if ctx.loopState = target then 5 else turnsTo target ctx.loopState := by
  unfold InCycle at htarget
  unfold working at hwork
  unfold switchTarget
  cases hstate : ctx.loopState <;> simp only [hstate, LoopState.toNat] at hwork ⊢
  all_goals cases target <;> simp_all [turnsTo, LoopState.toNat]

/-- At a call, the turns that are left are those from its state. -/
theorem turnsLeft_call (h : node.pc = .call) :
    turnsLeft target node = turnsTo target node.ram.ctx.loopState := by
  rw [turnsLeft, h]

/-- In `update_state`, a handler that has just been called is five turns away. -/
theorem turnsLeft_update (htarget : InCycle target) (h : node.pc = .update err)
    (hwork : working node.ram.ctx.loopState = true) : turnsLeft target node =
      if node.ram.ctx.loopState = target then 5 else turnsTo target node.ram.ctx.loopState := by
  rw [turnsLeft, h]
  exact turnsTo_switch htarget hwork

/-- A working loop is at most five turns from any handler of its cycle. -/
theorem turnsLeft_le (htarget : InCycle target) (hwork : working node.ram.ctx.loopState = true) :
    turnsLeft target node ≤ 5 := by
  cases hpc : node.pc with
  | update err =>
      rw [turnsLeft_update htarget hpc hwork]
      split
      · exact Nat.le_refl _
      · exact turnsTo_le htarget
  | call | writePassword | writeContract =>
      rw [turnsLeft, hpc]
      exact turnsTo_le htarget

/-- In the cycle the turns that are left depend on the place of the loop alone. -/
theorem turnsLeft_congr (htarget : InCycle target) (hpc : node'.pc = node.pc)
    (hstate : node'.ram.ctx.loopState = node.ram.ctx.loopState)
    (hwork : working node.ram.ctx.loopState = true) :
    turnsLeft target node' = turnsLeft target node := by
  cases hplace : node.pc with
  | update err =>
      rw [turnsLeft_update htarget hplace hwork,
        turnsLeft_update htarget (hpc.trans hplace) (by rwa [hstate]), hstate]
  | call | writePassword | writeContract => rw [turnsLeft, turnsLeft, hpc, hplace, hstate]

/-- A working loop does not write to the flash. -/
theorem not_flashWrite_of_working (hwork : working node.ram.ctx.loopState = true) :
    node.ram.ctx.loopState ≠ .flashWrite := by
  intro hwrite
  rw [hwrite] at hwork
  exact absurd hwork (by decide)

/-- A step that is no reset stays in the cycle. -/
theorem working_step (hinv : Inv node) (hwork : working node.ram.ctx.loopState = true)
    (h : step ops node event = some node') (hreset : resets ⟨node, event, node'⟩ = false) :
    working node'.ram.ctx.loopState = true := by
  have hflash := not_flashWrite_of_working hwork
  cases step_cases h with
  | @async _ ram _ _ hram =>
      show working ram.ctx.loopState = true
      rw [loopState_async hram]
      exact hwork
  | call _ _ _ _ hctx =>
      rw [(configd_handler hctx).1]
      exact hwork
  | writeSsid _ hwrite => exact absurd hwrite hflash
  | writePassword hpc => exact absurd (hinv.writing (.inl hpc)) hflash
  | writeContract hpc => exact absurd (hinv.writing (.inr hpc)) hflash
  | @update env err hpc hctx =>
      simp only [resets, hpc] at hreset
      generalize (updateStep env err node).ram.ctx = ctx at hctx
      cases hctx with
      | reset hset => exact absurd hset (by simp [hreset])
      | publish | dump => rfl
      | switch => exact working_switch hwork

/-- A step that is no reset and does not call the handler brings the handler nearer when it ends a
turn, unless it takes a request. -/
theorem turnsLeft_step (htarget : InCycle target) (hinv : Inv node)
    (hwork : working node.ram.ctx.loopState = true) (h : step ops node event = some node')
    (hreset : resets ⟨node, event, node'⟩ = false)
    (hcalled : called target ⟨node, event, node'⟩ = none) :
    turnsLeft target node' + (turns ⟨node, event, node'⟩).toNat ≤
      turnsLeft target node + 5 * (serves ⟨node, event, node'⟩).toNat := by
  have hflash := not_flashWrite_of_working hwork
  cases step_cases h with
  | @async _ ram hasync _ hram =>
      have hturn : turns ⟨node, event, { node with ram := ram }⟩ = false := by
        cases event <;> first | rfl | exact hasync.elim
      have hleft : turnsLeft target { node with ram := ram } = turnsLeft target node :=
        turnsLeft_congr htarget rfl (loopState_async hram) hwork
      rw [hturn, hleft]
      exact Nat.le_add_right _ _
  | @call env err _ hcall _ hrun hpc hctx =>
      have hstate := (configd_handler hctx).1
      have hother : node.ram.ctx.loopState ≠ target := by
        intro hsame
        rw [called_eq_some.mpr ⟨rfl, hcall, hsame⟩] at hcalled
        exact absurd hcalled (by simp)
      have hwork' : working node'.ram.ctx.loopState = true := by
        rw [hstate]
        exact hwork
      have hturn : turns ⟨node, .main env, node'⟩ = false := by
        simp only [turns, hcall]
      rw [turnsLeft_call hcall, turnsLeft_update htarget hpc hwork', hstate, if_neg hother, hturn]
      exact Nat.le_add_right _ _
  | writeSsid _ hwrite => exact absurd hwrite hflash
  | writePassword hpc => exact absurd (hinv.writing (.inl hpc)) hflash
  | writeContract hpc => exact absurd (hinv.writing (.inr hpc)) hflash
  | @update env err hpc hctx =>
      have hturn : turns ⟨node, .main env, updateStep env err node⟩ = true := by
        simp only [turns, hpc]
      have hserves : serves ⟨node, .main env, updateStep env err node⟩ =
          (!node.ram.ctx.reset && node.ram.ctx.ready &&
            (node.ram.ctx.setPublish || dumpFlag env err node.ram)) := by
        simp only [serves, hpc]
      have hleft : turnsLeft target node = 1 + turnsTo target (switchTarget node.ram.ctx) := by
        rw [turnsLeft, hpc]
      simp only [resets, hpc] at hreset
      rw [turnsLeft_call rfl, hturn, hserves, hleft]
      generalize (updateStep env err node).ram.ctx = ctx at hctx
      cases hctx with
      | reset hset => exact absurd hset (by simp [hreset])
      | publish _ hready hpublish =>
          have hbound : turnsTo target .mqttPublish ≤ 5 := turnsTo_le htarget
          rw [hreset, hready, hpublish]
          show turnsTo target .mqttPublish + 1 ≤ 1 + _ + 5
          omega
      | dump _ hready hdump =>
          have hbound : turnsTo target .logdump ≤ 5 := turnsTo_le htarget
          rw [hreset, hready, hdump, Bool.or_true]
          show turnsTo target .logdump + 1 ≤ 1 + _ + 5
          omega
      | switch =>
          show turnsTo target (switchTarget node.ram.ctx) + 1 ≤ _
          omega

/-- The node is in its cycle. -/
structure WorkingInv (node : Node σ) : Prop where
  inv : Inv node
  working : working node.ram.ctx.loopState = true

/-- A step that is no reset keeps the node in its cycle. -/
theorem workingInv_step (hinv : WorkingInv node) (h : step ops node event = some node')
    (hreset : resets ⟨node, event, node'⟩ = false) : WorkingInv node' :=
  ⟨inv_step hinv.inv h, working_step hinv.inv hinv.working h hreset⟩

/-- As long as no reset is taken, a working loop never leaves its cycle. -/
theorem working_run {hub : Hub} {store : σ} (h : Reachable (step ops) (boot hub env store) node)
    (hwork : working node.ram.ctx.loopState = true) (hrun : Run (step ops) node trace node')
    (hreset : ∀ taken ∈ trace, resets taken = false) :
    working node'.ram.ctx.loopState = true := by
  have hinv : WorkingInv node' :=
    hrun.invariant_of_forall WorkingInv hreset ⟨inv_reachable h, hwork⟩
      fun _ _ _ hinv hstep hquiet ↦ workingInv_step hinv hstep hquiet
  exact hinv.working

/-- As long as no reset is taken, a working loop keeps working, and however the events fall, it ends
at most five turns, and five more for each request that `update_state` takes, before it calls the
handler of any given state of the cycle. -/
theorem turns_le {hub : Hub} {store : σ} (h : Reachable (step ops) (boot hub env store) node)
    (hwork : working node.ram.ctx.loopState = true) (hrun : Run (step ops) node trace node')
    (hreset : ∀ taken ∈ trace, resets taken = false) :
    working node'.ram.ctx.loopState = true ∧ ∀ target : LoopState, InCycle target →
      (∀ taken ∈ trace, called target taken = none) →
        trace.countP turns ≤ 5 + 5 * trace.countP serves := by
  refine ⟨working_run h hwork hrun hreset, fun target htarget hcalled ↦ ?_⟩
  have hcond : ∀ taken ∈ trace, resets taken = false ∧ called target taken = none :=
    fun taken hmem ↦ ⟨hreset taken hmem, hcalled taken hmem⟩
  have hbudget := hrun.budget WorkingInv (turnsLeft target) 5 turns serves hcond
    ⟨inv_reachable h, hwork⟩
    (fun _ _ _ hinv hstep hquiet ↦ workingInv_step hinv hstep hquiet.1)
    (fun _ _ _ hinv hstep hquiet ↦
      turnsLeft_step htarget hinv.inv hinv.working hstep hquiet.1 hquiet.2)
  have hleft := turnsLeft_le htarget hwork
  omega

/-- A tick puts `THROTTLE` off. -/
theorem turns_le_throttle : ∃ (trace : List (Taken (Node Values) Event))
    (node node' : Node Values), Run (step atomicStore) node trace node' ∧ trace.countP turns = 4 ∧
      working node'.ram.ctx.loopState = true ∧
        trace.countP turns ≤ 5 + 5 * trace.countP serves := by
  let quiet (trace : List (Taken (Node Values) Event)) : Bool := trace.countP turns == 4 &&
    trace.all fun taken ↦ !resets taken && (called .throttle taken).isNone
  obtain ⟨older, node, hbefore, htest⟩ := exists_run_of_record (step atomicStore) freshNode
    (provisionEvents ++ connectEvents)
    (fun _ (node : Node Values) ↦ working node.ram.ctx.loopState &&
      ((record (step atomicStore) node (turn ++ turn ++ .tick :: turn ++ turn)).map fun run ↦
        quiet run.1) == some true)
    (by decide +kernel)
  obtain ⟨hwork, hrecord⟩ := Bool.and_eq_true_iff.mp htest
  obtain ⟨trace, node', hrun, hquiet⟩ := exists_run_of_record (step atomicStore) node
    (turn ++ turn ++ .tick :: turn ++ turn) (fun trace _ ↦ quiet trace) (beq_iff_eq.mp hrecord)
  obtain ⟨hturns, hall⟩ := Bool.and_eq_true_iff.mp hquiet
  have hboth : ∀ taken ∈ trace, resets taken = false ∧ called .throttle taken = none := by
    intro taken hmem
    simpa using List.all_eq_true.mp hall taken hmem
  obtain ⟨hworking, hbound⟩ := turns_le ⟨older, hbefore⟩ hwork hrun fun taken hmem ↦
    (hboth taken hmem).1
  exact ⟨trace, node, node', hrun, beq_iff_eq.mp hturns, hworking,
    hbound .throttle (by decide) fun taken hmem ↦ (hboth taken hmem).2⟩

end DirtieNode.Main
