import DirtieNode.Connect.LogArray
import DirtieNode.Logger.Ownership
import DirtieNode.Main.Readiness

/-!
# Log buffers

Who owns the log buffers along a run. `logdump` and `update_state` free them and leave them in the
slots, so a run keeps its buffers apart exactly when it has nothing to free.
-/

namespace DirtieNode.Main

open CString Flashmem Logger State Transition Util

variable {σ : Type} {ops : StoreOps σ} {env : Env} {err : DtErr} {node node' : Node σ}
  {ram ram' : Ram}

/-! ## Handlers that log -/

/-- The provisioning keeps the logs. -/
@[simp] theorem provisionToken_logs : (Connect.provisionToken env ram).2.logs = ram.logs := by
  unfold Connect.provisionToken Connect.provision
  split
  · split <;> simp
  · rfl

/-- `breadcrumb` keeps the logs. -/
@[simp] theorem breadcrumb_logs : (Connect.breadcrumb env ram).2.logs = ram.logs := by
  unfold Connect.breadcrumb
  split <;> simp

/-- A property of the logs that does not depend on the flag, and that `dlog` keeps. -/
structure LogClosed (kept : Logs → Prop) : Prop where
  dlog : ∀ (env : LogEnv) (lvl : LogLvl) (mesg : List UInt8) (logs : Logs), kept logs →
    kept (Logger.dlog env lvl mesg logs).2
  flag : ∀ (flag : Bool) (logs : Logs), kept logs → kept { logs with dumpLogs := flag }

section LogClosed

variable {kept : Logs → Prop}

/-- `mqtt_init_handler` does no more with the logs than log messages. -/
theorem mqttInitHandler_logs (hkept : LogClosed kept) (h : kept ram.logs) :
    kept (Connect.mqttInitHandler env ram).2.logs := by
  unfold Connect.mqttInitHandler
  split
  · exact hkept.dlog _ _ _ _ h
  · have hconnecting := hkept.dlog (env.log 0) .info
      (lit "connecting to " ++ ram.ctx.text.str wifiSsid ++ lit "\n") _ h
    dsimp only
    split
    · exact hkept.dlog _ _ _ _ hconnecting
    · have hconnected := hkept.dlog (env.log 1) .info (lit "Connected.\n") _ hconnecting
      split
      · exact hconnected
      · split
        · exact hkept.dlog _ _ _ _ hconnected
        · split
          · exact hkept.dlog _ _ _ _ hconnected
          · generalize hprov : Connect.provisionToken env _ = prov
            have hlogs := (congrArg (fun result ↦ result.2.logs) hprov).symm.trans
              provisionToken_logs
            have hprovisioned : kept prov.2.logs := hlogs ▸ hconnected
            split
            · exact hkept.dlog _ _ _ _ hprovisioned
            · exact hprovisioned

/-- The handlers other than that of `LOGDUMP` log, and free nothing else. -/
theorem ramHandler_logs {state : LoopState} (hkept : LogClosed kept) (h : kept ram.logs)
    (hstate : state ≠ .logdump) (hrun : ramHandler env ram state = some (err, ram')) :
    kept ram'.logs := by
  cases state <;> simp only [ramHandler, Option.some.injEq, reduceCtorEq] at hrun
  case mqttInit =>
    rw [← congrArg (fun result ↦ result.2.logs) hrun]
    exact mqttInitHandler_logs hkept h
  case senseInit =>
    unfold Sensor.senseInitHandler at hrun
    dsimp only at hrun
    split at hrun <;> obtain ⟨rfl, rfl⟩ := Prod.mk.inj hrun <;> exact h
  case ntpSync =>
    unfold ntpSyncHandler at hrun
    split at hrun <;> obtain ⟨rfl, rfl⟩ := Prod.mk.inj hrun
    · exact hkept.dlog _ _ _ _ h
    · exact h
  case mqttPublish =>
    rw [← congrArg (fun result ↦ result.2.logs) hrun]
    show kept (Connect.breadcrumb env ram).2.logs
    rwa [breadcrumb_logs]
  case senseListen | mqttListen | battListen | throttle =>
    obtain ⟨rfl, rfl⟩ := Prod.mk.inj hrun
    exact h
  case logdump => exact absurd rfl hstate

/-- Outside `LOGDUMP`, a handler does no more with the logs than log messages. -/
theorem callHandler_logs (hkept : LogClosed kept) (h : kept node.ram.logs)
    (hstate : node.ram.ctx.loopState ≠ .logdump)
    (hrun : callHandler ops env node = some node') : kept node'.ram.logs := by
  cases handlerCall hrun with
  | flashInit _ _ => exact h
  | wifiConfig _ _ _ => exact h
  | flashWrite _ hwrite =>
      rw [(writeStep_cases hwrite).1]
      exact h
  | ram hram => exact ramHandler_logs hkept h hstate hram

/-- The test of the result logs an error. -/
theorem logError_logs (env : Env) (err : DtErr) (hkept : LogClosed kept) (h : kept ram.logs) :
    kept (logError env err ram).logs := by
  unfold logError
  split
  · exact hkept.dlog _ _ _ _ h
  · exact h

end LogClosed

/-- Messages and the dump flag keep the buffers apart. -/
theorem logClosed_logsOwned : LogClosed LogsOwned where
  dlog _ _ _ _ h := h.dlog ..
  flag _ _ := fun ⟨ids, h⟩ ↦ ⟨ids, h.congr rfl rfl rfl⟩

/-! ## `logdump` -/

/-- The logs are encoded and their text has memory. -/
def Encodes (env : Env) (logs : Logs) : Prop :=
  env.logarray = true ∧
    ∀ i < (logs.logdump.takeWhile Option.isSome).length, env.b64 i = true

/-- `publish` gets a payload of `logdump` with all the logs. -/
def PublishesLogs (ram ram' : Ram) : Prop :=
  ∃ publication, ram'.sent = publication :: ram.sent ∧
    publication.topic = Connect.topicLogdump ∧
    (ram.logs.heap.Lines → ∀ buf, some buf ∈ ram.logs.logdump.takeWhile Option.isSome →
      Connect.Carries publication.message (Connect.logText ram.logs.heap buf))

/-- What `logdump` does: it publishes the logs and frees them, or it has no memory for the payload,
or it fails before and frees what its pointer to the payload happens to be. -/
theorem logdump_cases (hepoch : (getCurrentEpoch env.nowMs ram.ctx.ntpState).1 = .ok) :
    ∃ heap : Heap, heap.bufs.length = ram.logs.heap.bufs.length ∧
      heap.frees = ram.logs.heap.frees ∧ (ram.logs.heap.Lines → heap.Lines) ∧
      ((Encodes env ram.logs ∧ env.payload = true ∧
          (Connect.logdump env ram).2.logs = freeLogs { ram.logs with heap := heap } ∧
          PublishesLogs ram (Connect.logdump env ram).2) ∨
        (Encodes env ram.logs ∧ env.payload = false ∧
          Connect.logdump env ram =
            (.malloc, { ram with logs := { ram.logs with heap := heap } })) ∨
        (¬ Encodes env ram.logs ∧ ∃ err,
          Connect.logdump env ram =
            (err, { ram with logs := { ram.logs with heap := heap.free env.strayPayload } }))) := by
  have hnone : ∀ heap : Heap, heap.free none = heap := by simp [Heap.free]
  obtain ⟨now, hnow⟩ : ∃ now, getCurrentEpoch env.nowMs ram.ctx.ntpState = (.ok, some now) := by
    unfold getCurrentEpoch at hepoch ⊢
    split at hepoch
    · simp at hepoch
    · split at hepoch
      · simp at hepoch
      · exact ⟨_, if_neg ‹_›⟩
  unfold Connect.logdump Encodes
  rw [hnow]
  dsimp only
  cases hlogarray : env.logarray with
  | false =>
      exact ⟨ram.logs.heap, rfl, rfl, id, .inr (.inr ⟨by simp, .malloc, by simp [hnone]⟩)⟩
  | true =>
      obtain ⟨hok, hbufs, hfrees⟩ :=
        Connect.logArray_cases env now env.hwnow 0 ram.logs.logdump ram.logs.heap (lit "[")
      have hlines : ram.logs.heap.Lines → _ :=
        Connect.logArray_lines env now env.hwnow 0 ram.logs.logdump (lit "[")
      simp only [Nat.zero_add] at hok
      generalize hresult :
        Connect.logArray env now env.hwnow 0 ram.logs.logdump ram.logs.heap (lit "[") =
          result at hok hbufs hfrees hlines ⊢
      obtain ⟨rerr, heap, text⟩ := result
      refine ⟨heap, hbufs, hfrees, hlines, ?_⟩
      by_cases hall : rerr = .ok
      · obtain rfl := hall
        cases hpayload : env.payload with
        | true =>
            refine .inl ⟨⟨rfl, hok.mp rfl⟩, rfl, by simp, ?_⟩
            simp only [Bool.not_true, Bool.false_eq_true, if_false, publish_cases]
            refine ⟨_, rfl, rfl, fun hbefore buf hbuf ↦ ?_⟩
            -- the text of the array is in the payload as it is
            exact (Connect.logArray_carries hbefore hresult buf hbuf).mono ⟨_, _, rfl⟩
        | false => exact .inr (.inl ⟨⟨rfl, hok.mp rfl⟩, rfl, by simp [hnone]⟩)
      · refine .inr (.inr ⟨fun hencoded ↦ hall (hok.mpr hencoded.2), rerr, ?_⟩)
        simp [hnone]

/-- `logdump` ends before it frees the logs, and its cleanup frees none of them. -/
def DumpStops (env : Env) (logs : Logs) : Prop :=
  Encodes env logs ∧ env.payload = false ∨ ¬ Encodes env logs ∧ env.strayPayload = none

instance (env : Env) (logs : Logs) : Decidable (Encodes env logs) :=
  inferInstanceAs (Decidable (_ ∧ ∀ i < _, _))

instance (env : Env) (logs : Logs) : Decidable (DumpStops env logs) :=
  inferInstanceAs (Decidable (_ ∨ _))

/-- `logdump_handler` has nothing to do without logs. -/
theorem logdumpHandler_eq {ids : List BufId} (h : ram.logs.logdump = slotsOf ids) :
    Connect.logdumpHandler env ram =
      if ids = [] then (.ok, ram) else Connect.logdump env ram := by
  unfold Connect.logdumpHandler
  rw [h]
  cases ids with
  | nil => rfl
  | cons id ids => rfl

/-- `logdump_handler` keeps the buffers apart exactly when it has none or does not get to free
them. -/
theorem logdumpHandler_owned (h : LogsOwned ram.logs)
    (hepoch : (getCurrentEpoch env.nowMs ram.ctx.ntpState).1 = .ok) :
    LogsOwned (Connect.logdumpHandler env ram).2.logs ↔
      ram.logs.logdump = slotsOf [] ∨ DumpStops env ram.logs := by
  obtain ⟨ids, howned⟩ := h
  cases ids with
  | nil =>
      refine iff_of_true ?_ (.inl howned.slots)
      rw [logdumpHandler_eq howned.slots, if_pos rfl]
      exact ⟨[], howned⟩
  | cons id ids =>
      have hfilled : ram.logs.logdump ≠ slotsOf [] := fun hempty ↦
        List.cons_ne_nil id ids (slotsOf_injective (howned.slots.symm.trans hempty))
      rw [logdumpHandler_eq howned.slots, if_neg (List.cons_ne_nil id ids), or_iff_right hfilled]
      obtain ⟨heap, hbufs, hfrees, _, hcases⟩ := logdump_cases hepoch
      have hkept : Owned { ram.logs with heap := heap } (id :: ids) := howned.congr rfl hbufs hfrees
      unfold DumpStops
      rcases hcases with ⟨hencoded, hpayload, hlogs, _⟩ | ⟨hencoded, hpayload, hrun⟩ |
        ⟨hfailed, err, hrun⟩
      · rw [hlogs, hkept.freeLogs_iff]
        simp [hencoded, hpayload]
      · rw [hrun]
        exact iff_of_true ⟨_, hkept⟩ (.inl ⟨hencoded, hpayload⟩)
      · rw [hrun, hkept.free_iff]
        simp [hfailed]

/-! ## `update_state` -/

/-- The three blocks change no more than the flag. -/
theorem updateBlocks_logs (ram : Ram) :
    ∃ flag, (updateDump (updatePublish (updateReset ram))).logs =
      { ram.logs with dumpLogs := flag } := by
  have hreset : (updateReset ram).logs = ram.logs := by
    unfold updateReset
    split <;> rfl
  have hpublish : (updatePublish (updateReset ram)).logs = ram.logs := by
    unfold updatePublish
    split <;> exact hreset
  rw [updateDump]
  split
  · exact ⟨false, by rw [hpublish]⟩
  · exact ⟨ram.logs.dumpLogs, hpublish⟩

/-- Outside `LOGDUMP`, the switch keeps the logs. -/
theorem updateSwitch_logs (h : ram.ctx.loopState ≠ .logdump)
    (hbelow : ram.ctx.loopState ≠ .loopStateCount) : (updateSwitch env ram).logs = ram.logs := by
  unfold updateSwitch
  dsimp only
  cases hstate : ram.ctx.loopState <;> dsimp only <;> repeat' split
  all_goals first | rfl | contradiction

/-- In `LOGDUMP`, the switch frees the logs. -/
theorem updateSwitch_logdump (h : ram.ctx.loopState = .logdump) :
    (updateSwitch env ram).logs = freeLogs ram.logs := by
  unfold updateSwitch
  dsimp only
  rw [h]

/-- The message about a failed handler takes a buffer of its own. -/
theorem logError_owned (env : Env) (err : DtErr) {ids : List BufId} (h : Owned ram.logs ids) :
    ∃ ids', Owned (logError env err ram).logs ids' ∧
      (ids' = [] ↔ ids = [] ∧ (err = .ok ∨ (env.log 0).mallocOk = false)) := by
  unfold logError
  by_cases herr : err = .ok
  · exact ⟨ids, by simpa [herr] using h, by simp [herr]⟩
  · obtain ⟨ids', hafter, hempty⟩ := h.dlog (env.log 0) .err
      (ascii (toString err.code).toList ++ lit "\n")
    rw [if_pos herr]
    exact ⟨ids', hafter, by simpa [herr] using hempty⟩

/-- Outside `LOGDUMP`, `update_state` frees nothing. -/
theorem updateStep_logs {kept : Logs → Prop} (hkept : LogClosed kept) (h : kept node.ram.logs)
    (hstate : node.ram.ctx.loopState ≠ .logdump)
    (hbelow : node.ram.ctx.loopState ≠ .loopStateCount) :
    kept (updateStep env err node).ram.logs := by
  obtain ⟨flag, hlogs⟩ := updateBlocks_logs (updateSwitch env (logError env err node.ram))
  rw [updateSwitch_logs (by rwa [logError_ctx]) (by rwa [logError_ctx])] at hlogs
  show kept (updateState env (logError env err node.ram)).logs
  rw [updateState, hlogs]
  exact hkept.flag _ _ (logError_logs env err hkept h)

/-- In `LOGDUMP`, it frees the logs, and that of the error of the handler with them. -/
theorem updateStep_freeLogs (env : Env) (err : DtErr) (node : Node σ)
    (hstate : node.ram.ctx.loopState = .logdump) :
    ∃ flag, (updateStep env err node).ram.logs =
      { freeLogs (logError env err node.ram).logs with dumpLogs := flag } := by
  obtain ⟨flag, hlogs⟩ := updateBlocks_logs (updateSwitch env (logError env err node.ram))
  refine ⟨flag, ?_⟩
  show (updateState env (logError env err node.ram)).logs = _
  rw [updateState, hlogs, updateSwitch_logdump (by rwa [logError_ctx])]

/-- So there it keeps the buffers apart exactly when the slots are free. -/
theorem updateStep_logdump (env : Env) (err : DtErr) (h : LogsOwned node.ram.logs)
    (hstate : node.ram.ctx.loopState = .logdump) :
    (LogsOwned (updateStep env err node).ram.logs ∧
        (updateStep env err node).ram.logs.logdump = slotsOf []) ↔
      node.ram.logs.logdump = slotsOf [] ∧ (err = .ok ∨ (env.log 0).mallocOk = false) := by
  obtain ⟨ids, howned⟩ := h
  obtain ⟨ids', hafter, hempty⟩ := logError_owned env err howned
  obtain ⟨flag, hupdate⟩ := updateStep_freeLogs env err node hstate
  have hslots : node.ram.logs.logdump = slotsOf [] ↔ ids = [] := by
    rw [howned.slots, slotsOf_injective.eq_iff]
  rw [hslots, ← hempty, hupdate]
  constructor
  · rintro ⟨_, hfree⟩
    rw [hafter.freeLogs_eq] at hfree
    exact slotsOf_injective (hafter.slots.symm.trans hfree)
  · rintro rfl
    obtain ⟨ids, hfreed⟩ := hafter.freeLogs_iff.mpr rfl
    refine ⟨⟨ids, hfreed.congr rfl rfl rfl⟩, ?_⟩
    rw [hafter.freeLogs_eq]
    exact hafter.slots

/-! ## Runs -/

/-- The step keeps the buffers apart, and if it is `update_state` in `LOGDUMP`, the slots are free
for new messages after it. -/
def OwnsLogs (taken : Taken (Node σ) Event) : Prop :=
  LogsOwned taken.after.ram.logs ∧
    ∀ env err, taken.event = .main env → taken.before.pc = .update err →
      taken.before.ram.ctx.loopState = .logdump → taken.after.ram.logs.logdump = slotsOf []

/-- In `LOGDUMP` the handler finds no logs or does not get to free them, and `update_state` finds no
logs, not even one about the result of the handler. -/
def FreesNothing (taken : Taken (Node σ) Event) : Prop :=
  ∀ env, taken.event = .main env → taken.before.ram.ctx.loopState = .logdump →
    (taken.before.pc = .call →
      taken.before.ram.logs.logdump = slotsOf [] ∨ DumpStops env taken.before.ram.logs) ∧
    ∀ err, taken.before.pc = .update err →
      taken.before.ram.logs.logdump = slotsOf [] ∧
        (err = .ok ∨ (env.log 0).mallocOk = false)

/-- The steps other than those of the main program in `LOGDUMP` log, and free nothing else. -/
theorem step_logs {kept : Logs → Prop} {event : Event} (hkept : LogClosed kept) (hinv : Inv node)
    (hstep : step ops node event = some node')
    (hother : ∀ env, event = .main env → node.ram.ctx.loopState ≠ .logdump)
    (h : kept node.ram.logs) : kept node'.ram.logs := by
  cases step_cases hstep with
  | async _ _ hram =>
      cases hram with
      | dump => exact hkept.flag _ _ h
      | none | accepted | tick | reset | ntp => exact h
  | @call env _ _ _ _ hrun => exact callHandler_logs hkept h (hother env rfl) hrun
  | writeSsid _ _ hrun | writePassword _ hrun => rwa [(writeStep_cases hrun).1]
  | writeContract _ hrun =>
      obtain ⟨_, _, _, hlogs, _⟩ := writeContract_cases hrun
      rwa [hlogs]
  | @update env => exact updateStep_logs hkept h (hother env rfl) hinv.flags.below

/-- In `LOGDUMP` the main program calls `logdump_handler` and then `update_state`. -/
theorem step_logdump (hinv : Inv node) (hstep : step ops node (.main env) = some node')
    (hstate : node.ram.ctx.loopState = .logdump) :
    node.pc = .call ∧ node'.ram = (Connect.logdumpHandler env node.ram).2 ∨
      ∃ err, node.pc = .update err ∧ node' = updateStep env err node := by
  cases step_cases hstep with
  | async hasync => exact hasync.elim
  | call hcall _ hrun =>
      refine .inl ⟨hcall, ?_⟩
      simp only [callHandler, hstate, ramHandler, bind, pure, Option.bind_some,
        Option.some.injEq] at hrun
      rw [← hrun]
  | writeSsid _ hflash => exact absurd (hflash.symm.trans hstate) (by decide)
  | writePassword hplace =>
      exact absurd ((hinv.writing (.inl hplace)).symm.trans hstate) (by decide)
  | writeContract hplace =>
      exact absurd ((hinv.writing (.inr hplace)).symm.trans hstate) (by decide)
  | @update _ err hpc => exact .inr ⟨err, hpc, rfl⟩

/-- In `LOGDUMP` the time is known. -/
theorem logdump_epoch (hinv : Inv node) (hstate : node.ram.ctx.loopState = .logdump)
    (nowMs : Nat) : (getCurrentEpoch nowMs node.ram.ctx.ntpState).1 = .ok :=
  (readiness_of_flags hinv.flags).epoch (by simp [hstate, LoopState.toNat]) nowMs

/-- A step keeps the buffers apart exactly when it frees nothing in a slot. -/
theorem ownsLogs_step {event : Event} (hinv : Inv node) (h : LogsOwned node.ram.logs)
    (hstep : step ops node event = some node') :
    OwnsLogs ⟨node, event, node'⟩ ↔ FreesNothing ⟨node, event, node'⟩ := by
  unfold OwnsLogs FreesNothing
  dsimp only
  by_cases hother : ∀ env, event = .main env → node.ram.ctx.loopState ≠ .logdump
  · have hafter := step_logs logClosed_logsOwned hinv hstep hother h
    exact iff_of_true ⟨hafter, fun env _ hmain _ hstate ↦ absurd hstate (hother env hmain)⟩
      fun env hmain hstate ↦ absurd hstate (hother env hmain)
  · push Not at hother
    obtain ⟨env, rfl, hstate⟩ := hother
    rcases step_logdump hinv hstep hstate with ⟨hcall, hafter⟩ | ⟨err, hpc, rfl⟩
    · rw [hafter, logdumpHandler_owned h (logdump_epoch hinv hstate env.nowMs)]
      simp [hcall, hstate]
    · simpa [hpc, hstate] using updateStep_logdump env err h hstate

/-- A run keeps the log buffers apart, and its log dumps leave the slots free, exactly when none of
its steps frees a log that is in a slot. -/
theorem logs_owned_iff {hub : Hub} {store : σ} {trace : List (Taken (Node σ) Event)}
    (h : Run (step ops) (boot hub env store) trace node) :
    (∀ taken ∈ trace, OwnsLogs taken) ↔ ∀ taken ∈ trace, FreesNothing taken := by
  rw [← along_forall, ← along_forall]
  have hboot : LogsOwned (boot hub env store).ram.logs :=
    ((show LogsOwned {} from ⟨[], owned_init⟩).dlog ..).dlog ..
  refine h.along_iff (fun _ node ↦ Inv node ∧ LogsOwned node.ram.logs)
    ⟨inv_boot hub env store, hboot⟩ (fun older before event after _ hinv hstep ↦ ?_)
    (fun older before event after _ hinv hstep hcond ↦ ?_)
  · exact ownsLogs_step hinv.1 hinv.2 hstep
  · exact ⟨inv_step hinv.1 hstep, ((ownsLogs_step hinv.1 hinv.2 hstep).mpr hcond).1⟩

/-- From the first publication through the first log dump. -/
def dumpEvents : List Event :=
  provisionEvents ++ connectEvents ++ turn ++ turn ++ turn ++ turn ++ turn

/-- A step of the main program in `LOGDUMP` is a call that ends before it frees the logs. -/
def stopsDump (taken : Taken (Node σ) Event) : Bool :=
  match taken.event with
  | .main env => taken.before.ram.ctx.loopState != .logdump ||
      taken.before.pc == .call && decide (DumpStops env taken.before.ram.logs)
  | _ => true

/-- The two messages of the boot outlive a dump that has no memory for its payload. -/
theorem logs_owned_failed_dump : ∃ (trace : List (Taken (Node Values) Event))
    (node : Node Values), Run (step atomicStore) (boot defaultHub {} fun _ ↦ none) trace node ∧
      node.ram.ctx.loopState = .logdump ∧ node.pc = .update .malloc ∧
        node.ram.logs.logdump = slotsOf [0, 1] ∧ ∀ taken ∈ trace, OwnsLogs taken := by
  obtain ⟨trace, node, hrun, htest⟩ := exists_run_of_record (step atomicStore)
    (boot defaultHub {} fun _ ↦ none) (provisionEvents ++ connectEvents ++ turn ++ turn ++ turn ++
      turn ++ [.main { quietEnv with payload := false }])
    (fun trace node ↦ (node.ram.ctx.loopState == .logdump && node.pc == .update .malloc &&
      node.ram.logs.logdump == slotsOf [0, 1]) && trace.all stopsDump)
    (by decide +kernel)
  simp only [Bool.and_eq_true, beq_iff_eq, List.all_eq_true] at htest
  obtain ⟨⟨⟨hstate, hpc⟩, hslots⟩, hstops⟩ := htest
  refine ⟨trace, node, hrun, hstate, hpc, hslots, (logs_owned_iff hrun).mpr fun taken hmem ↦ ?_⟩
  intro env hmain hdump
  have htaken := hstops taken hmem
  rw [stopsDump, hmain] at htaken
  simp only [hdump, bne_self_eq_false, Bool.false_or, Bool.and_eq_true, beq_iff_eq,
    decide_eq_true_eq] at htaken
  refine ⟨fun _ ↦ .inr htaken.2, fun err hupdate ↦ ?_⟩
  rw [htaken.1] at hupdate
  exact absurd hupdate (by simp)

/-- The two messages of the boot are freed by `logdump`, and again by `update_state`. -/
theorem logs_freed_twice : ¬ ∀ (trace : List (Taken (Node Values) Event)) (node : Node Values),
    Run (step atomicStore) (boot defaultHub {} fun _ ↦ none) trace node →
      ∀ taken ∈ trace, OwnsLogs taken := by
  intro hclaim
  obtain ⟨trace, node, hrun, htest⟩ := exists_run_of_record (step atomicStore)
    (boot defaultHub {} fun _ ↦ none) dumpEvents
    (fun trace _ ↦ trace.any fun taken ↦ taken.after.ram.logs.heap.frees == [0, 1, 0, 1])
    (by decide +kernel)
  obtain ⟨taken, hmem, hfrees⟩ := List.any_eq_true.mp htest
  obtain ⟨⟨ids, howned⟩, _⟩ := hclaim trace node hrun taken hmem
  have hnodup := howned.nodup
  rw [beq_iff_eq.mp hfrees] at hnodup
  exact absurd hnodup (by decide)

end DirtieNode.Main
