import DirtieNode.Logger.Slots
import DirtieNode.Main.Logdump
import DirtieNode.Main.Measurement

/-!
# Unsent logs

Whether a message that `dlog` has accepted, so that its buffer is in a slot, is sent before the
buffer is freed. `logdump` frees the logs when their payload is ready and publishes it, all in one
step. `update_state` frees what it finds in the slots, sent or not.
-/

namespace DirtieNode.Main

open CString Flashmem Logger State Transition Util

variable {σ : Type} {ops : StoreOps σ} {env : Env} {err : DtErr} {node node' : Node σ}
  {ram ram' : Ram} {id : BufId} {older : List (Taken (Node σ) Event)} {event : Event}

/-- The step hands a payload with the message in this buffer, which is in a slot, to `publish`. -/
def Sends (taken : Taken (Node σ) Event) (id : BufId) : Prop :=
  id ∈ held taken.before.ram.logs ∧ ∃ publication,
    taken.after.ram.sent = publication :: taken.before.ram.sent ∧
      publication.topic = Connect.topicLogdump ∧
      Connect.Carries publication.message (Connect.logText taken.before.ram.logs.heap id)

/-- One of the steps sends the message. -/
def SentIn (trace : List (Taken (Node σ) Event)) (id : BufId) : Prop :=
  ∃ taken ∈ trace, Sends taken id

/-- The log buffers that the step frees. -/
def freed (taken : Taken (Node σ) Event) : List BufId :=
  taken.after.ram.logs.heap.frees.drop taken.before.ram.logs.heap.frees.length

/-- No accepted message is dropped unsent. -/
structure KeepsUnsent (older : List (Taken (Node σ) Event)) (taken : Taken (Node σ) Event) :
    Prop where
  /-- what the step frees of the slots has been sent, a message accepted in the step included -/
  released : ∀ id ∈ freed taken, id ∈ held taken.after.ram.logs → SentIn (taken :: older) id
  /-- what has not been sent stays in its slot -/
  waiting : ∀ id ∈ held taken.before.ram.logs, ¬ SentIn (taken :: older) id →
    id ∈ held taken.after.ram.logs ∧ id ∉ freed taken

/-! ## When nothing is dropped -/

/-- The result of the handler and the environment of `update_state`, if the step is one in this
state. -/
def updated (state : LoopState) (taken : Taken (Node σ) Event) : Option (Env × DtErr) :=
  match taken.event, taken.before.pc with
  | .main env, .update err =>
      if taken.before.ram.ctx.loopState = state then some (env, err) else none
  | _, _ => none

/-- The step is a call of `logdump_handler` in which nothing fails before `publish`. -/
def Dumps (taken : Taken (Node σ) Event) : Prop :=
  ∃ env ∈ called .logdump taken, Encodes env taken.before.ram.logs ∧ env.payload = true

/-- An earlier call found the message in a slot. -/
def DumpedIn (older : List (Taken (Node σ) Event)) (id : BufId) : Prop :=
  ∃ taken ∈ older, id ∈ held taken.before.ram.logs ∧ Dumps taken

/-- A failing `logdump` finds nothing undumped in its pointer to the payload, and `update_state`
finds nothing undumped in the slots, not even the error of the handler. -/
def SparesUnsent (older : List (Taken (Node σ) Event)) (taken : Taken (Node σ) Event) : Prop :=
  (∀ env ∈ called .logdump taken, ¬ Encodes env taken.before.ram.logs →
    ∀ id ∈ env.strayPayload, id ∈ held taken.before.ram.logs → DumpedIn older id) ∧
  ∀ call ∈ updated .logdump taken,
    (∀ id ∈ held taken.before.ram.logs, DumpedIn older id) ∧
      (call.2 = .ok ∨ (call.1.log 0).mallocOk = false ∨ none ∉ taken.before.ram.logs.logdump)

/-- The step is `update_state` in this state, with this result of the handler. -/
theorem updated_eq_some {state : LoopState} {taken : Taken (Node σ) Event} :
    updated state taken = some (env, err) ↔ taken.event = .main env ∧
      taken.before.pc = .update err ∧ taken.before.ram.ctx.loopState = state := by
  unfold updated
  split
  · rename_i env' err' hevent hpc
    rw [hevent, hpc]
    simp only [Option.ite_none_right_eq_some, Option.some.injEq, Prod.mk.injEq, Event.main.injEq,
      Pc.update.injEq]
    tauto
  · rename_i hother
    exact iff_of_false (by simp) fun h ↦ hother _ _ h.1 h.2.1

/-! ## Publications -/

/-- There is no new publication of logs. -/
def SentOther (ram ram' : Ram) : Prop :=
  ram'.sent = ram.sent ∨
    ∃ publication, ram'.sent = publication :: ram.sent ∧ publication.topic ≠ Connect.topicLogdump

/-- A publication under another topic is none of logs. -/
theorem publish_sentOther {topic : List UInt8} (message : List UInt8)
    (htopic : topic ≠ Connect.topicLogdump) :
    SentOther ram (Connect.publish env topic message ram).2 := by
  rw [publish_cases]
  exact .inr ⟨_, rfl, htopic⟩

/-- The provisioning publishes no logs. -/
theorem provisionToken_sentOther : SentOther ram (Connect.provisionToken env ram).2 := by
  unfold Connect.provisionToken Connect.provision
  split
  · split
    · exact .inl rfl
    · exact publish_sentOther _ (by decide)
  · exact .inl rfl

/-- `mqtt_init_handler` publishes no logs. -/
theorem mqttInitHandler_sentOther : SentOther ram (Connect.mqttInitHandler env ram).2 := by
  unfold Connect.mqttInitHandler
  dsimp only
  split
  · exact .inl rfl
  · split
    · exact .inl rfl
    · split
      · exact .inl rfl
      · split
        · exact .inl rfl
        · split
          · exact .inl rfl
          · generalize hconnected : Ram.mk _ _ _ = connected
            have hsent : connected.sent = ram.sent := by rw [← hconnected]; rfl
            have hother : SentOther connected (Connect.provisionToken env connected).2 :=
              provisionToken_sentOther
            unfold SentOther at hother ⊢
            rw [hsent] at hother
            split
            · exact hother
            · exact hother

/-- The handlers outside `LOGDUMP` publish no logs. -/
theorem ramHandler_sentOther {state : LoopState} (hstate : state ≠ .logdump)
    (hrun : ramHandler env ram state = some (err, ram')) : SentOther ram ram' := by
  cases state <;> simp only [ramHandler, Option.some.injEq, reduceCtorEq] at hrun
  case mqttInit =>
    have hram : (Connect.mqttInitHandler env ram).2 = ram' := congrArg Prod.snd hrun
    exact hram ▸ mqttInitHandler_sentOther
  case senseInit =>
    unfold Sensor.senseInitHandler at hrun
    dsimp only at hrun
    split at hrun <;> obtain ⟨rfl, rfl⟩ := Prod.mk.inj hrun <;> exact .inl rfl
  case ntpSync =>
    unfold ntpSyncHandler at hrun
    split at hrun <;> obtain ⟨rfl, rfl⟩ := Prod.mk.inj hrun <;> exact .inl rfl
  case mqttPublish =>
    have hram : (Connect.breadcrumb env ram).2 = ram' := congrArg Prod.snd hrun
    rw [← hram]
    unfold Connect.breadcrumb
    split
    · exact .inl rfl
    · exact publish_sentOther _ (by decide)
  case senseListen | mqttListen | battListen | throttle =>
    obtain ⟨rfl, rfl⟩ := Prod.mk.inj hrun
    exact .inl rfl
  case logdump => exact absurd rfl hstate

/-- `update_state` publishes nothing. -/
theorem updateStep_sent : (updateStep env err node).ram.sent = node.ram.sent := by
  have hblocks : ∀ ram : Ram, (updateDump (updatePublish (updateReset ram))).sent = ram.sent := by
    intro ram
    unfold updateDump updatePublish updateReset
    split <;> split <;> split <;> rfl
  have hswitch : ∀ ram : Ram, (updateSwitch env ram).sent = ram.sent := by
    intro ram
    unfold updateSwitch
    dsimp only
    split <;> repeat' split
    all_goals rfl
  show (updateState env (logError env err node.ram)).sent = _
  rw [updateState, hblocks, hswitch]
  unfold logError
  split <;> rfl

/-- Only `logdump_handler` publishes logs. -/
theorem step_sentOther (hstep : step ops node event = some node')
    (hother : called .logdump ⟨node, event, node'⟩ = none) : SentOther node.ram node'.ram := by
  cases step_cases hstep with
  | async _ _ hram => cases hram <;> exact .inl rfl
  | @call env _ _ hcall _ hrun =>
      have hstate : node.ram.ctx.loopState ≠ .logdump := by
        intro hstate
        rw [called_eq_some.mpr ⟨rfl, hcall, hstate⟩] at hother
        simp at hother
      cases handlerCall hrun with
      | flashInit _ _ => exact .inl rfl
      | wifiConfig _ _ _ => exact .inl rfl
      | flashWrite _ hwrite => exact .inl (by rw [(writeStep_cases hwrite).1])
      | ram hram => exact ramHandler_sentOther hstate hram
  | writeSsid _ _ hrun | writePassword _ hrun => exact .inl (by rw [(writeStep_cases hrun).1])
  | writeContract _ hrun =>
      simp only [writeContract, bind, pure, Option.bind_eq_some_iff, Option.some.injEq] at hrun
      obtain ⟨_, _, rfl⟩ := hrun
      exact .inl rfl
  | update => exact .inl updateStep_sent

/-- A step that is no call of `logdump_handler` dumps nothing. -/
theorem not_dumps_of_not_called {taken : Taken (Node σ) Event}
    (h : called .logdump taken = none) : ¬ Dumps taken := by
  intro hdumps
  obtain ⟨env, henv, -⟩ := hdumps
  rw [h] at henv
  exact absurd henv (Option.not_mem_none env)

/-- A call of `logdump_handler` gets through when the encodings and the payload have memory. -/
theorem dumps_iff {taken : Taken (Node σ) Event} (h : called .logdump taken = some env) :
    Dumps taken ↔ Encodes env taken.before.ram.logs ∧ env.payload = true := by
  unfold Dumps
  rw [h]
  simp

/-- A step sends the messages in the slots exactly when it is a call of `logdump_handler` in which
nothing fails before `publish`. -/
theorem sends_iff (hinv : Inv node) (hstored : Stored node.ram.logs)
    (hstep : step ops node event = some node') (hheld : id ∈ held node.ram.logs) :
    Sends ⟨node, event, node'⟩ id ↔ Dumps ⟨node, event, node'⟩ := by
  have hne : ∀ publication, node.ram.sent ≠ publication :: node.ram.sent := fun publication ↦
    (List.cons_ne_self publication node.ram.sent).symm
  have hquiet : node'.ram.sent = node.ram.sent → ¬ Sends ⟨node, event, node'⟩ id := by
    intro hsame hsends
    obtain ⟨-, publication, hsent, -⟩ := hsends
    exact hne publication (hsame.symm.trans hsent)
  cases hcalled : called .logdump ⟨node, event, node'⟩ with
  | none =>
      refine iff_of_false ?_ (not_dumps_of_not_called hcalled)
      intro hsends
      rcases step_sentOther hstep hcalled with hsame | ⟨other, hother, hne⟩
      · exact hquiet hsame hsends
      · obtain ⟨-, publication, hsent, htopic, -⟩ := hsends
        obtain ⟨rfl, _⟩ := List.cons.inj (hother.symm.trans hsent)
        exact hne htopic
  | some env =>
      obtain ⟨rfl, hcall, hstate⟩ := called_eq_some.mp hcalled
      rw [dumps_iff hcalled]
      have hafter : node'.ram = (Connect.logdump env node.ram).2 := by
        rcases step_logdump hinv hstep hstate with ⟨_, hafter⟩ | ⟨err, hpc, _⟩
        · rw [hafter, logdumpHandler_eq hstored.slots, if_neg (List.ne_nil_of_mem hheld)]
        · exact absurd (hcall.symm.trans hpc) (by simp)
      have hslot : some id ∈ node.ram.logs.logdump.takeWhile Option.isSome := by
        rw [hstored.slots, takeWhile_slotsOf]
        exact List.mem_map_of_mem hheld
      obtain ⟨heap, _, _, _, hcases⟩ := logdump_cases (logdump_epoch hinv hstate env.nowMs)
      rcases hcases with ⟨hencoded, hpayload, _, publication, hsent, htopic, hcarries⟩ |
        ⟨_, hpayload, hrun⟩ | ⟨hfailed, err, hrun⟩
      · refine iff_of_true ⟨hheld, publication, ?_, htopic, hcarries hstored.lines id hslot⟩
          ⟨hencoded, hpayload⟩
        show node'.ram.sent = _
        rw [hafter, hsent]
      · refine iff_of_false (hquiet ?_) (by simp [hpayload])
        rw [hafter, hrun]
      · refine iff_of_false (hquiet ?_) fun h ↦ hfailed h.1
        rw [hafter, hrun]

/-! ## What a step does to the logs -/

/-- The logs after a step: messages were accepted, or `logdump_handler` ran, or `update_state` in
`LOGDUMP`. -/
inductive LogsChange (taken : Taken (Node σ) Event) : Prop
  | grows (hcalled : called .logdump taken = none) (hupdated : updated .logdump taken = none)
      (h : Grows taken.before.ram.logs taken.after.ram.logs)
  | dump {env : Env} (hcalled : called .logdump taken = some env)
      (hupdated : updated .logdump taken = none)
      (hheld : held taken.after.ram.logs = held taken.before.ram.logs)
      (hfreed : ∀ id ∈ held taken.before.ram.logs, id ∈ freed taken ↔
        Dumps taken ∨ ¬ Encodes env taken.before.ram.logs ∧ env.strayPayload = some id)
  | update {env : Env} {err : DtErr} (hcalled : called .logdump taken = none)
      (hupdated : updated .logdump taken = some (env, err))
      (hlogged : Grows taken.before.ram.logs (logError env err taken.before.ram).logs)
      (hheld : held taken.after.ram.logs = held (logError env err taken.before.ram).logs)
      (hfreed : ∀ id ∈ held taken.after.ram.logs, id ∈ freed taken)

/-- Messages and the dump flag keep the logs stored, and only add to them. -/
theorem logClosed_stored (logs : Logs) :
    LogClosed fun logs' ↦ Stored logs' ∧ Grows logs logs' where
  dlog env lvl mesg _ := fun ⟨hstored, hgrows⟩ ↦
    ⟨(hstored.dlog env lvl mesg).1, hgrows.trans (hstored.dlog env lvl mesg).2⟩
  flag _ _ := fun ⟨hstored, hgrows⟩ ↦
    ⟨hstored.congr rfl rfl hstored.lines, ⟨hgrows.kept, hgrows.fresh, hgrows.bufs, hgrows.dropped⟩⟩

/-- What a step appends to the list of frees is what it frees. -/
theorem freed_of_frees {taken : Taken (Node σ) Event} {new : List BufId}
    (h : taken.after.ram.logs.heap.frees = taken.before.ram.logs.heap.frees ++ new) :
    freed taken = new := by
  rw [freed, h, List.drop_left]

/-- A call of `logdump_handler` changes the heap, and frees the slots or what its pointer to the
payload happens to be. -/
theorem logs_dump (hinv : Inv node) (hstored : Stored node.ram.logs) (hcall : node.pc = .call)
    (hstate : node.ram.ctx.loopState = .logdump)
    (hafter : node'.ram = (Connect.logdumpHandler env node.ram).2) :
    Stored node'.ram.logs ∧ LogsChange ⟨node, .main env, node'⟩ := by
  have hcalled : called .logdump ⟨node, .main env, node'⟩ = some env :=
    called_eq_some.mpr ⟨rfl, hcall, hstate⟩
  have hupdated : updated .logdump ⟨node, .main env, node'⟩ = none :=
    Option.eq_none_iff_forall_not_mem.mpr fun call h ↦
      absurd (hcall.symm.trans (updated_eq_some.mp h).2.1) (by simp)
  have hkept : ∀ (heap : Heap) (new : List BufId),
      node'.ram.logs = { node.ram.logs with heap := heap } →
      heap.bufs.length = node.ram.logs.heap.bufs.length → heap.Lines →
      heap.frees = node.ram.logs.heap.frees ++ new →
      (∀ id ∈ held node.ram.logs, id ∈ new ↔ Dumps ⟨node, .main env, node'⟩ ∨
        ¬ Encodes env node.ram.logs ∧ env.strayPayload = some id) →
      Stored node'.ram.logs ∧ LogsChange ⟨node, .main env, node'⟩ := by
    intro heap new hlogs hbufs hlines hfrees hiff
    have hnew : freed ⟨node, .main env, node'⟩ = new := by
      refine freed_of_frees ?_
      show node'.ram.logs.heap.frees = _
      rw [hlogs]
      exact hfrees
    refine ⟨?_, .dump hcalled hupdated ?_ ?_⟩
    · rw [hlogs]
      exact hstored.congr rfl hbufs hlines
    · show held node'.ram.logs = _
      rw [hlogs]
      rfl
    · rwa [hnew]
  have hdumps := dumps_iff hcalled
  rw [logdumpHandler_eq hstored.slots] at hafter
  -- without logs nothing is done; else the outcomes of `logdump` differ in what they free
  by_cases hempty : held node.ram.logs = []
  · rw [if_pos hempty] at hafter
    refine hkept node.ram.logs.heap [] (congrArg Ram.logs hafter) rfl hstored.lines
      (List.append_nil _).symm fun id hid ↦ ?_
    exact absurd (hempty ▸ hid) List.not_mem_nil
  · rw [if_neg hempty] at hafter
    obtain ⟨heap, hbufs, hfrees, hlines, hcases⟩ :=
      logdump_cases (logdump_epoch hinv hstate env.nowMs)
    rcases hcases with ⟨hencoded, hpayload, hlogs, _⟩ | ⟨hencoded, hpayload, hrun⟩ |
      ⟨hfailed, err, hrun⟩
    · rw [← hafter, freeLogs_eq] at hlogs
      refine hkept _ (held node.ram.logs) hlogs hbufs (hlines hstored.lines) ?_ fun id hid ↦ ?_
      · rw [← hfrees]
        rfl
      · exact iff_of_true hid (.inl (hdumps.mpr ⟨hencoded, hpayload⟩))
    · rw [hrun] at hafter
      refine hkept heap [] (congrArg Ram.logs hafter) hbufs (hlines hstored.lines) ?_
        fun id hid ↦ iff_of_false List.not_mem_nil ?_
      · rw [hfrees, List.append_nil]
      · rintro (hdump | ⟨hfailed, _⟩)
        · rw [(hdumps.mp hdump).2] at hpayload
          exact Bool.noConfusion hpayload
        · exact hfailed hencoded
    · rw [hrun] at hafter
      refine hkept (heap.free env.strayPayload) env.strayPayload.toList
        (congrArg Ram.logs hafter) hbufs (hlines hstored.lines) ?_ fun id hid ↦ ?_
      · rw [← hfrees]
        rfl
      · rw [Option.mem_toList]
        exact ⟨fun hstray ↦ .inr ⟨hfailed, hstray⟩, fun h ↦
          h.elim (fun hdump ↦ absurd (hdumps.mp hdump).1 hfailed) fun hstray ↦ hstray.2⟩

/-- `update_state` in `LOGDUMP` logs an error of the handler, and then frees all the slots. -/
theorem logs_update (hstored : Stored node.ram.logs) (hpc : node.pc = .update err)
    (hstate : node.ram.ctx.loopState = .logdump) :
    Stored (updateStep env err node).ram.logs ∧
      LogsChange ⟨node, .main env, updateStep env err node⟩ := by
  obtain ⟨hlogged, hgrows⟩ :=
    logError_logs env err (logClosed_stored node.ram.logs) ⟨hstored, .refl _⟩
  obtain ⟨flag, hafter⟩ := updateStep_freeLogs env err node hstate
  rw [freeLogs_eq] at hafter
  have hheld : held (updateStep env err node).ram.logs =
      held (logError env err node.ram).logs := by
    rw [hafter]
    rfl
  refine ⟨?_, .update (called_eq_none (.inl (by simp [hpc])))
    (updated_eq_some.mpr ⟨rfl, hpc, hstate⟩) hgrows hheld fun id hid ↦ ?_⟩
  · rw [hafter]
    exact hlogged.congr rfl rfl hlogged.lines
  · obtain ⟨dropped, hfrees, _⟩ := hgrows.dropped
    have hnew : (updateStep env err node).ram.logs.heap.frees = node.ram.logs.heap.frees ++
        (dropped ++ held (logError env err node.ram).logs) := by
      rw [hafter, ← List.append_assoc, ← hfrees]
    rw [freed_of_frees hnew, ← hheld]
    exact List.mem_append_right _ hid

/-- A step keeps the logs stored. -/
theorem logs_step (hinv : Inv node) (hstored : Stored node.ram.logs)
    (hstep : step ops node event = some node') :
    Stored node'.ram.logs ∧ LogsChange ⟨node, event, node'⟩ := by
  by_cases hother : ∀ env, event = .main env → node.ram.ctx.loopState ≠ .logdump
  · obtain ⟨hafter, hgrows⟩ := step_logs (logClosed_stored node.ram.logs) hinv hstep hother
      ⟨hstored, .refl _⟩
    refine ⟨hafter, .grows ?_ ?_ hgrows⟩
    · exact Option.eq_none_iff_forall_not_mem.mpr fun env henv ↦
        hother env (called_eq_some.mp henv).1 (called_eq_some.mp henv).2.2
    · exact Option.eq_none_iff_forall_not_mem.mpr fun call hcall ↦
        hother call.1 (updated_eq_some.mp hcall).1 (updated_eq_some.mp hcall).2.2
  · push Not at hother
    obtain ⟨env, rfl, hstate⟩ := hother
    rcases step_logdump hinv hstep hstate with ⟨hcall, hafter⟩ | ⟨err, hpc, rfl⟩
    · exact logs_dump hinv hstored hcall hstate hafter
    · exact logs_update hstored hpc hstate

/-- No step takes a buffer out of its slot. -/
theorem LogsChange.held_grows {taken : Taken (Node σ) Event} (h : LogsChange taken) :
    held taken.before.ram.logs <+: held taken.after.ram.logs := by
  cases h with
  | grows _ _ h => exact h.kept
  | dump _ _ hheld => exact hheld ▸ List.prefix_rfl
  | update _ _ hlogged hheld => exact hheld ▸ hlogged.kept

/-! ## Runs -/

/-- What the history of a run says about its logs. -/
structure LogsInv (older : List (Taken (Node σ) Event)) (node : Node σ) : Prop where
  inv : Inv node
  stored : Stored node.ram.logs
  /-- the buffers of earlier steps are still in their slots -/
  kept : ∀ taken ∈ older, held taken.before.ram.logs <+: held node.ram.logs
  /-- and those of them that were sent were dumped -/
  sends : ∀ taken ∈ older, ∀ id ∈ held taken.before.ram.logs, Sends taken id ↔ Dumps taken

/-- A step adds itself to the history of the logs. -/
theorem logsInv_step (h : LogsInv older node) (hstep : step ops node event = some node') :
    LogsInv (⟨node, event, node'⟩ :: older) node' := by
  obtain ⟨hstored, hchange⟩ := logs_step h.inv h.stored hstep
  refine ⟨inv_step h.inv hstep, hstored, ?_, ?_⟩
  · intro taken htaken
    rcases List.mem_cons.mp htaken with rfl | hold
    · exact hchange.held_grows
    · exact (h.kept taken hold).trans hchange.held_grows
  · intro taken htaken id hid
    rcases List.mem_cons.mp htaken with rfl | hold
    · exact sends_iff h.inv h.stored hstep hid
    · exact h.sends taken hold id hid

/-- Along a run, a message has been sent when a dump with it in a slot got through. -/
theorem LogsInv.sentIn_iff (h : LogsInv older node) : SentIn older id ↔ DumpedIn older id := by
  constructor
  · rintro ⟨taken, htaken, hsends⟩
    exact ⟨taken, htaken, hsends.1, (h.sends taken htaken id hsends.1).mp hsends⟩
  · rintro ⟨taken, htaken, hheld, hdumps⟩
    exact ⟨taken, htaken, (h.sends taken htaken id hheld).mpr hdumps⟩

/-- A message that was sent before the step or in it was in a slot before the step. -/
theorem LogsInv.held_of_sentIn (h : LogsInv older node)
    (hsent : SentIn (⟨node, event, node'⟩ :: older) id) : id ∈ held node.ram.logs := by
  obtain ⟨taken, htaken, hheld, _⟩ := hsent
  rcases List.mem_cons.mp htaken with rfl | hold
  · exact hheld
  · exact (h.kept taken hold).subset hheld

/-- A message is sent in the last step or before it. -/
theorem sentIn_cons {taken : Taken (Node σ) Event} :
    SentIn (taken :: older) id ↔ Sends taken id ∨ SentIn older id := by
  unfold SentIn
  simp only [List.mem_cons, exists_eq_or_imp]

/-- Since the slots keep their buffers, it is enough to look at what is freed. -/
theorem keepsUnsent_iff {taken : Taken (Node σ) Event}
    (hkept : held taken.before.ram.logs <+: held taken.after.ram.logs) :
    KeepsUnsent older taken ↔
      ∀ id ∈ freed taken, id ∈ held taken.after.ram.logs → SentIn (taken :: older) id :=
  ⟨fun h ↦ h.released, fun h ↦ ⟨h, fun id hid hunsent ↦
    ⟨hkept.subset hid, fun hfreed ↦ hunsent (h id hfreed (hkept.subset hid))⟩⟩⟩

/-- The test of the result puts its message into a slot if there is an error, memory and room. -/
theorem logError_held (h : Stored ram.logs) :
    held (logError env err ram).logs = held ram.logs ++
      if err = .ok ∨ (env.log 0).mallocOk = false ∨ none ∉ ram.logs.logdump then []
      else [ram.logs.heap.bufs.length] := by
  unfold logError
  by_cases herr : err = .ok
  · simp [herr]
  · have hslot : none ∈ ram.logs.logdump ↔ (held ram.logs).length < maxLogEntries := by
      rw [h.slots, none_mem_slotsOf]
    rw [if_pos herr]
    show held (Logger.dlog _ _ _ ram.logs).2 = _
    have hcases := dlog_cases (env.log 0) .err (ascii (toString err.code).toList ++ lit "\n")
      h.slots
    generalize Logger.dlog _ _ _ ram.logs = result at hcases ⊢
    cases hcases with
    | malloc hmalloc => simp [hmalloc]
    | accepted flag hmalloc hroom =>
        rw [held_mk, if_neg (by simp [herr, hmalloc, hslot.mpr hroom])]
    | full flag hmalloc hfull =>
        have hfilled : none ∉ ram.logs.logdump := fun hmem ↦
          absurd (hslot.mp hmem) (Nat.not_lt.mpr hfull)
        rw [if_pos (.inr (.inr hfilled)), List.append_nil]
        rfl

/-- A message in a slot is sent by the end of the step exactly when a dump has got through. -/
theorem LogsInv.sentIn_cons_iff (h : LogsInv older node)
    (hstep : step ops node event = some node') (hid : id ∈ held node.ram.logs) :
    SentIn (⟨node, event, node'⟩ :: older) id ↔
      Dumps ⟨node, event, node'⟩ ∨ DumpedIn older id := by
  rw [sentIn_cons, h.sentIn_iff, sends_iff h.inv h.stored hstep hid]

/-- A call of `logdump_handler` loses no message when its pointer to the payload spares them. -/
theorem keepsUnsent_dump {env : Env} (h : LogsInv older node)
    (hstep : step ops node event = some node')
    (hcalled : called .logdump ⟨node, event, node'⟩ = some env)
    (hupdated : updated .logdump ⟨node, event, node'⟩ = none)
    (hheld : held node'.ram.logs = held node.ram.logs)
    (hfreed : ∀ id ∈ held node.ram.logs, id ∈ freed ⟨node, event, node'⟩ ↔
      Dumps ⟨node, event, node'⟩ ∨ ¬ Encodes env node.ram.logs ∧ env.strayPayload = some id) :
    KeepsUnsent older ⟨node, event, node'⟩ ↔ SparesUnsent older ⟨node, event, node'⟩ := by
  rw [keepsUnsent_iff (by rw [hheld])]
  unfold SparesUnsent
  rw [hcalled, hupdated]
  dsimp only
  rw [hheld]
  constructor
  · intro hreleased
    refine ⟨fun env' henv hfailed id hstray hid ↦ ?_, by simp⟩
    obtain rfl := Option.some.inj henv
    have hsent := hreleased id ((hfreed id hid).mpr (.inr ⟨hfailed, hstray⟩)) hid
    refine ((h.sentIn_cons_iff hstep hid).mp hsent).resolve_left fun hdumps ↦ ?_
    exact hfailed ((dumps_iff hcalled).mp hdumps).1
  · rintro ⟨hcleanup, _⟩ id hid hslot
    refine (h.sentIn_cons_iff hstep hslot).mpr ?_
    rcases (hfreed id hslot).mp hid with hdumps | ⟨hfailed, hstray⟩
    · exact .inl hdumps
    · exact .inr (hcleanup env rfl hfailed id hstray hslot)

/-- `update_state` in `LOGDUMP` loses no message when all in the slots have been dumped. -/
theorem keepsUnsent_update {env : Env} {err : DtErr} (h : LogsInv older node)
    (hstep : step ops node event = some node')
    (hcalled : called .logdump ⟨node, event, node'⟩ = none)
    (hupdated : updated .logdump ⟨node, event, node'⟩ = some (env, err))
    (hlogged : Grows node.ram.logs (logError env err node.ram).logs)
    (hheld : held node'.ram.logs = held (logError env err node.ram).logs)
    (hfreed : ∀ id ∈ held node'.ram.logs, id ∈ freed ⟨node, event, node'⟩) :
    KeepsUnsent older ⟨node, event, node'⟩ ↔ SparesUnsent older ⟨node, event, node'⟩ := by
  rw [keepsUnsent_iff (by rw [hheld]; exact hlogged.kept)]
  have hnot := not_dumps_of_not_called hcalled
  unfold SparesUnsent
  rw [hcalled, hupdated]
  dsimp only
  constructor
  · intro hreleased
    refine ⟨by simp, fun call hcall ↦ ?_⟩
    obtain rfl := Option.some.inj hcall
    have hall : ∀ id ∈ held node'.ram.logs, SentIn (⟨node, event, node'⟩ :: older) id :=
      fun id hid ↦ hreleased id (hfreed id hid) hid
    refine ⟨fun id hid ↦ ?_, ?_⟩
    · have hafter : id ∈ held node'.ram.logs := hheld ▸ hlogged.kept.subset hid
      exact ((h.sentIn_cons_iff hstep hid).mp (hall id hafter)).resolve_left hnot
    · -- the message about the error cannot have been sent
      by_contra haccepted
      rw [logError_held h.stored, if_neg haccepted] at hheld
      have hnew : node.ram.logs.heap.bufs.length ∈ held node'.ram.logs := by
        rw [hheld]
        exact List.mem_append_right _ (List.mem_singleton_self _)
      exact absurd (h.stored.below _ (h.held_of_sentIn (hall _ hnew))) (lt_irrefl _)
  · rintro ⟨_, hupdate⟩ id hid hslot
    obtain ⟨hdumped, hquiet⟩ := hupdate (env, err) rfl
    rw [hheld, logError_held h.stored, if_pos hquiet, List.append_nil] at hslot
    exact (h.sentIn_cons_iff hstep hslot).mpr (.inr (hdumped id hslot))

/-- A step loses no message when it spares those that have not been dumped. -/
theorem keepsUnsent_step (h : LogsInv older node) (hstep : step ops node event = some node') :
    KeepsUnsent older ⟨node, event, node'⟩ ↔ SparesUnsent older ⟨node, event, node'⟩ := by
  obtain ⟨_, hchange⟩ := logs_step h.inv h.stored hstep
  cases hchange with
  | grows hcalled hupdated hgrows =>
      rw [keepsUnsent_iff hgrows.kept]
      unfold SparesUnsent
      rw [hcalled, hupdated]
      refine iff_of_true (fun id hfreed hheld ↦ ?_) ⟨by simp, by simp⟩
      -- only buffers for which there was no slot are freed
      obtain ⟨dropped, hfrees, hdropped⟩ := hgrows.dropped
      rw [freed_of_frees hfrees] at hfreed
      exact absurd hheld (hdropped id hfreed).2
  | dump hcalled hupdated hheld hfreed =>
      exact keepsUnsent_dump h hstep hcalled hupdated hheld hfreed
  | update hcalled hupdated hlogged hheld hfreed =>
      exact keepsUnsent_update h hstep hcalled hupdated hlogged hheld hfreed

/-- In a run no accepted message is dropped unsent exactly as long as `logdump` and `update_state`
free only messages that a call of `logdump_handler` has dumped before. -/
theorem keeps_unsent_iff {hub : Hub} {env : Env} {store : σ}
    {trace : List (Taken (Node σ) Event)} (h : Run (step ops) (boot hub env store) trace node) :
    Along KeepsUnsent trace ↔ Along SparesUnsent trace := by
  refine h.along_iff LogsInv ?_ (fun older before event after _ hinv hstep ↦ ?_)
    (fun older before event after _ hinv hstep _ ↦ logsInv_step hinv hstep)
  · refine ⟨inv_boot hub env store, ?_, fun _ hmem ↦ absurd hmem List.not_mem_nil,
      fun _ hmem ↦ absurd hmem List.not_mem_nil⟩
    exact ((stored_init.dlog ..).1.dlog ..).1
  · exact keepsUnsent_step hinv hstep

instance (env : Env) (logs : Logs) : Decidable (Encodes env logs) :=
  inferInstanceAs (Decidable (_ ∧ _))

instance (taken : Taken (Node σ) Event) : Decidable (Dumps taken) :=
  inferInstanceAs (Decidable (∃ env ∈ called .logdump taken, _))

instance (older : List (Taken (Node σ) Event)) (id : BufId) : Decidable (DumpedIn older id) :=
  inferInstanceAs (Decidable (∃ taken ∈ older, _))

instance (older : List (Taken (Node σ) Event)) (taken : Taken (Node σ) Event) :
    Decidable (SparesUnsent older taken) :=
  inferInstanceAs (Decidable (_ ∧ _))

/-- The two messages of the boot are sent in the first dump. -/
theorem keeps_unsent_first_dump :
    ∃ (trace : List (Taken (Node Values) Event)) (node : Node Values),
      Run (step atomicStore) (boot defaultHub {} fun _ ↦ none) trace node ∧
        held node.ram.logs = [0, 1] ∧ node.ram.logs.heap.frees = [0, 1, 0, 1] ∧
          Along KeepsUnsent trace := by
  obtain ⟨trace, node, hrun, htest⟩ := exists_run_of_record (step atomicStore)
    (boot defaultHub {} fun _ ↦ none) dumpEvents
    (fun trace node ↦ held node.ram.logs == [0, 1] && node.ram.logs.heap.frees == [0, 1, 0, 1] &&
      decide (Along SparesUnsent trace)) (by decide +kernel)
  simp only [Bool.and_eq_true, beq_iff_eq, decide_eq_true_eq] at htest
  exact ⟨trace, node, hrun, htest.1.1, htest.1.2, (keeps_unsent_iff hrun).mpr htest.2⟩

/-- The way to the first dump, in which `calloc` fails. -/
def failedDumpEvents : List Event :=
  provisionEvents ++ connectEvents ++ turn ++ turn ++ turn ++ turn ++
    [.main { quietEnv with logarray := false }, .main quietEnv]

/-- After a dump that fails, `update_state` frees the messages that nobody has sent. -/
theorem failed_dump_drops : ¬ ∀ (hub : Hub) (env : Env) (store : Values)
    (trace : List (Taken (Node Values) Event)) (node : Node Values),
    Run (step atomicStore) (boot hub env store) trace node → Along KeepsUnsent trace := by
  intro hclaim
  obtain ⟨trace, node, hrun, htest⟩ := exists_run_of_record (step atomicStore)
    (boot defaultHub {} fun _ ↦ none) failedDumpEvents
    (fun trace _ ↦ trace.head?.any (fun taken ↦ (freed taken).contains 0 &&
        (held taken.after.ram.logs).contains 0) &&
      trace.all fun taken ↦ taken.after.ram.sent.all (·.topic != Connect.topicLogdump))
    (by decide +kernel)
  have halong := hclaim _ _ _ trace node hrun
  cases trace with
  | nil => simp at htest
  | cons taken older =>
      simp only [List.head?_cons, Option.any_some, Bool.and_eq_true, List.contains_iff_mem,
        List.all_eq_true, bne_iff_ne] at htest
      obtain ⟨⟨hfreed, hheld⟩, hother⟩ := htest
      obtain ⟨sending, hsending, _, publication, hsent, htopic, _⟩ :=
        halong.1.released 0 hfreed hheld
      exact hother sending hsending publication (hsent ▸ List.mem_cons_self) htopic

end DirtieNode.Main
