import DirtieNode.Main.Steps

/-!
# Readiness

What the node has when it is in a state of the loop. The invariant relates the flags to each other,
because a reset and the two requests can move the loop at any time: the flags they ask for carry
what the target state needs.
-/

namespace DirtieNode.Main

open CString Flashmem Logger State Transition Util

/-- The relations between the flags and the state that every step keeps. -/
structure Flags (ctx : AppCtx) : Prop where
  below : ctx.loopState ≠ .loopStateCount
  early : ctx.loopState.toNat ≤ LoopState.flashWrite.toNat → ctx.mqttInitd = false
  client : ctx.mqttInitd = true → ctx.wifiConfigd = true ∧
    ∃ client, ctx.mqttClient = some client ∧ client.mqttClient ≠ none
  synced : ctx.ntpSyncd = true → ctx.senseInitd = true ∧ ctx.mqttInitd = true ∧
    ∃ ntp, ctx.ntpState = some ntp ∧ ntp.synced = true
  sensing : LoopState.senseInit.toNat ≤ ctx.loopState.toNat → ctx.mqttInitd = true
  clocked : LoopState.ntpSync.toNat ≤ ctx.loopState.toNat → ctx.senseInitd = true
  late : LoopState.mqttPublish.toNat ≤ ctx.loopState.toNat → ctx.ntpSyncd = true

/-- The invariant of the loop. Before the handler of `MQTT_INIT` there is no connection that it
could lose. -/
structure Inv {σ : Type} (node : Node σ) : Prop where
  flags : Flags node.ram.ctx
  writing : node.pc = .writePassword ∨ node.pc = .writeContract →
    node.ram.ctx.loopState = .flashWrite
  unconnected : node.ram.ctx.loopState = .mqttInit → node.pc = .call →
    node.ram.ctx.mqttInitd = false

variable {σ : Type} {ops : StoreOps σ} {env : Env} {err : DtErr} {node node' : Node σ}
  {ctx ctx' : AppCtx}

/-- The invariant holds after boot. -/
theorem inv_boot (hub : Hub) (env : Env) (store : σ) : Inv (boot hub env store) := by
  refine ⟨?_, by simp [boot], by simp [boot]⟩
  constructor <;> simp [boot, LoopState.toNat]

/-- Events between two steps keep the relations. -/
theorem inv_async {ram : Ram} (h : Inv node) (hram : AsyncChange node.ram ram) :
    Inv { node with ram := ram } := by
  cases hram with
  | none => exact h
  | accepted text =>
      exact { h with flags := { h.flags with
        client := fun hinit ↦ ⟨rfl, (h.flags.client hinit).2⟩ } }
  | tick hinit => exact { h with flags := { h.flags with } }
  | dump => exact { h with }
  | reset => exact { h with flags := { h.flags with } }
  | ntp e =>
      refine { h with flags := { h.flags with synced := fun hsyncd ↦ ?_ } }
      obtain ⟨hsense, hinit, ntp, hntp, hsynced⟩ := h.flags.synced hsyncd
      exact ⟨hsense, hinit, e.apply ntp, by simp [hntp], e.apply_synced hsynced⟩

/-- A handler sets the flag that the switch waits for in its state. -/
theorem flags_handler (h : Flags ctx)
    (hunconnected : ctx.loopState = .mqttInit → ctx.mqttInitd = false)
    (hctx : HandlerChange env ctx err ctx') : Flags ctx' := by
  cases hctx with
  | none => exact h
  | unread _ text => exact { h with }
  | unconfigured text => exact { h with }
  | restored text =>
      exact { h with client := fun hinit ↦ ⟨rfl, (h.client hinit).2⟩ }
  | unconnected _ client hstate =>
      have hinit := hunconnected hstate
      exact { h with client := fun hset ↦ absurd hset (by simp [hinit]) }
  | connected addr client inpub hstate hconfigd =>
      exact { h with
        early := fun hle ↦ absurd hle (by simp [hstate, LoopState.toNat])
        client := fun _ ↦ ⟨hconfigd, _, rfl, by simp⟩
        synced := fun hsyncd ↦ ⟨(h.synced hsyncd).1, rfl, (h.synced hsyncd).2.2⟩
        sensing := fun _ ↦ rfl }
  | sensing hstate =>
      exact { h with
        synced := fun hsyncd ↦ ⟨rfl, (h.synced hsyncd).2⟩
        clocked := fun _ ↦ rfl }
  | polled _ ntp hstate hkeeps =>
      have hready : ctx.senseInitd = true ∧ ctx.mqttInitd = true :=
        ⟨h.clocked (by simp [hstate]), h.sensing (by simp [hstate, LoopState.toNat])⟩
      refine { h with
        synced := fun hsyncd ↦ ⟨hready.1, hready.2, ntp, rfl, ?_⟩
        late := fun hle ↦ absurd hle (by simp [hstate, LoopState.toNat]) }
      -- an old flag means that the client was synchronised already
      rcases Bool.or_eq_true_iff.mp hsyncd with hnew | hold
      · exact hnew
      · obtain ⟨_, _, state, hntp, hsynced⟩ := h.synced hold
        exact (hkeeps state hntp).trans hsynced
  | measured _ hstate => exact { h with }

/-- The switch goes on by one place, and only when the flag that it asks for is set. -/
theorem switchTarget_flags (h : ctx.loopState ≠ .loopStateCount) :
    switchTarget ctx ≠ .loopStateCount ∧
      ((switchTarget ctx).toNat ≤ LoopState.flashWrite.toNat →
        ctx.loopState.toNat ≤ LoopState.flashWrite.toNat) ∧
      (LoopState.senseInit.toNat ≤ (switchTarget ctx).toNat →
        ctx.mqttInitd = true ∨ LoopState.senseInit.toNat ≤ ctx.loopState.toNat) ∧
      (LoopState.ntpSync.toNat ≤ (switchTarget ctx).toNat →
        ctx.senseInitd = true ∨ LoopState.ntpSync.toNat ≤ ctx.loopState.toNat) ∧
      (LoopState.mqttPublish.toNat ≤ (switchTarget ctx).toNat →
        ctx.ntpSyncd = true ∨ LoopState.mqttPublish.toNat ≤ ctx.loopState.toNat) := by
  unfold switchTarget
  cases hstate : ctx.loopState <;> dsimp only <;> repeat' split
  all_goals simp_all [LoopState.toNat]

/-- `update_state` goes where the flags allow it. -/
theorem flags_update {dumpLogs : Bool} (h : Flags ctx)
    (hctx : UpdateChange ctx (switchTarget ctx) dumpLogs ctx') : Flags ctx' := by
  have hready : ctx.ready = true → ctx.mqttInitd = true ∧ ctx.senseInitd = true ∧
      ctx.ntpSyncd = true := by
    intro hready
    simp only [AppCtx.ready, Bool.and_eq_true] at hready
    exact ⟨hready.1.2, hready.1.1.2, hready.2⟩
  cases hctx with
  | reset => constructor <;> simp [LoopState.toNat]
  | publish _ hset =>
      obtain ⟨hinit, hsense, hsyncd⟩ := hready hset
      exact ⟨by simp, fun hle ↦ absurd hle (by simp [LoopState.toNat]), h.client, h.synced,
        fun _ ↦ hinit, fun _ ↦ hsense, fun _ ↦ hsyncd⟩
  | dump _ hset =>
      obtain ⟨hinit, hsense, hsyncd⟩ := hready hset
      exact ⟨by simp, fun hle ↦ absurd hle (by simp [LoopState.toNat]), h.client, h.synced,
        fun _ ↦ hinit, fun _ ↦ hsense, fun _ ↦ hsyncd⟩
  | switch =>
      obtain ⟨hbelow, hearly, hsensing, hclocked, hlate⟩ := switchTarget_flags h.below
      exact ⟨hbelow, fun hle ↦ h.early (hearly hle), h.client, h.synced,
        fun hle ↦ (hsensing hle).elim id h.sensing, fun hle ↦ (hclocked hle).elim id h.clocked,
        fun hle ↦ (hlate hle).elim id h.late⟩

/-- The switch enters `MQTT_INIT` without a connection. -/
theorem unconnected_update {dumpLogs : Bool} (h : Flags ctx)
    (hctx : UpdateChange ctx (switchTarget ctx) dumpLogs ctx')
    (hstate : ctx'.loopState = .mqttInit) :
    ctx'.mqttInitd = false := by
  cases hctx with
  | reset => rfl
  | publish | dump => simp at hstate
  | switch =>
      have hearly := h.early
      dsimp only [switchTarget] at hstate ⊢
      cases hbefore : ctx.loopState <;> simp only [hbefore, LoopState.toNat] at * <;> grind

/-- Every step keeps the invariant. -/
theorem inv_step {event : Event} (h : Inv node) (hstep : step ops node event = some node') :
    Inv node' := by
  cases step_cases hstep with
  | async _ _ hram => exact inv_async h hram
  | call hcall _ _ hpc hctx =>
      exact ⟨flags_handler h.flags (fun hstate ↦ h.unconnected hstate hcall) hctx, by simp [hpc],
        by simp [hpc]⟩
  | writeSsid _ hstate hrun =>
      obtain ⟨hram, _, err, _, hpc⟩ := writeStep_cases hrun
      refine ⟨hram ▸ h.flags, fun _ ↦ hram ▸ hstate, fun hinit ↦ ?_⟩
      simp [hram, hstate] at hinit
  | writePassword hplace hrun =>
      obtain ⟨hram, _, err, _, hpc⟩ := writeStep_cases hrun
      have hstate := h.writing (.inl hplace)
      refine ⟨hram ▸ h.flags, fun _ ↦ hram ▸ hstate, fun hinit ↦ ?_⟩
      simp [hram, hstate] at hinit
  | writeContract hplace hrun =>
      obtain ⟨err, _, hpc, _, hctx⟩ := writeContract_cases hrun
      refine ⟨?_, by simp [hpc], by simp [hpc]⟩
      rw [hctx]
      split
      · exact { h.flags with }
      · exact h.flags
  | update _ hctx =>
      exact ⟨flags_update h.flags hctx, by simp [updateStep],
        fun hstate _ ↦ unconnected_update h.flags hctx hstate⟩

/-- The invariant holds in every state that the node can reach. -/
theorem inv_reachable {hub : Hub} {store : σ} (h : Reachable (step ops) (boot hub env store) node) :
    Inv node := by
  obtain ⟨trace, hrun⟩ := h
  exact hrun.invariant Inv (inv_boot hub env store) fun _ _ _ ↦ inv_step

/-- What the handlers of a state rely on. -/
structure Readiness (ctx : AppCtx) : Prop where
  below : ctx.loopState.toNat < LoopState.loopStateCount.toNat
  connected : LoopState.senseInit.toNat ≤ ctx.loopState.toNat →
    ctx.wifiConfigd = true ∧ ctx.mqttInitd = true ∧
      ∃ client, ctx.mqttClient = some client ∧ client.mqttClient ≠ none
  sensing : LoopState.ntpSync.toNat ≤ ctx.loopState.toNat → ctx.senseInitd = true
  clocked : LoopState.mqttPublish.toNat ≤ ctx.loopState.toNat →
    ctx.ntpSyncd = true ∧ ∃ ntp, ctx.ntpState = some ntp ∧ ntp.synced = true
  epoch : LoopState.mqttPublish.toNat ≤ ctx.loopState.toNat →
    ∀ nowMs, (getCurrentEpoch nowMs ctx.ntpState).1 = .ok

/-- The flags of a state tell what is ready in it. -/
theorem readiness_of_flags (h : Flags ctx) : Readiness ctx where
  below := by
    have hbelow := h.below
    cases hstate : ctx.loopState <;> simp_all [LoopState.toNat]
  connected := fun hle ↦
    have hinit := h.sensing hle
    ⟨(h.client hinit).1, hinit, (h.client hinit).2⟩
  sensing := h.clocked
  clocked := fun hle ↦ ⟨h.late hle, (h.synced (h.late hle)).2.2⟩
  epoch := fun hle nowMs ↦ by
    obtain ⟨ntp, hntp, hsynced⟩ := (h.synced (h.late hle)).2.2
    rw [hntp]
    exact getCurrentEpoch_synced hsynced nowMs

/-- In every state that a run from boot reaches, over any store, its handlers have what they
need. -/
theorem readiness {hub : Hub} {store : σ} (h : Reachable (step ops) (boot hub env store) node) :
    Readiness node.ram.ctx :=
  readiness_of_flags (inv_reachable h).flags

/-- The loop gets to `MQTT_PUBLISH`, with everything that its handler needs. -/
theorem readiness_first_publish : ∃ node : Node Values,
    Reachable (step atomicStore) freshNode node ∧ node.ram.ctx.loopState = .mqttPublish ∧
      Readiness node.ram.ctx := by
  obtain ⟨trace, node, hrun, hstate⟩ := exists_run_of_record (step atomicStore) freshNode
    (provisionEvents ++ connectEvents) (fun _ node ↦ node.ram.ctx.loopState == .mqttPublish)
    (by decide +kernel)
  exact ⟨node, ⟨trace, hrun⟩, by simpa using hstate, readiness ⟨trace, hrun⟩⟩

end DirtieNode.Main
