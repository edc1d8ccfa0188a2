import DirtieNode.Main.Publications

/-!
# The way to the working cycle

Each state in front of `MQTT_PUBLISH` is left when its handler has done its work: it sets a flag, or
it waits for one that a request or the NTP client sets. Nothing else keeps the loop from working
than errors, waiting and resets.
-/

namespace DirtieNode.Main

open CString Flashmem Logger State Transition Util

variable {σ : Type} {ops : StoreOps σ} {env : Env} {err : DtErr} {node node' : Node σ}
  {event : Event} {trace : List (Taken (Node σ) Event)}

/-- The flag that a handler sets when it succeeds. -/
def initialised (ctx : AppCtx) : Bool :=
  match ctx.loopState with
  | .flashInit => ctx.flashInitd
  | .flashWrite => ctx.flashWritten
  | .mqttInit => ctx.mqttInitd
  | .senseInit => ctx.senseInitd
  | _ => true

/-- The flag that a handler waits for is missing. -/
def waiting (ctx : AppCtx) : Bool :=
  match ctx.loopState with
  | .wifiConfig => !ctx.wifiConfigd
  | .ntpSync => !ctx.ntpSyncd
  | _ => false

/-- The states that are left until `MQTT_PUBLISH`. -/
def statesLeft (node : Node σ) : Nat :=
  LoopState.mqttPublish.toNat - node.ram.ctx.loopState.toNat

/-- The step ends a turn in front of `MQTT_PUBLISH` whose handler succeeds and has nothing to wait
for. -/
def unhindered (taken : Taken (Node σ) Event) : Bool :=
  match taken.event, taken.before.pc with
  | .main _, .update err =>
      decide (err = .ok ∧ 0 < statesLeft taken.before) && !waiting taken.before.ram.ctx
  | _, _ => false

/-! ## What a successful handler leaves behind -/

/-- Behind a handler that succeeds, its flag is set. -/
def SucceedsInitialised (node : Node σ) : Prop :=
  node.pc = .update .ok → initialised node.ram.ctx = true

/-- An event between the steps of `main` keeps the flag of the state. -/
theorem initialised_async {ram ram' : Ram} (h : AsyncChange ram ram') :
    initialised ram'.ctx = initialised ram.ctx := by
  cases h <;> rfl

/-- Only the handlers of four states have a flag to set. -/
theorem initialised_of_state {ctx : AppCtx} (hflash : ctx.loopState ≠ .flashInit)
    (hwrite : ctx.loopState ≠ .flashWrite) (hmqtt : ctx.loopState ≠ .mqttInit)
    (hsense : ctx.loopState ≠ .senseInit) : initialised ctx = true := by
  unfold initialised
  cases hstate : ctx.loopState <;> first | rfl | contradiction

/-- Of the handlers that touch only memory, those of two states have one. -/
theorem initialised_ramHandler {ram ram' : Ram}
    (hrun : ramHandler env ram ram.ctx.loopState = some (.ok, ram')) :
    initialised ram'.ctx = true := by
  have hkept : ram'.ctx.loopState = ram.ctx.loopState :=
    (configd_handler (ramHandler_cases rfl hrun)).1
  by_cases hmqtt : ram.ctx.loopState = .mqttInit
  · rw [hmqtt] at hrun
    rcases mqttInitHandler_ctx (Option.some.inj hrun) with ⟨_, _, _, _, _, hctx⟩ | ⟨hfailed, _⟩
    · simp [initialised, hctx, hmqtt]
    · exact absurd rfl hfailed
  by_cases hsense : ram.ctx.loopState = .senseInit
  · rw [hsense] at hrun
    rcases senseInitHandler_ctx (Option.some.inj hrun) with ⟨_, hctx⟩ | ⟨hfailed, _⟩
    · simp [initialised, hctx, hsense]
    · exact absurd rfl hfailed
  have hother : ∀ state, ramHandler env ram state = none → ram.ctx.loopState ≠ state := by
    intro state hnone hstate
    rw [hstate, hnone] at hrun
    exact absurd hrun (by simp)
  have hflash : ram.ctx.loopState ≠ .flashInit := hother _ rfl
  have hwrite : ram.ctx.loopState ≠ .flashWrite := hother _ rfl
  apply initialised_of_state <;> rwa [hkept]

/-- A handler other than `flash_write_handler` sets its flag when it succeeds. -/
theorem initialised_call (hwrite : node.ram.ctx.loopState ≠ .flashWrite)
    (hrun : callHandler ops env node = some node') (hpc : node'.pc = .update .ok) :
    initialised node'.ram.ctx = true := by
  cases handlerCall hrun with
  | flashInit hstate hinit =>
      obtain rfl := Pc.update.inj hpc
      obtain ⟨text, ⟨hfailed, _⟩ | ⟨_, rfl⟩ | ⟨_, rfl⟩⟩ := flashInitHandler_ctx hinit
      · exact absurd rfl hfailed
      · simp [initialised, hstate]
      · simp [initialised, hstate]
  | wifiConfig _ _ hstate => simp [initialised, hstate]
  | flashWrite hstate => exact absurd hstate hwrite
  | ram hhandler =>
      obtain rfl := Pc.update.inj hpc
      exact initialised_ramHandler hhandler

/-- Each step keeps what a successful handler leaves behind. -/
theorem succeedsInitialised_step (hinv : Inv node) (hdone : SucceedsInitialised node)
    (h : step ops node event = some node') : SucceedsInitialised node' := by
  intro hpc
  cases step_cases h with
  | async _ _ hram =>
      rw [initialised_async hram]
      exact hdone hpc
  | call _ hstate hrun => exact initialised_call hstate hrun hpc
  | writeSsid _ _ hrun | writePassword _ hrun =>
      obtain ⟨_, _, err, _, hplace⟩ := writeStep_cases hrun
      rw [hplace] at hpc
      split at hpc
      · exact absurd hpc (by simp)
      · exact absurd (Pc.update.inj hpc) ‹_›
  | writeContract hplace hrun =>
      obtain ⟨err, _, hupdate, _, hctx⟩ := writeContract_cases hrun
      obtain rfl : err = .ok := Pc.update.inj (hupdate.symm.trans hpc)
      rw [hctx, if_pos rfl]
      simp [initialised, hinv.writing (.inr hplace)]
  | update => exact absurd hpc (by simp [updateStep])

/-! ## Turns -/

/-- The switch never goes back in front of `MQTT_PUBLISH`, and it goes on when the flag of the state
is set. -/
theorem switchTarget_left (ctx : AppCtx) :
    LoopState.mqttPublish.toNat - (switchTarget ctx).toNat ≤
        LoopState.mqttPublish.toNat - ctx.loopState.toNat ∧
      (initialised ctx = true → waiting ctx = false →
        ctx.loopState.toNat < LoopState.mqttPublish.toNat →
          LoopState.mqttPublish.toNat - (switchTarget ctx).toNat <
            LoopState.mqttPublish.toNat - ctx.loopState.toNat) := by
  unfold switchTarget initialised waiting
  cases ctx.loopState with
  | flashInit =>
      cases ctx.flashInitd <;> cases ctx.wifiConfigd <;> simp [LoopState.toNat]
  | wifiConfig => cases ctx.wifiConfigd <;> simp [LoopState.toNat]
  | flashWrite => cases ctx.flashWritten <;> simp [LoopState.toNat]
  | mqttInit => cases ctx.mqttInitd <;> simp [LoopState.toNat]
  | senseInit => cases ctx.senseInitd <;> simp [LoopState.toNat]
  | ntpSync => cases ctx.ntpSyncd <;> simp [LoopState.toNat]
  | _ => simp [LoopState.toNat]

/-- A step that ends no turn is none of those that count. -/
theorem unhindered_eq_false (h : (∀ err, node.pc ≠ .update err) ∨ event.async) :
    unhindered ⟨node, event, node'⟩ = false := by
  unfold unhindered
  split
  · rename_i hevent hpc
    dsimp only at hevent hpc
    rcases h with hplace | hasync
    · exact absurd hpc (hplace _)
    · rw [hevent] at hasync
      exact hasync.elim
  · rfl

/-- No handler leaves its state. -/
theorem statesLeft_congr (h : node'.ram.ctx.loopState = node.ram.ctx.loopState) :
    statesLeft node' = statesLeft node := by
  rw [statesLeft, statesLeft, h]

/-- A turn that nothing hinders leaves a state behind, and only a reset takes the loop back. -/
theorem statesLeft_step (hdone : SucceedsInitialised node) (h : step ops node event = some node') :
    statesLeft node' + (unhindered ⟨node, event, node'⟩).toNat ≤
      statesLeft node + 5 * (resets ⟨node, event, node'⟩).toNat := by
  have hkept : ((∀ err, node.pc ≠ .update err) ∨ event.async) →
      node'.ram.ctx.loopState = node.ram.ctx.loopState →
      statesLeft node' + (unhindered ⟨node, event, node'⟩).toNat ≤
        statesLeft node + 5 * (resets ⟨node, event, node'⟩).toNat := by
    intro hplace hstate
    rw [unhindered_eq_false hplace, statesLeft_congr hstate]
    exact Nat.le_add_right _ _
  cases step_cases h with
  | async hasync _ hram => exact hkept (.inr hasync) (loopState_async hram)
  | call hcall _ _ _ hctx => exact hkept (.inl (by simp [hcall])) (configd_handler hctx).1
  | writeSsid hpc _ hrun | writePassword hpc hrun =>
      exact hkept (.inl (by simp [hpc])) (by rw [(writeStep_cases hrun).1])
  | writeContract hpc hrun =>
      obtain ⟨_, _, _, _, hctx⟩ := writeContract_cases hrun
      refine hkept (.inl (by simp [hpc])) ?_
      rw [hctx]
      split <;> rfl
  | @update env err hpc hctx =>
      have hunhindered : unhindered ⟨node, .main env, updateStep env err node⟩ =
          (decide (err = .ok ∧ 0 < statesLeft node) && !waiting node.ram.ctx) := by
        simp only [unhindered, hpc]
      have hresets : resets ⟨node, .main env, updateStep env err node⟩ = node.ram.ctx.reset := by
        simp only [resets, hpc]
      have hone : (unhindered ⟨node, .main env, updateStep env err node⟩).toNat ≤
          statesLeft node := by
        rw [hunhindered]
        by_cases hleft : 0 < statesLeft node
        · exact (Bool.toNat_le _).trans hleft
        · simp [hleft]
      have hbegin : LoopState.mqttPublish.toNat - LoopState.wifiConfig.toNat = 5 := rfl
      have hworks : LoopState.mqttPublish.toNat - LoopState.logdump.toNat = 0 := rfl
      rw [hresets]
      have hafter : statesLeft (updateStep env err node) = LoopState.mqttPublish.toNat -
          (updateStep env err node).ram.ctx.loopState.toNat := rfl
      rw [hafter]
      generalize (updateStep env err node).ram.ctx = ctx at hctx
      cases hctx with
      | reset hreset =>
          -- what the reset adds pays for the states from `WIFI_CONFIG` on
          rw [hreset]
          show LoopState.mqttPublish.toNat - LoopState.wifiConfig.toNat + _ ≤ _ + 5
          omega
      | publish | dump =>
          dsimp only
          omega
      | switch =>
          obtain ⟨hstays, hleaves⟩ := switchTarget_left node.ram.ctx
          refine Nat.le_trans ?_ (Nat.le_add_right _ _)
          cases hclear : unhindered ⟨node, .main env, updateStep env err node⟩ with
          | false => exact hstays
          | true =>
              rw [hunhindered, Bool.and_eq_true, decide_eq_true_eq] at hclear
              obtain ⟨⟨rfl, hleft⟩, hready⟩ := hclear
              have hfront : node.ram.ctx.loopState.toNat < LoopState.mqttPublish.toNat :=
                Nat.lt_of_sub_pos hleft
              exact hleaves (hdone hpc) (by simpa using hready) hfront

/-- In every run, the turns in front of `MQTT_PUBLISH` that no error and no waiting hinders, and the
states that are still left, are at most six and five for each reset. -/
theorem startup_turns_le {hub : Hub} {store : σ}
    (h : Run (step ops) (boot hub env store) trace node) :
    statesLeft node + trace.countP unhindered ≤ 6 + 5 * trace.countP resets := by
  have hall : ∀ taken ∈ trace, True := fun _ _ ↦ trivial
  have hstart : Inv (boot hub env store) ∧ SucceedsInitialised (boot hub env store) :=
    ⟨inv_boot hub env store, fun hpc ↦ absurd hpc (by simp [boot])⟩
  exact h.budget (fun node ↦ Inv node ∧ SucceedsInitialised node) statesLeft 5 unhindered resets
    hall hstart
    (fun _ _ _ hbefore hstep _ ↦
      ⟨inv_step hbefore.1 hstep, succeedsInitialised_step hbefore.1 hbefore.2 hstep⟩)
    fun _ _ _ hbefore hstep _ ↦ statesLeft_step hbefore.2 hstep

/-- Six turns to the first measurement, and five after a reset and a second request. -/
theorem startup_turns_le_reset : ∃ (trace : List (Taken (Node Values) Event)) (node : Node Values),
    Run (step atomicStore) freshNode trace node ∧ trace.countP unhindered = 11 ∧
      trace.countP resets = 1 ∧
        statesLeft node + trace.countP unhindered ≤ 6 + 5 * trace.countP resets := by
  obtain ⟨trace, node, hrun, htest⟩ := exists_run_of_record (step atomicStore) freshNode
    (provisionEvents ++ connectEvents ++ .resetRequest :: turn ++ .post homeRequest :: turn ++
      turn ++ turn ++ connectEvents)
    (fun trace _ ↦ trace.countP unhindered == 11 && trace.countP resets == 1) (by decide +kernel)
  simp only [Bool.and_eq_true, beq_iff_eq] at htest
  exact ⟨trace, node, hrun, htest.1, htest.2, startup_turns_le hrun⟩

end DirtieNode.Main
