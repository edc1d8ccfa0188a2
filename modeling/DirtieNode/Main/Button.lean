import DirtieNode.Main.Steps

/-!
# The reset button

At the end of each turn `main` calls `basicio_init_handler`, which does not look at the button. So
a reset never comes from it, and `update_state` waits for a flag that no iteration sets.
-/

namespace DirtieNode.Main

open BasicIO Flashmem State Transition

variable {σ : Type} {ops : StoreOps σ} {node node' : Node σ}

/-- The sample at the end of an iteration, if the step is one. -/
def sample (taken : Taken (Node σ) Event) : Option Sample :=
  match taken.event, taken.before.pc with
  | .main env, .update _ => some ⟨env.pressed, env.now⟩
  | _, _ => none

/-- The step ends an iteration at which the button has been pressed for more than three seconds. -/
def EndsLongPress (older : List (Taken (Node σ) Event)) (taken : Taken (Node σ) Event) : Prop :=
  (sample taken).isSome = true ∧ LongPress ((taken :: older).filterMap sample)

instance (older : List (Taken (Node σ) Event)) (taken : Taken (Node σ) Event) :
    Decidable (EndsLongPress older taken) :=
  inferInstanceAs (Decidable (_ ∧ _))

/-- The context is in `WIFI_CONFIG`, where it waits for new credentials. -/
structure ResetDone (ctx : AppCtx) : Prop where
  state : ctx.loopState = .wifiConfig
  wifiConfigd : ctx.wifiConfigd = false
  mqttInitd : ctx.mqttInitd = false
  ntpSyncd : ctx.ntpSyncd = false

/-- An iteration sets `reset` exactly at the end of a long press, and its `update_state` acts on
the flag that it finds. -/
structure Honoured (older : List (Taken (Node σ) Event)) (taken : Taken (Node σ) Event) : Prop where
  set : (sample taken).isSome = true →
    (taken.after.ram.ctx.reset = true ↔ LongPress ((taken :: older).filterMap sample))
  done : (sample taken).isSome = true → taken.before.ram.ctx.reset = true →
    ResetDone taken.after.ram.ctx

/-- `update_state` acts on the flag and clears it. -/
theorem update_reset {ctx ctx' : AppCtx} {target : LoopState} {dumpLogs : Bool}
    (h : UpdateChange ctx target dumpLogs ctx') :
    ctx'.reset = false ∧ (ctx.reset = true → ResetDone ctx') := by
  cases h with
  | reset => exact ⟨rfl, fun _ ↦ ⟨rfl, rfl, rfl, rfl⟩⟩
  | publish h | dump h | switch h => exact ⟨h, fun hset ↦ absurd hset (by simp [h])⟩

/-- The end of an iteration leaves `reset` cleared, whatever the button does. -/
theorem sample_step {event : Event} (hstep : step ops node event = some node')
    (hsample : (sample ⟨node, event, node'⟩).isSome = true) :
    node'.ram.ctx.reset = false ∧
      (node.ram.ctx.reset = true → ResetDone node'.ram.ctx) := by
  unfold sample at hsample
  cases step_cases hstep with
  | async hasync =>
      cases event with
      | main env => exact hasync.elim
      | _ => simp at hsample
  | call hpc | writeSsid hpc | writePassword hpc | writeContract hpc => simp [hpc] at hsample
  | update _ hctx => exact update_reset hctx

/-- A step honours the button unless it ends a long press. -/
theorem honoured_step (older : List (Taken (Node σ) Event)) {event : Event}
    (hstep : step ops node event = some node') :
    Honoured older ⟨node, event, node'⟩ ↔ ¬ EndsLongPress older ⟨node, event, node'⟩ := by
  constructor
  · rintro ⟨hset, -⟩ ⟨hsample, hlong⟩
    have hreset := (hset hsample).mpr hlong
    rw [(sample_step hstep hsample).1] at hreset
    exact Bool.false_ne_true hreset
  · intro hshort
    refine ⟨fun hsample ↦ ?_, fun hsample ↦ (sample_step hstep hsample).2⟩
    refine iff_of_false ?_ fun hlong ↦ hshort ⟨hsample, hlong⟩
    rw [(sample_step hstep hsample).1]
    exact Bool.false_ne_true

/-- In a run of the loop the button is honoured exactly as long as it is never pressed for more
than three seconds. -/
theorem button_honoured_iff {hub : Hub} {env : Env} {store : σ}
    {trace : List (Taken (Node σ) Event)} (h : Run (step ops) (boot hub env store) trace node) :
    Along Honoured trace ↔ Along (fun older taken ↦ ¬ EndsLongPress older taken) trace :=
  h.along_iff (fun _ _ ↦ True) trivial (fun older _ _ _ _ _ hstep ↦ honoured_step older hstep)
    fun _ _ _ _ _ _ _ _ ↦ trivial

/-- A turn at whose end the button is sampled. -/
def sampledTurn (pressed : Bool) (now : Nat) : List Event :=
  [.main quietEnv, .main { quietEnv with pressed := pressed, now := now }]

/-- A press of two seconds. -/
theorem button_honoured_short_press :
    ∃ (trace : List (Taken (Node Values) Event)) (node : Node Values),
      Run (step atomicStore) freshNode trace node ∧ (trace.filterMap sample).length = 3 ∧
        Along Honoured trace := by
  obtain ⟨trace, node, hrun, htest⟩ := exists_run_of_record (step atomicStore) freshNode
    (sampledTurn true 1000000 ++ sampledTurn true 3000000 ++ sampledTurn false 5000000)
    (fun trace _ ↦ decide ((trace.filterMap sample).length = 3) &&
      decide (Along (fun older taken ↦ ¬ EndsLongPress older taken) trace)) (by decide +kernel)
  simp only [Bool.and_eq_true, decide_eq_true_eq] at htest
  exact ⟨trace, node, hrun, htest.1, (button_honoured_iff hrun).mpr htest.2⟩

/-- A press of four seconds sets nothing. -/
theorem long_press_ignored : ¬ ∀ (hub : Hub) (env : Env) (store : Values)
    (trace : List (Taken (Node Values) Event)) (node : Node Values),
    Run (step atomicStore) (boot hub env store) trace node → Along Honoured trace := by
  intro hclaim
  obtain ⟨trace, node, hrun, htest⟩ := exists_run_of_record (step atomicStore) freshNode
    (sampledTurn true 1000000 ++ sampledTurn true 5000000)
    (fun trace _ ↦ trace.head?.any fun taken ↦ (sample taken).isSome &&
      !taken.after.ram.ctx.reset && decide (LongPress (trace.filterMap sample)))
    (by decide +kernel)
  have halong := hclaim _ _ _ trace node hrun
  cases trace with
  | nil => simp at htest
  | cons taken older =>
      simp only [List.head?_cons, Option.any_some, Bool.and_eq_true, decide_eq_true_eq,
        Bool.not_eq_true'] at htest
      obtain ⟨⟨hsample, hreset⟩, hlong⟩ := htest
      have hset := (halong.1.set hsample).mpr hlong
      rw [hreset] at hset
      exact Bool.false_ne_true hset

end DirtieNode.Main
