import DirtieNode.Main.PublishRequest

/-!
# Credentials are persisted

`update_state` leaves `FLASH_WRITE` on a flag that `flash_init_handler` sets too and that no reset
clears. A trace has its newest step first, so that what has happened since `FLASH_WRITE` was entered
is at the front of the history of a step.
-/

namespace DirtieNode.Main

open CString Flashmem Logger State Transition Util

variable {σ : Type} {ops : StoreOps σ} {env : Env} {node node' : Node σ}

/-- `flash_write_handler` returns `DT_ERR_OK`. -/
def WriteReturned (taken : Taken (Node σ) Event) : Prop :=
  taken.before.pc = .writeContract ∧ taken.after.pc = .update .ok

/-- It has done so since `FLASH_WRITE` was entered. -/
def WrittenSinceEntry : List (Taken (Node σ) Event) → Prop
  | [] => False
  | taken :: older =>
      taken.before.ram.ctx.loopState = .flashWrite ∧
        (WriteReturned taken ∨ WrittenSinceEntry older)

/-- The move from `FLASH_WRITE` to `MQTT_INIT` comes after a successful write. -/
def PersistsFirst (older : List (Taken (Node σ) Event)) (taken : Taken (Node σ) Event) : Prop :=
  taken.before.ram.ctx.loopState = .flashWrite → taken.after.ram.ctx.loopState = .mqttInit →
    WrittenSinceEntry older

/-- `update_state` does not find, after a failed visit of `FLASH_WRITE`, the flag of an earlier
success, unless a reset is pending. -/
def NoStaleFlag (taken : Taken (Node σ) Event) : Prop :=
  ∀ env err, taken.event = .main env → taken.before.pc = .update err →
    taken.before.ram.ctx.loopState = .flashWrite → taken.before.ram.ctx.flashWritten = true →
    err = .ok ∨ taken.before.ram.ctx.reset = true

/-- In `FLASH_WRITE`, the place of the program tells whether the handler has succeeded. -/
structure WriteInv (older : List (Taken (Node σ) Event)) (node : Node σ) : Prop where
  inv : Inv node
  pending : node.ram.ctx.loopState = .flashWrite → node.pc ≠ .update .ok →
    ¬ WrittenSinceEntry older
  written : node.ram.ctx.loopState = .flashWrite → node.pc = .update .ok →
    WrittenSinceEntry older ∧ node.ram.ctx.flashWritten = true

/-- A handler does not change the state of the loop. -/
theorem loopState_handler {ctx ctx' : AppCtx} {err : DtErr} (h : HandlerChange env ctx err ctx') :
    ctx'.loopState = ctx.loopState := by
  cases h <;> rfl

/-- What `update_state` does in `FLASH_WRITE`. -/
theorem update_flashWrite {ctx ctx' : AppCtx} {dumpLogs : Bool} (h : Flags ctx)
    (hstate : ctx.loopState = .flashWrite)
    (hctx : UpdateChange ctx (switchTarget ctx) dumpLogs ctx') :
    ctx.reset = true ∧ ctx'.loopState = .wifiConfig ∨
      ctx.reset = false ∧ ctx' = { ctx with
        loopState := if ctx.flashWritten then .mqttInit else .flashWrite } := by
  have hready : ctx.ready = false := by
    have hinit := h.early (by simp [hstate])
    simp [AppCtx.ready, hinit]
  cases hctx with
  | reset hreset => exact .inl ⟨hreset, rfl⟩
  | publish _ hset => simp [hready] at hset
  | dump _ hset => simp [hready] at hset
  | switch hreset => exact .inr ⟨hreset, by simp [switchTarget, hstate]⟩

/-- A step other than `update_state` does not move the loop. -/
theorem loopState_step {event : Event} (hstep : step ops node event = some node')
    (hmove : node'.ram.ctx.loopState ≠ node.ram.ctx.loopState) :
    ∃ env err, event = .main env ∧ node.pc = .update err ∧ node' = updateStep env err node := by
  cases step_cases hstep with
  | async _ _ hram => exact absurd (loopState_async hram) hmove
  | call _ _ _ _ hctx => exact absurd (loopState_handler hctx) hmove
  | writeSsid _ _ hrun => exact absurd (by rw [(writeStep_cases hrun).1]) hmove
  | writePassword _ hrun => exact absurd (by rw [(writeStep_cases hrun).1]) hmove
  | writeContract _ hrun =>
      obtain ⟨err, _, _, _, hctx⟩ := writeContract_cases hrun
      refine absurd ?_ hmove
      rw [hctx]
      split <;> rfl
  | update hpc => exact ⟨_, _, rfl, hpc, rfl⟩

/-- `update_state` in `FLASH_WRITE` looks at the flag, and a success since the entry would have
set it. -/
theorem persistsFirst_step {older : List (Taken (Node σ) Event)} {event : Event}
    (h : WriteInv older node) (hstep : step ops node event = some node') :
    PersistsFirst older ⟨node, event, node'⟩ ↔ NoStaleFlag ⟨node, event, node'⟩ := by
  unfold PersistsFirst NoStaleFlag
  dsimp only
  constructor
  · rintro hfirst env err rfl hpc hstate hflag
    obtain rfl : updateStep env err node = node' := by
      simpa [step, mainStep, hpc] using hstep
    rcases update_flashWrite h.inv.flags hstate (updateStep_cases env err node) with
      ⟨hreset, _⟩ | ⟨_, hctx⟩
    · exact .inr hreset
    · have hwritten := hfirst hstate (by rw [hctx]; simp [hflag])
      by_contra hfailed
      exact h.pending hstate (by simpa [hpc] using fun herr ↦ hfailed (.inl herr)) hwritten
  · intro hflag hstate hafter
    obtain ⟨env, err, rfl, hpc, rfl⟩ := loopState_step hstep (by simp [hstate, hafter])
    rcases update_flashWrite h.inv.flags hstate (updateStep_cases env err node) with
      ⟨_, hconfig⟩ | ⟨hreset, hctx⟩
    · simp [hconfig] at hafter
    · have hset : node.ram.ctx.flashWritten = true := by
        rw [hctx] at hafter
        by_contra hclear
        simp [hclear] at hafter
      rcases hflag env err rfl hpc hstate hset with rfl | hpending
      · exact (h.written hstate hpc).1
      · simp [hreset] at hpending

/-- A step keeps the account of the writes. -/
theorem writeInv_step {older : List (Taken (Node σ) Event)} {event : Event}
    (h : WriteInv older node) (hstep : step ops node event = some node') :
    WriteInv (⟨node, event, node'⟩ :: older) node' := by
  have hinv := inv_step h.inv hstep
  cases step_cases hstep with
  | async _ _ hram =>
      have hstate := loopState_async hram
      refine ⟨hinv, fun hflash hpc ↦ ?_, fun hflash hpc ↦ ?_⟩
      · rintro ⟨_, ⟨_, hafter⟩ | hwritten⟩
        · exact hpc hafter
        · exact h.pending (hstate ▸ hflash) hpc hwritten
      · obtain ⟨hwritten, hflag⟩ := h.written (hstate ▸ hflash) hpc
        refine ⟨⟨hstate ▸ hflash, .inr hwritten⟩, ?_⟩
        cases hram <;> exact hflag
  | call _ hstate _ _ hctx =>
      have hsame := loopState_handler hctx
      exact ⟨hinv, fun hflash ↦ absurd (hsame ▸ hflash) hstate,
        fun hflash ↦ absurd (hsame ▸ hflash) hstate⟩
  | writeSsid hcall hstate hrun =>
      obtain ⟨hram, _, err, _, hpc⟩ := writeStep_cases hrun
      refine ⟨hinv, fun _ _ ↦ ?_, fun _ hok ↦ ?_⟩
      · rintro ⟨_, ⟨hbefore, _⟩ | hwritten⟩
        · simp [hcall] at hbefore
        · exact h.pending hstate (by simp [hcall]) hwritten
      · rw [hpc] at hok
        split at hok <;> simp_all
  | writePassword hplace hrun =>
      obtain ⟨hram, _, err, _, hpc⟩ := writeStep_cases hrun
      have hstate := h.inv.writing (.inl hplace)
      refine ⟨hinv, fun _ _ ↦ ?_, fun _ hok ↦ ?_⟩
      · rintro ⟨_, ⟨hbefore, _⟩ | hwritten⟩
        · simp [hplace] at hbefore
        · exact h.pending hstate (by simp [hplace]) hwritten
      · rw [hpc] at hok
        split at hok <;> simp_all
  | writeContract hplace hrun =>
      obtain ⟨err, _, hpc, _, hctx⟩ := writeContract_cases hrun
      have hstate := h.inv.writing (.inr hplace)
      refine ⟨hinv, fun _ hfailed ↦ ?_, fun _ hok ↦ ?_⟩
      · rintro ⟨_, ⟨_, hafter⟩ | hwritten⟩
        · exact hfailed hafter
        · exact h.pending hstate (by simp [hplace]) hwritten
      · obtain rfl : err = .ok := Pc.update.inj (hpc.symm.trans hok)
        exact ⟨⟨hstate, .inl ⟨hplace, hpc⟩⟩, by rw [hctx]; rfl⟩
  | @update env err hpc hctx =>
      refine ⟨hinv, fun hflash _ ↦ ?_, fun _ hok ↦ by simp [updateStep] at hok⟩
      rintro ⟨hstate, ⟨hbefore, _⟩ | hwritten⟩
      · simp [hpc] at hbefore
      · -- the loop has stayed in `FLASH_WRITE`, so the flag was not set
        rcases update_flashWrite h.inv.flags hstate hctx with ⟨_, hconfig⟩ | ⟨_, hkept⟩
        · simp [hconfig] at hflash
        · have hclear : node.ram.ctx.flashWritten = false := by
            rw [hkept] at hflash
            by_contra hset
            simp [hset] at hflash
          by_cases herr : err = .ok
          · have hflag := (h.written hstate (herr ▸ hpc)).2
            simp [hclear] at hflag
          · exact h.pending hstate (by simpa [hpc] using herr) hwritten

/-- A run leaves `FLASH_WRITE` for `MQTT_INIT` only with written credentials exactly when no
`update_state` of it finds a stale flag after a failed visit. -/
theorem persisted_iff {hub : Hub} {store : σ} {trace : List (Taken (Node σ) Event)}
    (h : Run (step ops) (boot hub env store) trace node) :
    Along PersistsFirst trace ↔ ∀ taken ∈ trace, NoStaleFlag taken := by
  rw [← along_forall]
  refine h.along_iff WriteInv ⟨inv_boot hub env store, by simp [boot], by simp [boot]⟩
    (fun older before event after _ hinv hstep ↦ ?_)
    (fun older before event after _ hinv hstep _ ↦ ?_)
  · exact persistsFirst_step hinv hstep
  · exact writeInv_step hinv hstep

/-- A first provisioning writes before it moves on. -/
theorem persisted_first_time : ∃ (trace : List (Taken (Node Values) Event)) (node : Node Values),
    Run (step atomicStore) freshNode trace node ∧ node.ram.ctx.loopState = .mqttInit ∧
      Along PersistsFirst trace := by
  obtain ⟨trace, node, hrun, htest⟩ := exists_run_of_record (step atomicStore) freshNode
    provisionEvents (fun trace node ↦ node.ram.ctx.loopState == .mqttInit &&
      trace.all fun taken ↦ taken.before.pc == .update .ok || !taken.before.ram.ctx.flashWritten)
    (by decide +kernel)
  simp only [Bool.and_eq_true, beq_iff_eq, List.all_eq_true, Bool.or_eq_true,
    Bool.not_eq_true'] at htest
  refine ⟨trace, node, hrun, htest.1, (persisted_iff hrun).mpr fun taken hmem ↦ ?_⟩
  intro env err _ hpc _ hflag
  rcases htest.2 taken hmem with hok | hclear
  · exact .inl (Pc.update.inj (hpc.symm.trans hok))
  · simp [hclear] at hflag

/-- A store that was provisioned once and does not take another value. -/
def fullStore : StoreOps Values :=
  { atomicStore with write := fun _ _ values ↦ some (.flashmemsize, values) }

/-- A write since the entry of `FLASH_WRITE` has returned. -/
theorem exists_returned {trace : List (Taken (Node σ) Event)} (h : WrittenSinceEntry trace) :
    ∃ taken ∈ trace, WriteReturned taken := by
  induction trace with
  | nil => exact absurd h id
  | cons taken older ih =>
      rcases h.2 with hreturned | hrest
      · exact ⟨taken, by simp, hreturned⟩
      · obtain ⟨other, hmem, hreturned⟩ := ih hrest
        exact ⟨other, List.mem_cons_of_mem _ hmem, hreturned⟩

/-- A node that boots from flash is reset and provisioned again. The write fails, and the flag of
the boot takes the loop to `MQTT_INIT`. -/
theorem persisted_by_stale_flag : ¬ ∀ (store : Values) (trace : List (Taken (Node Values) Event))
    (node : Node Values), Run (step fullStore) (boot defaultHub quietEnv store) trace node →
      Along PersistsFirst trace := by
  intro hclaim
  let store : Values := fun _ ↦ some (lit "old")
  obtain ⟨trace, node, hrun, htest⟩ := exists_run_of_record (step fullStore)
    (boot defaultHub quietEnv store)
    (turn ++ .resetRequest :: turn ++ .post homeRequest :: turn ++ turn)
    (fun trace _ ↦ trace.head?.any (fun taken ↦
        taken.before.ram.ctx.loopState == .flashWrite &&
          taken.after.ram.ctx.loopState == .mqttInit) &&
      trace.all fun taken ↦ taken.before.pc != .writeContract)
    (by decide +kernel)
  cases trace with
  | nil => simp at htest
  | cons taken older =>
      simp only [List.head?_cons, Option.any_some, Bool.and_eq_true, beq_iff_eq,
        List.all_eq_true] at htest
      obtain ⟨⟨hbefore, hafter⟩, hnone⟩ := htest
      obtain ⟨other, hmem, hplace, _⟩ :=
        exists_returned ((hclaim store _ node hrun).1 hbefore hafter)
      have := hnone other (List.mem_cons_of_mem _ hmem)
      simp [hplace] at this

end DirtieNode.Main
