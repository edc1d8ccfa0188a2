import DirtieNode.Main.Persist

/-!
# What is published

A publication carries the two values in the context. They are those of the last visit of
`SENSE_LISTEN`, and `MQTT_PUBLISH` can come before the first one.
-/

namespace DirtieNode.Main

open CString Flashmem Logger State Transition Util

variable {σ : Type} {ops : StoreOps σ} {env : Env} {node node' : Node σ}

/-- The outcomes of the step, if it is the call of the handler of this state. -/
def called (state : LoopState) (taken : Taken (Node σ) Event) : Option Env :=
  match taken.event with
  | .main env =>
      if taken.before.pc = .call ∧ taken.before.ram.ctx.loopState = state then some env else none
  | _ => none

/-- The outcomes of the last call of `sense_listen_handler` since boot. -/
def lastSensed : List (Taken (Node σ) Event) → Option Env
  | [] => none
  | taken :: older => (called .senseListen taken).or (lastSensed older)

/-- Neither of the two reads reported an error. -/
def NoReadError (env : Env) : Prop :=
  0 ≤ env.capacitance.numBytesRead ∧ 0 ≤ env.temperature.numBytesRead

instance (env : Env) : Decidable (NoReadError env) :=
  inferInstanceAs (Decidable (_ ∧ _))

/-- What a call of `mqtt_publish_handler` publishes are the values that the last call of
`sense_listen_handler` read, without an error. -/
def PublishesMeasured (older : List (Taken (Node σ) Event)) (taken : Taken (Node σ) Event) : Prop :=
  ∀ env ∈ called .mqttPublish taken, ∀ publication,
    taken.after.ram.sent = publication :: taken.before.ram.sent →
    ∃ sensing ∈ lastSensed older, NoReadError sensing ∧
      publication.message = Connect.breadcrumbPayload env (taken.before.ram.ctx.text.str prvToken)
        (Sensor.seesawRead16 sensing.capacitance) (Sensor.seesawRead16 sensing.temperature)

/-- A call of `mqtt_publish_handler` that has memory for its message comes after a call of
`sense_listen_handler`, and the last one made its reads without an error. -/
def SensesFirst (older : List (Taken (Node σ) Event)) (taken : Taken (Node σ) Event) : Prop :=
  ∀ env ∈ called .mqttPublish taken, env.payload = true →
    ∃ sensing ∈ lastSensed older, NoReadError sensing

instance (older : List (Taken (Node σ) Event)) (taken : Taken (Node σ) Event) :
    Decidable (SensesFirst older taken) :=
  inferInstanceAs (Decidable (∀ _ ∈ _, _ → ∃ _ ∈ _, _))

/-- The values in the context are those of the last reads. -/
def ValuesInv (older : List (Taken (Node σ) Event)) (node : Node σ) : Prop :=
  ∀ sensing ∈ lastSensed older,
    node.ram.ctx.capacitance = Sensor.seesawRead16 sensing.capacitance ∧
      node.ram.ctx.temperature = Sensor.seesawRead16 sensing.temperature

/-- The step is the call of the handler of this state. -/
theorem called_eq_some {state : LoopState} {taken : Taken (Node σ) Event} :
    called state taken = some env ↔ taken.event = .main env ∧ taken.before.pc = .call ∧
      taken.before.ram.ctx.loopState = state := by
  unfold called
  cases taken.event <;> simp
  constructor
  · rintro ⟨hplace, rfl⟩
    exact ⟨rfl, hplace⟩
  · rintro ⟨rfl, hplace⟩
    exact ⟨hplace, rfl⟩

/-- The call of `mqtt_publish_handler` runs `breadcrumb`. -/
theorem call_publish (hcall : node.pc = .call) (hstate : node.ram.ctx.loopState = .mqttPublish)
    (hstep : step ops node (.main env) = some node') :
    node'.ram = (Connect.breadcrumb env node.ram).2 := by
  simp only [step, mainStep, hcall, callHandler, hstate, ramHandler, bind, pure,
    Option.bind_some, Option.some.injEq] at hstep
  rw [← hstep]
  rfl

/-- What `breadcrumb` publishes is the measurement in the context. -/
theorem breadcrumb_sent (ram : Ram) (publication : Publication)
    (h : (Connect.breadcrumb env ram).2.sent = publication :: ram.sent) :
    env.payload = true ∧ publication.message = Connect.breadcrumbPayload env
      (ram.ctx.text.str prvToken) ram.ctx.capacitance ram.ctx.temperature := by
  unfold Connect.breadcrumb at h
  cases hpayload : env.payload with
  | false => simp [hpayload] at h
  | true =>
      rw [hpayload, Bool.not_true, if_neg (by simp), publish_cases] at h
      obtain ⟨rfl, _⟩ := List.cons.inj h
      exact ⟨rfl, rfl⟩

/-- A step that is not the call of the handler leaves the last reads as they were. -/
theorem lastSensed_cons {older : List (Taken (Node σ) Event)} {taken : Taken (Node σ) Event}
    (h : called .senseListen taken = none) : lastSensed (taken :: older) = lastSensed older := by
  rw [lastSensed, h, Option.none_or]

/-- A step elsewhere is no call of the handler. -/
theorem called_eq_none {state : LoopState} {taken : Taken (Node σ) Event}
    (h : taken.before.pc ≠ .call ∨ taken.before.ram.ctx.loopState ≠ state) :
    called state taken = none := by
  refine Option.eq_none_iff_forall_not_mem.mpr fun env henv ↦ ?_
  obtain ⟨_, hcall, hstate⟩ := called_eq_some.mp henv
  exact h.elim (absurd hcall) (absurd hstate)

/-- Only `sense_listen_handler` changes the two values. -/
theorem valuesInv_step {older : List (Taken (Node σ) Event)} {event : Event}
    (h : ValuesInv older node) (hstep : step ops node event = some node') :
    ValuesInv (⟨node, event, node'⟩ :: older) node' := by
  have hkept : called .senseListen ⟨node, event, node'⟩ = none →
      node'.ram.ctx.capacitance = node.ram.ctx.capacitance →
      node'.ram.ctx.temperature = node.ram.ctx.temperature →
      ValuesInv (⟨node, event, node'⟩ :: older) node' := by
    intro hnone hcapacitance htemperature sensing hsensing
    rw [lastSensed_cons hnone] at hsensing
    rw [hcapacitance, htemperature]
    exact h sensing hsensing
  cases step_cases hstep with
  | async hasync _ hram =>
      refine hkept ?_ (by cases hram <;> rfl) (by cases hram <;> rfl)
      cases event <;> first | rfl | exact absurd hasync id
  | @call env err _ hcall hstate _ _ hctx =>
      by_cases hlisten : node.ram.ctx.loopState = .senseListen
      · intro sensing hsensing
        have hcalled : called .senseListen ⟨node, .main env, node'⟩ = some env :=
          called_eq_some.mpr ⟨rfl, hcall, hlisten⟩
        rw [lastSensed, hcalled, Option.some_or] at hsensing
        obtain rfl := Option.some.inj hsensing
        generalize hafter : node'.ram.ctx = ctx at hctx ⊢
        cases hctx with
        | measured => exact ⟨rfl, rfl⟩
        | none _ hother => exact absurd hlisten hother
        | unread _ _ hother | unconfigured _ hother | restored _ hother | unconnected _ _ hother
        | connected _ _ _ hother | sensing hother | polled _ _ hother => simp [hlisten] at hother
      · refine hkept (called_eq_none (.inr hlisten)) ?_ ?_ <;>
          generalize node'.ram.ctx = ctx at hctx ⊢ <;> cases hctx <;> first | rfl | contradiction
  | writeSsid _ hstate hrun =>
      obtain ⟨hram, _⟩ := writeStep_cases hrun
      exact hkept (called_eq_none (.inr (by simp [hstate]))) (by rw [hram]) (by rw [hram])
  | writePassword hplace hrun =>
      obtain ⟨hram, _⟩ := writeStep_cases hrun
      exact hkept (called_eq_none (.inl (by simp [hplace]))) (by rw [hram]) (by rw [hram])
  | writeContract hplace hrun =>
      obtain ⟨err, _, _, _, hctx⟩ := writeContract_cases hrun
      refine hkept (called_eq_none (.inl (by simp [hplace]))) ?_ ?_ <;> rw [hctx] <;> split <;> rfl
  | update hpc hctx =>
      refine hkept (called_eq_none (.inl (by simp [hpc]))) ?_ ?_ <;>
        generalize (updateStep _ _ node).ram.ctx = ctx at hctx ⊢ <;> cases hctx <;> rfl

/-- A call that has memory for its message publishes one. -/
theorem sensesFirst_of_measured {older : List (Taken (Node σ) Event)} {event : Event}
    (hstep : step ops node event = some node')
    (hmeasured : PublishesMeasured older ⟨node, event, node'⟩) :
    SensesFirst older ⟨node, event, node'⟩ := by
  intro env henv hpayload
  obtain ⟨rfl, hcall, hstate⟩ := called_eq_some.mp henv
  have hsent := congrArg Ram.sent (call_publish hcall hstate hstep)
  rw [Connect.breadcrumb, hpayload, Bool.not_true, if_neg (by simp), publish_cases] at hsent
  obtain ⟨sensing, hsensing, hread, _⟩ := hmeasured env henv _ hsent
  exact ⟨sensing, hsensing, hread⟩

/-- A publication carries the values in the context. -/
theorem publishesMeasured_step {older : List (Taken (Node σ) Event)} {event : Event}
    (h : ValuesInv older node) (hstep : step ops node event = some node') :
    PublishesMeasured older ⟨node, event, node'⟩ ↔ SensesFirst older ⟨node, event, node'⟩ := by
  refine ⟨sensesFirst_of_measured hstep, fun hsenses env henv publication hsent ↦ ?_⟩
  obtain ⟨rfl, hcall, hstate⟩ := called_eq_some.mp henv
  rw [call_publish hcall hstate hstep] at hsent
  obtain ⟨hpayload, hmessage⟩ := breadcrumb_sent node.ram publication hsent
  obtain ⟨sensing, hsensing, hread⟩ := hsenses env henv hpayload
  obtain ⟨hcapacitance, htemperature⟩ := h sensing hsensing
  exact ⟨sensing, hsensing, hread, by rw [hmessage, hcapacitance, htemperature]⟩

/-- A run publishes measured values only exactly when each publication comes after a visit of
`SENSE_LISTEN` whose reads reported no error. -/
theorem measured_iff {hub : Hub} {store : σ} {trace : List (Taken (Node σ) Event)}
    (h : Run (step ops) (boot hub env store) trace node) :
    Along PublishesMeasured trace ↔ Along SensesFirst trace := by
  refine h.along_iff ValuesInv (by simp [ValuesInv, lastSensed])
    (fun older before event after _ hinv hstep ↦ ?_)
    (fun older before event after _ hinv hstep _ ↦ ?_)
  · exact publishesMeasured_step hinv hstep
  · exact valuesInv_step hinv hstep

/-- A dump request delays the first publication until the sensor has been read. -/
def measureEvents : List Event :=
  turn ++ turn ++ turn ++ [.ntp (.recv 0 0 validPacket), .main quietEnv, .dumpRequest,
    .main quietEnv] ++ turn ++ turn ++ turn ++ turn ++ [.main quietEnv, .tick, .main quietEnv,
    .main quietEnv]

/-- Such a run publishes what it has measured. -/
theorem measured_after_dump : ∃ (trace : List (Taken (Node Values) Event)) (node : Node Values),
    Run (step atomicStore) freshNode trace node ∧ node.ram.sent ≠ [] ∧
      Along PublishesMeasured trace := by
  obtain ⟨trace, node, hrun, htest⟩ := exists_run_of_record (step atomicStore) freshNode
    (provisionEvents ++ measureEvents)
    (fun trace node ↦ !node.ram.sent.isEmpty && decide (Along SensesFirst trace))
    (by decide +kernel)
  simp only [Bool.and_eq_true, Bool.not_eq_true', List.isEmpty_eq_false_iff,
    decide_eq_true_eq] at htest
  exact ⟨trace, node, hrun, htest.1, (measured_iff hrun).mpr htest.2⟩

/-- The first visit of `MQTT_PUBLISH` comes before that of `SENSE_LISTEN`. -/
theorem published_before_measured : ¬ ∀ (trace : List (Taken (Node Values) Event))
    (node : Node Values), Run (step atomicStore) freshNode trace node →
      Along PublishesMeasured trace := by
  intro hclaim
  obtain ⟨trace, node, hrun, htest⟩ := exists_run_of_record (step atomicStore) freshNode
    (provisionEvents ++ connectEvents ++ [.main quietEnv])
    (fun trace _ ↦ trace.head?.any (fun taken ↦
      (called .mqttPublish taken).any Env.payload) && (lastSensed trace.tail).isNone)
    (by decide +kernel)
  cases hrun with
  | refl => simp at htest
  | step hprev hlast =>
      simp only [List.head?_cons, Option.any_some, Bool.and_eq_true, Option.any_eq_true,
        List.tail_cons, Option.isNone_iff_eq_none] at htest
      obtain ⟨⟨env, hcalled, hpayload⟩, hnone⟩ := htest
      have hmeasured := (hclaim _ node (.step hprev hlast)).1
      obtain ⟨sensing, hsensing, _⟩ :=
        sensesFirst_of_measured hlast hmeasured env hcalled hpayload
      simp [hnone] at hsensing

end DirtieNode.Main
