import DirtieNode.Connect.LogDocument
import DirtieNode.Main.Unsent

/-!
# Publications

What is published in which state, what a measurement has been asked for by, and who has provisioned
the node since its last reset. A publication is made by the handlers of three states, one topic
each, and none of them runs without credentials.
-/

namespace DirtieNode.Main

open CString Flashmem Logger State Transition Util

variable {σ : Type} {ops : StoreOps σ} {env : Env} {err : DtErr} {node node' : Node σ}
  {ram ram' : Ram} {event : Event} {older trace : List (Taken (Node σ) Event)}

/-- What the handler of a state publishes. -/
def publishedIn : LoopState → Option (List UInt8)
  | .mqttInit => some Connect.topicProvision
  | .mqttPublish => some Connect.topicBreadcrumb
  | .logdump => some Connect.topicLogdump
  | _ => none

/-- There is no new publication, or one with this topic. -/
def SentTo (topic : Option (List UInt8)) (ram ram' : Ram) : Prop :=
  ram'.sent = ram.sent ∨
    ∃ publication, ram'.sent = publication :: ram.sent ∧ topic = some publication.topic

/-! ## What a step publishes -/

/-- `publish` adds one publication with its topic. -/
theorem publish_sentTo (topic message : List UInt8) :
    SentTo (some topic) ram (Connect.publish env topic message ram).2 := by
  rw [publish_cases]
  exact .inr ⟨_, rfl, rfl⟩

/-- The provisioning publishes under its topic, or nothing. -/
theorem provisionToken_sentTo :
    SentTo (some Connect.topicProvision) ram (Connect.provisionToken env ram).2 := by
  unfold Connect.provisionToken Connect.provision
  split
  · split
    · exact .inl rfl
    · exact publish_sentTo _ _
  · exact .inl rfl

/-- `mqtt_init_handler` publishes the token, when there are credentials. -/
theorem mqttInitHandler_sentTo :
    SentTo (some Connect.topicProvision) ram (Connect.mqttInitHandler env ram).2 ∧
      ((Connect.mqttInitHandler env ram).2.sent ≠ ram.sent → ram.ctx.wifiConfigd = true) := by
  have hidle : ∀ ram' : Ram, ram'.sent = ram.sent →
      SentTo (some Connect.topicProvision) ram ram' ∧
        (ram'.sent ≠ ram.sent → ram.ctx.wifiConfigd = true) := fun _ hsent ↦
    ⟨.inl hsent, fun hne ↦ absurd hsent hne⟩
  unfold Connect.mqttInitHandler
  dsimp only
  split
  · exact hidle _ rfl
  · rename_i hconfigd
    have hset : ram.ctx.wifiConfigd = true := by simpa using hconfigd
    refine ⟨?_, fun _ ↦ hset⟩
    split
    · exact .inl rfl
    · split
      · exact .inl rfl
      · split
        · exact .inl rfl
        · split
          · exact .inl rfl
          · generalize hconnected : Ram.mk _ _ _ = connected
            have hsent : connected.sent = ram.sent := by
              rw [← hconnected]
              rfl
            have htoken : SentTo (some Connect.topicProvision) connected
                (Connect.provisionToken env connected).2 := provisionToken_sentTo
            unfold SentTo at htoken ⊢
            rw [hsent] at htoken
            split
            · exact htoken
            · exact htoken

/-- `logdump` publishes under its topic, or nothing. -/
theorem logdump_sentTo :
    SentTo (some Connect.topicLogdump) ram (Connect.logdump env ram).2 := by
  unfold Connect.logdump
  split
  · exact .inl rfl
  · split
    · exact .inl rfl
    · split
      · split
        · exact .inl rfl
        · exact publish_sentTo _ _
      · exact .inl rfl

/-- A handler publishes what belongs to its state. -/
theorem ramHandler_sentTo {state : LoopState}
    (hrun : ramHandler env ram state = some (err, ram')) : SentTo (publishedIn state) ram ram' := by
  cases state <;> simp only [ramHandler, Option.some.injEq, reduceCtorEq] at hrun
  case mqttInit =>
    have hram : (Connect.mqttInitHandler env ram).2 = ram' := congrArg Prod.snd hrun
    rw [← hram]
    exact mqttInitHandler_sentTo.1
  case senseInit =>
    unfold Sensor.senseInitHandler at hrun
    dsimp only at hrun
    split at hrun <;> obtain ⟨rfl, rfl⟩ := Prod.mk.inj hrun <;> exact .inl rfl
  case ntpSync =>
    unfold ntpSyncHandler at hrun
    split at hrun <;> obtain ⟨rfl, rfl⟩ := Prod.mk.inj hrun <;> exact .inl rfl
  case mqttPublish =>
    have hram : (Connect.breadcrumb env ram).2 = ram' := congrArg Prod.snd hrun
    rw [← hram]
    unfold Connect.breadcrumb
    split
    · exact .inl rfl
    · exact publish_sentTo _ _
  case logdump =>
    have hram : (Connect.logdumpHandler env ram).2 = ram' := congrArg Prod.snd hrun
    rw [← hram]
    unfold Connect.logdumpHandler
    split
    · exact logdump_sentTo
    · exact .inl rfl
  case senseListen | mqttListen | battListen | throttle =>
    obtain ⟨rfl, rfl⟩ := Prod.mk.inj hrun
    exact .inl rfl

/-- A step publishes nothing, or it is the call of a handler that publishes, and the node has
credentials. -/
theorem sent_cases (hinv : Inv node) (h : step ops node event = some node') :
    node'.ram.sent = node.ram.sent ∨
      ((∃ env, event = .main env) ∧ node.pc = .call ∧ node.ram.ctx.wifiConfigd = true ∧
        ∃ publication, node'.ram.sent = publication :: node.ram.sent ∧
          publishedIn node.ram.ctx.loopState = some publication.topic) := by
  cases step_cases h with
  | async _ _ hram => left; cases hram <;> rfl
  | @call env _ _ hcall hstate hrun =>
      cases handlerCall hrun with
      | flashInit => exact .inl rfl
      | wifiConfig => exact .inl rfl
      | flashWrite hwrite => exact absurd hwrite hstate
      | @ram err ram' hhandler =>
          rcases ramHandler_sentTo hhandler with hnone | ⟨publication, hsent, htopic⟩
          · exact .inl hnone
          · refine .inr ⟨⟨env, rfl⟩, hcall, ?_, publication, hsent, htopic⟩
            by_cases hinit : node.ram.ctx.loopState = .mqttInit
            · -- the handler asks for the credentials itself
              rw [hinit] at hhandler
              have hram := congrArg Prod.snd (Option.some.inj hhandler)
              refine (@mqttInitHandler_sentTo env node.ram).2 fun hsame ↦ ?_
              rw [show (Connect.mqttInitHandler env node.ram).2 = ram' from hram, hsent] at hsame
              exact absurd hsame (List.cons_ne_self _ _)
            · refine (hinv.flags.client (hinv.flags.sensing ?_)).1
              cases hplace : node.ram.ctx.loopState <;>
                simp_all [publishedIn, LoopState.toNat]
  | writeSsid _ _ hrun => rw [(writeStep_cases hrun).1]; exact .inl rfl
  | writePassword _ hrun => rw [(writeStep_cases hrun).1]; exact .inl rfl
  | writeContract _ hrun =>
      simp only [writeContract, bind, pure, Option.bind_eq_some_iff, Option.some.injEq] at hrun
      obtain ⟨_, _, rfl⟩ := hrun
      exact .inl rfl
  | update => exact .inl updateStep_sent

/-! ## What a measurement has been asked for by -/

/-- The measurements that have been published. -/
def breadcrumbs (node : Node σ) : Nat :=
  node.ram.sent.countP fun publication ↦ publication.topic == Connect.topicBreadcrumb

/-- The step asks for a measurement: a tick with a connection, or the end of `NTP_SYNC`. -/
def asks (taken : Taken (Node σ) Event) : Bool :=
  match taken.event with
  | .tick => taken.before.ram.ctx.mqttInitd
  | .main _ => decide (taken.before.ram.ctx.loopState = .ntpSync ∧
      taken.after.ram.ctx.loopState = .mqttPublish)
  | _ => false

/-- The measurements that have been asked for and are still to come: the request, and the handler
that is to be called. -/
def outstanding (node : Node σ) : Nat :=
  node.ram.ctx.setPublish.toNat +
    (decide (node.pc = .call ∧ node.ram.ctx.loopState = .mqttPublish)).toNat

/-- Only a tick sets the request. -/
theorem setPublish_event (h : asyncStep ram event = some ram') (htick : event ≠ .tick) :
    ram'.ctx.setPublish = ram.ctx.setPublish := by
  cases event with
  | main env => exact absurd h (by simp [asyncStep])
  | post json =>
      simp only [asyncStep, bind, pure, Option.bind_eq_some_iff, Option.some.injEq] at h
      obtain ⟨⟨accepted, ctx⟩, hparse, rfl⟩ := h
      rcases parse_cases hparse with ⟨_, rfl⟩ | ⟨_, text, rfl⟩
      · rfl
      · rfl
  | tick => exact absurd rfl htick
  | dumpRequest | resetRequest | ntp e =>
      obtain rfl := Option.some.inj h
      rfl

/-- A publication of a measurement is one of `MQTT_PUBLISH`. -/
theorem breadcrumbs_call (hinv : Inv node) (h : step ops node event = some node') :
    breadcrumbs node' ≤ breadcrumbs node +
      (decide (node.ram.ctx.loopState = .mqttPublish)).toNat := by
  rcases sent_cases hinv h with hnone | ⟨-, -, -, publication, hsent, htopic⟩
  · rw [breadcrumbs, breadcrumbs, hnone]
    exact Nat.le_add_right _ _
  · rw [breadcrumbs, breadcrumbs, hsent, List.countP_cons]
    by_cases hstate : node.ram.ctx.loopState = .mqttPublish
    · rw [hstate]
      split <;> simp
    · have hother : (publication.topic == Connect.topicBreadcrumb) = false := by
        have hprovision : Connect.topicProvision ≠ Connect.topicBreadcrumb := by decide
        have hlogdump : Connect.topicLogdump ≠ Connect.topicBreadcrumb := by decide
        rw [beq_eq_false_iff_ne]
        intro hsame
        cases hplace : node.ram.ctx.loopState <;> simp_all [publishedIn]
      rw [hother]
      exact Nat.le_add_right _ _

/-- The switch enters `MQTT_PUBLISH` from `NTP_SYNC` only. -/
theorem switchTarget_publish {ctx : AppCtx} (h : switchTarget ctx = .mqttPublish) :
    ctx.loopState = .ntpSync := by
  unfold switchTarget at h
  cases hstate : ctx.loopState <;> rw [hstate] at h <;> dsimp only at h <;> repeat' split at h
  all_goals simp_all

/-- A step publishes or takes up no measurement that has not been asked for. -/
theorem outstanding_step (hinv : Inv node) (h : step ops node event = some node') :
    outstanding node' + breadcrumbs node' ≤
      outstanding node + breadcrumbs node + (asks ⟨node, event, node'⟩).toNat := by
  have hsent : node.pc ≠ .call → breadcrumbs node' = breadcrumbs node := by
    intro hpc
    rcases sent_cases hinv h with hnone | ⟨-, hcall, -⟩
    · rw [breadcrumbs, breadcrumbs, hnone]
    · exact absurd hcall hpc
  cases step_cases h with
  | @async _ ram' hasync hevent hram =>
      have hstate := loopState_async hram
      have hsame : breadcrumbs { node with ram := ram' } = breadcrumbs node := by
        cases hram <;> rfl
      rw [hsame]
      unfold outstanding
      dsimp only
      rw [hstate]
      by_cases htick : event = .tick
      · subst htick
        obtain rfl := Option.some.inj hevent
        show (sampleRateUpdate node.ram.ctx).setPublish.toNat + _ + _ ≤
          _ + (node.ram.ctx.mqttInitd).toNat
        unfold sampleRateUpdate
        cases node.ram.ctx.mqttInitd with
        | false => simp
        | true =>
            simp
            omega
      · rw [setPublish_event hevent htick]
        omega
  | call hcall hstate hrun hpc hctx =>
      have hcount := breadcrumbs_call hinv h
      have hset := setPublish_handler hctx
      unfold outstanding
      rw [hset, hcall, hpc]
      simp only [reduceCtorEq, false_and, decide_false, true_and, Bool.toNat_false]
      omega
  | writeSsid hcall hstate hrun =>
      have hcount := breadcrumbs_call hinv h
      obtain ⟨hram, -, err, -, hpc⟩ := writeStep_cases hrun
      unfold outstanding
      rw [hram, hcall, hpc, hstate]
      rw [hstate] at hcount
      simp only [reduceCtorEq, and_false, decide_false, Bool.toNat_false] at hcount ⊢
      omega
  | writePassword hpc hrun =>
      have hcount := hsent (by rw [hpc]; simp)
      obtain ⟨hram, -, err, -, hpc'⟩ := writeStep_cases hrun
      have hstate := hinv.writing (.inl hpc)
      unfold outstanding
      rw [hram, hpc, hstate, hcount]
      simp only [reduceCtorEq, and_false, decide_false, Bool.toNat_false]
      omega
  | writeContract hpc hrun =>
      have hcount := hsent (by rw [hpc]; simp)
      obtain ⟨err, -, hpc', -, hctx⟩ := writeContract_cases hrun
      have hset : node'.ram.ctx.setPublish = node.ram.ctx.setPublish := by
        rw [hctx]
        split <;> rfl
      unfold outstanding
      rw [hset, hpc', hcount]
      simp only [reduceCtorEq, false_and, decide_false, Bool.toNat_false]
      omega
  | @update env err hpc hctx =>
      have hcount := hsent (by rw [hpc]; simp)
      rw [hcount]
      have hcall : (updateStep env err node).pc = .call := rfl
      have hasks : asks ⟨node, .main env, updateStep env err node⟩ = decide
          (node.ram.ctx.loopState = .ntpSync ∧
            (updateStep env err node).ram.ctx.loopState = .mqttPublish) := rfl
      rw [hasks]
      unfold outstanding
      rw [hcall, hpc]
      generalize (updateStep env err node).ram.ctx = ctx at hctx
      cases hctx with
      | reset | dump => simp
      | publish _ _ hpublish => simp [hpublish]
      | switch _ _ =>
          by_cases htarget : switchTarget node.ram.ctx = .mqttPublish
          · simp [htarget, switchTarget_publish htarget]
            omega
          · simp [htarget]

/-- In every run, at most as many measurements are published as there were ticks with a connection
and ends of `NTP_SYNC`: no request is served twice. -/
theorem breadcrumbs_le {hub : Hub} {store : σ}
    (h : Run (step ops) (boot hub env store) trace node) :
    breadcrumbs node + outstanding node ≤ trace.countP asks := by
  have hall : ∀ taken ∈ trace, True := fun _ _ ↦ trivial
  have hbudget := h.budget Inv (fun node ↦ outstanding node + breadcrumbs node) 1 (fun _ ↦ false)
    asks hall (inv_boot hub env store) (fun _ _ _ hbefore hstep _ ↦ inv_step hbefore hstep)
    (fun _ _ _ hbefore hstep _ ↦ ?_)
  · have hstart : outstanding (boot hub env store) + breadcrumbs (boot hub env store) = 0 := rfl
    rw [hstart] at hbudget
    omega
  · have hstep := outstanding_step hbefore hstep
    rw [Nat.one_mul]
    exact hstep

/-- Two measurements, one for the end of `NTP_SYNC` and one for a tick. -/
theorem breadcrumbs_le_tick : ∃ (trace : List (Taken (Node Values) Event)) (node : Node Values),
    Run (step atomicStore) freshNode trace node ∧ breadcrumbs node = 2 ∧
      breadcrumbs node + outstanding node ≤ trace.countP asks := by
  obtain ⟨trace, node, hrun, htest⟩ := exists_run_of_record (step atomicStore) freshNode
    (provisionEvents ++ connectEvents ++ .tick :: turn ++ turn)
    (fun _ (node : Node Values) ↦ breadcrumbs node == 2) (by decide +kernel)
  exact ⟨trace, node, hrun, beq_iff_eq.mp htest, breadcrumbs_le hrun⟩

/-! ## Who has provisioned the node -/

/-- `update_state` takes a reset. -/
def resets (taken : Taken (Node σ) Event) : Bool :=
  match taken.event, taken.before.pc with
  | .main _, .update _ => taken.before.ram.ctx.reset
  | _, _ => false

/-- A provisioning request arrives and is accepted. -/
def accepts (taken : Taken (Node σ) Event) : Bool :=
  match taken.event with
  | .post json =>
      (AccessPoint.parseWifiCredentials (json.bytes ++ [0]) taken.before.ram.ctx).any Prod.fst
  | _ => false

/-- `flash_init_handler` returns with credentials. -/
def restores (taken : Taken (Node σ) Event) : Bool :=
  (called .flashInit taken).isSome && taken.after.ram.ctx.wifiConfigd

/-- A request has been accepted since the last reset. -/
def acceptedSince : List (Taken (Node σ) Event) → Bool
  | [] => false
  | taken :: older => !resets taken && (accepts taken || acceptedSince older)

/-- There has been no reset, and the boot has restored the credentials. -/
def restoredSince (older : List (Taken (Node σ) Event)) : Bool :=
  older.all (!resets ·) && older.any restores

/-- The flag for the credentials goes with the requests, the boot and the resets. -/
structure ConfigInv (older : List (Taken (Node σ) Event)) (node : Node σ) : Prop where
  configd : node.ram.ctx.wifiConfigd = true ↔
    acceptedSince older = true ∨ restoredSince older = true
  first : node.ram.ctx.loopState = .flashInit → older.all (!resets ·) = true

/-- A reset forgets the requests, and an accepted one counts from then on. -/
theorem acceptedSince_cons (taken : Taken (Node σ) Event) :
    acceptedSince (taken :: older) =
      (!resets taken && (accepts taken || acceptedSince older)) := rfl

/-- A restored boot counts as long as there has been no reset. -/
theorem restoredSince_cons (taken : Taken (Node σ) Event) :
    restoredSince (taken :: older) =
      (!resets taken && older.all (!resets ·) && (restores taken || older.any restores)) := rfl

/-- A step without a pending reset resets nothing. -/
theorem resets_eq_false {taken : Taken (Node σ) Event}
    (h : ∀ err, taken.before.pc = .update err → taken.before.ram.ctx.reset = false) :
    resets taken = false := by
  unfold resets
  split
  · rename_i hpc
    exact h _ hpc
  · rfl

/-- A step that does not call `flash_init_handler` restores nothing. -/
theorem restores_eq_false {taken : Taken (Node σ) Event} (h : called .flashInit taken = none) :
    restores taken = false := by
  rw [restores, h]
  rfl

/-- The switch does not go back to the first state. -/
theorem switchTarget_flashInit {ctx : AppCtx} (h : switchTarget ctx = .flashInit) :
    ctx.loopState = .flashInit := by
  unfold switchTarget at h
  cases hstate : ctx.loopState <;> rw [hstate] at h <;> dsimp only at h <;> repeat' split at h
  all_goals simp_all

/-- A step that is no reset and no request, and no boot, leaves the history as it was. -/
theorem ConfigInv.keep {taken : Taken (Node σ) Event} (hinv : ConfigInv older node)
    (hresets : resets taken = false) (haccepts : accepts taken = false)
    (hrestores : restores taken = false)
    (hconfigd : node'.ram.ctx.wifiConfigd = node.ram.ctx.wifiConfigd)
    (hstate : node'.ram.ctx.loopState = .flashInit → node.ram.ctx.loopState = .flashInit) :
    ConfigInv (taken :: older) node' := by
  constructor
  · rw [hconfigd, acceptedSince_cons, restoredSince_cons, hresets, haccepts, hrestores]
    exact hinv.configd
  · intro hinit
    rw [List.all_cons, hresets]
    exact hinv.first (hstate hinit)

/-- An event between the steps of `main` keeps the account of the credentials. -/
theorem configInv_async {ram : Ram} (hinv : ConfigInv older node) (hasync : event.async)
    (hevent : asyncStep node.ram event = some ram) :
    ConfigInv (⟨node, event, { node with ram := ram }⟩ :: older) { node with ram := ram } := by
  have hrestores : restores ⟨node, event, { node with ram := ram }⟩ = false := by
    refine restores_eq_false ?_
    cases event <;> first | rfl | exact hasync.elim
  have hresets : resets ⟨node, event, { node with ram := ram }⟩ = false := by
    cases event <;> first | rfl | exact hasync.elim
  cases event with
  | main => exact hasync.elim
  | post json =>
      simp only [asyncStep, bind, pure, Option.bind_eq_some_iff, Option.some.injEq] at hevent
      obtain ⟨⟨accepted, ctx⟩, hparse, rfl⟩ := hevent
      have haccepts : accepts ⟨node, .post json,
          { node with ram := { node.ram with ctx := ctx } }⟩ = accepted := by
        show (AccessPoint.parseWifiCredentials (json.bytes ++ [0]) node.ram.ctx).any Prod.fst =
          accepted
        rw [hparse]
        rfl
      rcases parse_cases hparse with ⟨rfl, rfl⟩ | ⟨rfl, text, rfl⟩
      · exact hinv.keep hresets haccepts hrestores rfl id
      · constructor
        · rw [acceptedSince_cons, hresets, haccepts]
          exact iff_of_true rfl (.inl rfl)
        · intro hinit
          rw [List.all_cons, hresets]
          exact hinv.first hinit
  | tick =>
      obtain rfl := Option.some.inj hevent
      refine hinv.keep hresets rfl hrestores ?_ ?_ <;> simp only [sampleRateUpdate]
      · split <;> rfl
      · split <;> exact id
  | dumpRequest | resetRequest | ntp =>
      obtain rfl := Option.some.inj hevent
      exact hinv.keep hresets rfl hrestores rfl id

/-- Only `flash_init_handler` sets the flag for the credentials, and no handler clears it. -/
theorem configd_handler {ctx ctx' : AppCtx} (h : HandlerChange env ctx err ctx') :
    ctx'.loopState = ctx.loopState ∧
      (ctx.wifiConfigd = true → ctx'.wifiConfigd = true) ∧
      (ctx.loopState ≠ .flashInit → ctx'.wifiConfigd = ctx.wifiConfigd) := by
  cases h with
  | restored _ hinit => exact ⟨rfl, fun _ ↦ rfl, fun hother ↦ absurd hinit hother⟩
  | _ => exact ⟨rfl, id, fun _ ↦ rfl⟩

/-- The call of a handler keeps the account of the credentials. -/
theorem configInv_call (hinv : ConfigInv older node) (hcall : node.pc = .call)
    (hctx : HandlerChange env node.ram.ctx err node'.ram.ctx) :
    ConfigInv (⟨node, .main env, node'⟩ :: older) node' := by
  obtain ⟨hstate, hkeeps, hother⟩ := configd_handler hctx
  have hresets : resets ⟨node, .main env, node'⟩ = false :=
    resets_eq_false fun err hpc ↦ absurd (hcall.symm.trans hpc) (by simp)
  by_cases hinit : node.ram.ctx.loopState = .flashInit
  · -- there has been no reset yet, and the flag is what the handler leaves
    have hfirst := hinv.first hinit
    have hrestores : restores ⟨node, .main env, node'⟩ = node'.ram.ctx.wifiConfigd := by
      rw [restores, called_eq_some.mpr ⟨rfl, hcall, hinit⟩]
      rfl
    constructor
    · rw [acceptedSince_cons, restoredSince_cons, hresets, hrestores, hfirst]
      show _ ↔ acceptedSince older = true ∨ (_ || older.any restores) = true
      constructor
      · intro hset
        rw [hset]
        exact .inr rfl
      · intro hsince
        rcases hsince with haccepted | hrestored
        · exact hkeeps (hinv.configd.mpr (.inl haccepted))
        · rcases Bool.or_eq_true_iff.mp hrestored with hset | hany
          · exact hset
          · refine hkeeps (hinv.configd.mpr (.inr ?_))
            rw [restoredSince, hfirst, hany]
            rfl
    · intro _
      rw [List.all_cons, hresets]
      exact hfirst
  · refine hinv.keep hresets rfl (restores_eq_false (called_eq_none (.inr hinit))) (hother hinit) ?_
    rw [hstate]
    exact id

/-- Every step keeps the account of the credentials. -/
theorem configInv_step (hinv : ConfigInv older node)
    (h : step ops node event = some node') : ConfigInv (⟨node, event, node'⟩ :: older) node' := by
  cases step_cases h with
  | async hasync hevent => exact configInv_async hinv hasync hevent
  | call hcall _ _ _ hctx => exact configInv_call hinv hcall hctx
  | @writeSsid env _ hcall hstate hrun =>
      have hresets : resets ⟨node, .main env, node'⟩ = false :=
        resets_eq_false fun err hpc ↦ absurd (hcall.symm.trans hpc) (by simp)
      refine hinv.keep hresets rfl (restores_eq_false (called_eq_none (.inr ?_))) ?_ ?_
      · rw [hstate]
        simp
      · rw [(writeStep_cases hrun).1]
      · rw [(writeStep_cases hrun).1]
        exact id
  | @writePassword env _ hpc hrun =>
      have hresets : resets ⟨node, .main env, node'⟩ = false :=
        resets_eq_false fun err hupdate ↦ absurd (hpc.symm.trans hupdate) (by simp)
      refine hinv.keep hresets rfl (restores_eq_false (called_eq_none (.inl ?_))) ?_ ?_
      · rw [hpc]
        simp
      · rw [(writeStep_cases hrun).1]
      · rw [(writeStep_cases hrun).1]
        exact id
  | @writeContract env _ hpc hrun =>
      have hresets : resets ⟨node, .main env, node'⟩ = false :=
        resets_eq_false fun err hupdate ↦ absurd (hpc.symm.trans hupdate) (by simp)
      obtain ⟨_, _, _, _, hctx⟩ := writeContract_cases hrun
      refine hinv.keep hresets rfl (restores_eq_false (called_eq_none (.inl ?_))) ?_ ?_
      · rw [hpc]
        simp
      · rw [hctx]
        split <;> rfl
      · rw [hctx]
        split <;> exact id
  | @update env err hpc hctx =>
      have hrestores : restores ⟨node, .main env, updateStep env err node⟩ = false := by
        refine restores_eq_false (called_eq_none (.inl ?_))
        rw [hpc]
        simp
      have hresets : resets ⟨node, .main env, updateStep env err node⟩ = node.ram.ctx.reset := by
        simp only [resets, hpc]
      generalize hctx' : (updateStep env err node).ram.ctx = ctx at hctx
      cases hctx with
      | reset hreset =>
          constructor
          · rw [acceptedSince_cons, restoredSince_cons, hresets, hreset, hctx']
            simp
          · intro hinit
            rw [hctx'] at hinit
            exact absurd hinit (by simp)
      | publish hreset | dump hreset =>
          refine hinv.keep (hresets.trans hreset) rfl hrestores ?_ ?_ <;> rw [hctx']
          intro hinit
          exact absurd hinit (by simp)
      | switch hreset =>
          refine hinv.keep (hresets.trans hreset) rfl hrestores ?_ ?_ <;> rw [hctx']
          exact switchTarget_flashInit

/-- The step publishes one message under the topic of its state, with credentials that a request
since the last reset has brought, or that the boot has restored. -/
structure Publishes (older : List (Taken (Node σ) Event)) (taken : Taken (Node σ) Event) :
    Prop where
  called : ∃ env, called taken.before.ram.ctx.loopState taken = some env
  one : ∃ publication, taken.after.ram.sent = publication :: taken.before.ram.sent ∧
    publishedIn taken.before.ram.ctx.loopState = some publication.topic
  provisioned : acceptedSince older = true ∨ restoredSince older = true

/-- In every run, all that is published is published by the handlers of three states, and none of
it before a provisioning request has been accepted or the boot has restored credentials, nor
between a reset and the next accepted request. -/
theorem published_since_provisioned {hub : Hub} {store : σ}
    (h : Run (step ops) (boot hub env store) trace node) :
    Along (fun older taken ↦ taken.after.ram.sent ≠ taken.before.ram.sent → Publishes older taken)
      trace := by
  refine h.along (fun older node ↦ Inv node ∧ ConfigInv older node)
    ⟨inv_boot hub env store, ?_, ?_⟩ ?_
  · exact iff_of_false (by simp [boot]) (by simp [acceptedSince, restoredSince])
  · intro _
    rfl
  · intro older before event after hinv hstep
    refine ⟨⟨inv_step hinv.1 hstep, configInv_step hinv.2 hstep⟩, fun hsent ↦ ?_⟩
    rcases sent_cases hinv.1 hstep with hnone | ⟨⟨env, rfl⟩, hcall, hconfigd, hone⟩
    · exact absurd hnone hsent
    · exact ⟨⟨env, called_eq_some.mpr ⟨rfl, hcall, rfl⟩⟩, hone, hinv.2.configd.mp hconfigd⟩

/-- A request, and the measurement that follows it. -/
theorem published_since_provisioned_request :
    ∃ (trace : List (Taken (Node Values) Event)) (node : Node Values),
      Run (step atomicStore) freshNode trace node ∧ breadcrumbs node = 1 ∧
        Along (fun older taken ↦ taken.after.ram.sent ≠ taken.before.ram.sent →
          Publishes older taken) trace := by
  obtain ⟨trace, node, hrun, htest⟩ := exists_run_of_record (step atomicStore) freshNode
    (provisionEvents ++ connectEvents ++ turn)
    (fun _ (node : Node Values) ↦ breadcrumbs node == 1) (by decide +kernel)
  exact ⟨trace, node, hrun, beq_iff_eq.mp htest, published_since_provisioned hrun⟩

/-! ## What `logdump` hands to `publish` -/

/-- The message is an object of the MAC address, the contract that the token spells, and the array
of the logs in the slots, in order, each in base64 with its time changed to the epoch and its
message as it was. -/
structure Documents (env : Env) (ram : Ram) (now : Nat) (message : List UInt8) : Prop where
  epoch : getCurrentEpoch env.nowMs ram.ctx.ntpState = (.ok, some now)
  members : ∀ contract, JsonText.Encodes contract (ram.ctx.text.str prvToken) →
    ∃ elements, JsonText.document message = some (Connect.logdumpFields env contract elements) ∧
      elements.map Base64.decode =
        (held ram.logs).map fun id ↦ some (Connect.rebasedLog ram.logs.heap now env.hwnow id)
  messages : ∀ id ∈ held ram.logs,
    SameMessage (Connect.rebasedLog ram.logs.heap now env.hwnow id)
      (Connect.logText ram.logs.heap id)

/-- The logs of every node that can be reached are stored. -/
theorem stored_reachable {hub : Hub} {store : σ}
    (h : Reachable (step ops) (boot hub env store) node) : Stored node.ram.logs := by
  obtain ⟨trace, hrun⟩ := h
  have hboth := hrun.invariant (fun node ↦ Inv node ∧ Stored node.ram.logs)
    ⟨inv_boot hub env store, ((stored_init.dlog ..).1.dlog ..).1⟩
    fun _ _ _ hbefore hstep ↦
      ⟨inv_step hbefore.1 hstep, (logs_step hbefore.1 hbefore.2 hstep).1⟩
  exact hboth.2

/-- `logdump` hands `publish` nothing, or the document of the logs, if each has a buffer of its
own. -/
theorem logdump_documents (hstored : Stored ram.logs) (hnodup : (held ram.logs).Nodup)
    (hepoch : (getCurrentEpoch env.nowMs ram.ctx.ntpState).1 = .ok) :
    (Connect.logdump env ram).2.sent = ram.sent ∨
      ∃ publication now, (Connect.logdump env ram).2.sent = publication :: ram.sent ∧
        Documents env ram now publication.message := by
  rcases Connect.logdump_message hstored.slots hnodup with hnone |
    ⟨now, publication, hnow, hsent, hmessage⟩
  · exact .inl hnone
  · refine .inr ⟨publication, now, hsent, Prod.ext hepoch hnow, fun contract hcontract ↦ ?_,
      fun id _ ↦ ?_⟩
    · rw [hmessage]
      refine ⟨_, Connect.document_logdumpText hcontract, ?_⟩
      rw [List.map_map]
      exact List.map_congr_left fun id _ ↦ Connect.decode_b64Encode _
    · rw [← Connect.logText_rebase]
      exact hstored.lines.rebase_sameMessage id

/-- What a step hands to `publish` under the topic of the logs comes from `logdump`. -/
theorem logs_published {publication : Publication} (hinv : Inv node)
    (hstored : Stored node.ram.logs) (hstep : step ops node event = some node')
    (hsent : node'.ram.sent = publication :: node.ram.sent)
    (htopic : publication.topic = Connect.topicLogdump) :
    ∃ env, called .logdump ⟨node, event, node'⟩ = some env ∧
      node.ram.ctx.loopState = .logdump ∧ node'.ram = (Connect.logdump env node.ram).2 := by
  have hne : node'.ram.sent ≠ node.ram.sent := by
    rw [hsent]
    exact List.cons_ne_self _ _
  cases hcalled : called .logdump ⟨node, event, node'⟩ with
  | none =>
      rcases step_sentOther hstep hcalled with hsame | ⟨other, hother, hdiffers⟩
      · exact absurd hsame hne
      · obtain ⟨rfl, _⟩ := List.cons.inj (hother.symm.trans hsent)
        exact absurd htopic hdiffers
  | some env =>
      obtain ⟨rfl, hcall, hstate⟩ := called_eq_some.mp hcalled
      rcases step_logdump hinv hstep hstate with ⟨_, hafter⟩ | ⟨err, hpc, _⟩
      · rw [logdumpHandler_eq hstored.slots] at hafter
        by_cases hempty : held node.ram.logs = []
        · rw [if_pos hempty] at hafter
          exact absurd (congrArg Ram.sent hafter) hne
        · rw [if_neg hempty] at hafter
          exact ⟨env, rfl, hstate, hafter⟩
      · exact absurd (hcall.symm.trans hpc) (by simp)

/-- In every run, what a step hands to `publish` under the topic of the logs is the document of the
logs in the slots, as long as the slots own their buffers. -/
theorem logs_documented {hub : Hub} {store : σ}
    (h : Run (step ops) (boot hub env store) trace node) :
    ∀ taken ∈ trace, LogsOwned taken.before.ram.logs → ∀ publication : Publication,
      taken.after.ram.sent = publication :: taken.before.ram.sent →
      publication.topic = Connect.topicLogdump →
        ∃ env now, called .logdump taken = some env ∧
          Documents env taken.before.ram now publication.message := by
  intro taken htaken howned publication hsent htopic
  obtain ⟨hreach, hstep⟩ := h.of_mem htaken
  have hinv := inv_reachable hreach
  have hstored := stored_reachable hreach
  have hnodup : (held taken.before.ram.logs).Nodup := by
    obtain ⟨ids, hids⟩ := howned
    -- owned buffers are in the order of their allocation
    rw [held_of_slots hids.slots]
    exact hids.order.imp Nat.ne_of_lt
  obtain ⟨env, hcalled, hstate, hafter⟩ := logs_published hinv hstored hstep hsent htopic
  rw [hafter] at hsent
  have hepoch := logdump_epoch hinv hstate env.nowMs
  rcases logdump_documents hstored hnodup hepoch with hnone |
    ⟨published, now, hpublished, hdocuments⟩
  · exact absurd (hsent.symm.trans hnone) (List.cons_ne_self _ _)
  · obtain ⟨rfl, _⟩ := List.cons.inj (hpublished.symm.trans hsent)
    exact ⟨env, now, hcalled, hdocuments⟩

/-- The document of the two messages of the boot. -/
theorem logs_documented_first : ∃ (trace : List (Taken (Node Values) Event)) (node : Node Values),
    Run (step atomicStore) (boot defaultHub {} fun _ ↦ none) trace node ∧
      ∃ taken ∈ trace, held taken.before.ram.logs = [0, 1] ∧ ∃ publication,
        taken.after.ram.sent = publication :: taken.before.ram.sent ∧
          ∃ env now, called .logdump taken = some env ∧
            Documents env taken.before.ram now publication.message := by
  let dumps (taken : Taken (Node Values) Event) : Bool :=
    taken.before.ram.logs.logdump == slotsOf [0, 1] &&
      (taken.before.ram.logs.heap.bufs.length == 2 && taken.before.ram.logs.heap.frees == []) &&
      taken.after.ram.sent.head?.any fun publication ↦
        publication.topic == Connect.topicLogdump &&
          taken.after.ram.sent == publication :: taken.before.ram.sent
  obtain ⟨trace, node, hrun, htest⟩ := exists_run_of_record (step atomicStore)
    (boot defaultHub {} fun _ ↦ none) dumpEvents (fun trace _ ↦ trace.any dumps)
    (by decide +kernel)
  obtain ⟨taken, htaken, hdumps⟩ := List.any_eq_true.mp htest
  simp only [dumps, Bool.and_eq_true, beq_iff_eq, Option.any_eq_true] at hdumps
  obtain ⟨⟨hslots, hbufs, hfrees⟩, publication, _, htopic, hsent⟩ := hdumps
  have howned : Owned taken.before.ram.logs [0, 1] := by
    refine ⟨hslots, by decide, by decide, ?_, ?_, ?_⟩ <;> rw [hbufs, hfrees]
    · simp
    · intro id hlt hnot
      simp only [List.mem_cons, List.not_mem_nil, or_false, not_or] at hnot
      omega
    · simp
  exact ⟨trace, node, hrun, taken, htaken, held_of_slots hslots, publication, hsent,
    logs_documented hrun taken htaken ⟨[0, 1], howned⟩ publication hsent htopic⟩

end DirtieNode.Main
