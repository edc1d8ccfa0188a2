import DirtieNode.AccessPoint.Credentials
import DirtieNode.Connect.Connect

/-!
# Completing `MQTT_INIT`

When `mqtt_init_handler` sets the flag that the state machine and the publish timer trust. It looks
at the result of each step but that of `mqtt_connect`: `inits_connected_iff` says when the flag
still means a connection.
-/

namespace DirtieNode.Connect

open AccessPoint CString State

/-- `mqtt_init_handler`, with no result when it goes on with the null pointer that
`mqtt_client_init` returns without memory. -/
def mqttInit (env : Env) (ram : Ram) : Option (DtErr × Ram) :=
  if ram.ctx.wifiConfigd && env.wifiJoined && !env.mqttState then none
  else some (mqttInitHandler env ram)

/-- All steps of the handler have succeeded, and the token, if there is one, has reached
`mqtt_publish`. -/
structure Connected (env : Env) (ram ram' : Ram) : Prop where
  configured : ram.ctx.wifiConfigd = true
  joined : env.wifiJoined = true
  addr : env.hubAddr.isSome = true
  client : env.mqttClient.isSome = true
  connected : env.mqttConnected = true
  provisioned : ram.ctx.text.str prvToken ≠ [] → env.published = true ∧
    ∃ publication, publication.topic = topicProvision ∧ ram'.sent = publication :: ram.sent

/-- The handler sets the flag and returns `DT_ERR_OK` with a connection, or it leaves the flag and
returns an error. -/
def InitsConnected (env : Env) (ram : Ram) : Prop :=
  ∃ err ram', mqttInit env ram = some (err, ram') ∧
    (err.code = 0 ∧ ram'.ctx.mqttInitd = true ∧ Connected env ram ram' ∨
      err.code ≠ 0 ∧ ram'.ctx.mqttInitd = ram.ctx.mqttInitd)

/-- The handler stops before it has a client, or the client connects, or there is a token that is
not provisioned. -/
def ConnectChecked (env : Env) (ram : Ram) : Prop :=
  ram.ctx.wifiConfigd = false ∨ env.wifiJoined = false ∨
    env.mqttState = true ∧ (env.hubAddr = none ∨ env.mqttClient = none ∨
      env.mqttConnected = true ∨
      ram.ctx.text.str prvToken ≠ [] ∧ (env.payload = false ∨ env.published = false))

variable {env : Env} {ram : Ram}

/-- What the use of `provision` comes to. -/
theorem provisionToken_cases (env : Env) (ram : Ram) :
    (provisionToken env ram).2.ctx = ram.ctx ∧
      ((provisionToken env ram).1.code ≠ 0 ∧ (provisionToken env ram).1 ≠ .ok ∧
          ram.ctx.text.str prvToken ≠ [] ∧ (env.payload = false ∨ env.published = false) ∨
        (provisionToken env ram).1 = .ok ∧ (ram.ctx.text.str prvToken ≠ [] →
          env.payload = true ∧ env.published = true ∧
            ∃ publication, publication.topic = topicProvision ∧
              (provisionToken env ram).2.sent = publication :: ram.sent)) := by
  unfold provisionToken provision publish
  by_cases htoken : ram.ctx.text.str prvToken = []
  · simp [htoken]
  · cases hpayload : env.payload with
    | false => simp [htoken, DtErr.code]
    | true => cases hpublished : env.published <;> simp [htoken, DtErr.code]

/-- A failing step before the client is there is an error, and leaves the flag. -/
theorem mqttInitHandler_stops (h : ram.ctx.wifiConfigd = false ∨ env.wifiJoined = false ∨
    env.mqttState = false ∨ env.hubAddr = none ∨ env.mqttClient = none) :
    (mqttInitHandler env ram).1.code ≠ 0 ∧
      (mqttInitHandler env ram).2.ctx.mqttInitd = ram.ctx.mqttInitd := by
  have hone : (DtErr.ofInt 1).code ≠ 0 := by decide
  have hmalloc : DtErr.malloc.code ≠ 0 := by decide
  unfold mqttInitHandler
  cases hconfigd : ram.ctx.wifiConfigd with
  | false => exact ⟨hone, rfl⟩
  | true =>
      cases hjoined : env.wifiJoined with
      | false => exact ⟨hone, rfl⟩
      | true =>
          cases hstate : env.mqttState with
          | false => exact ⟨hmalloc, rfl⟩
          | true =>
              cases haddr : env.hubAddr with
              | none => exact ⟨hone, rfl⟩
              | some addr =>
                  cases hclient : env.mqttClient with
                  | none => exact ⟨hone, rfl⟩
                  | some client => simp [hconfigd, hjoined, hstate, haddr, hclient] at h

/-- With a client, the handler fails with the provisioning only. -/
theorem mqttInitHandler_provisions {addr client : Nat} (hconfigd : ram.ctx.wifiConfigd = true)
    (hjoined : env.wifiJoined = true) (hstate : env.mqttState = true)
    (haddr : env.hubAddr = some addr) (hclient : env.mqttClient = some client) :
    (mqttInitHandler env ram).1.code ≠ 0 ∧
        (mqttInitHandler env ram).2.ctx.mqttInitd = ram.ctx.mqttInitd ∧
        ram.ctx.text.str prvToken ≠ [] ∧ (env.payload = false ∨ env.published = false) ∨
      (mqttInitHandler env ram).1 = .ok ∧ (mqttInitHandler env ram).2.ctx.mqttInitd = true ∧
        (ram.ctx.text.str prvToken ≠ [] → env.payload = true ∧ env.published = true ∧
          ∃ publication, publication.topic = topicProvision ∧
            (mqttInitHandler env ram).2.sent = publication :: ram.sent) := by
  obtain ⟨before, hctx, hsent, hrun⟩ : ∃ before : Ram,
      before.ctx = { ram.ctx with
        mqttClient := some ⟨addr, some client, env.mqttConnected⟩ } ∧ before.sent = ram.sent ∧
      mqttInitHandler env ram =
        if (provisionToken env before).1 ≠ .ok then
          ((provisionToken env before).1,
            (provisionToken env before).2.dlog env 2 .info (lit "Failed to provision device\n"))
        else
          (.ok, { (provisionToken env before).2 with
            ctx := { (provisionToken env before).2.ctx with mqttInitd := true } }) := by
    refine ⟨{ (ram.dlog env 0 .info (lit "connecting to " ++ ram.ctx.text.str wifiSsid ++
      lit "\n")).dlog env 1 .info (lit "Connected.\n") with
        ctx := { ram.ctx with mqttClient := some ⟨addr, some client, env.mqttConnected⟩ } },
      rfl, rfl, ?_⟩
    unfold mqttInitHandler
    simp only [hconfigd, hjoined, hstate, haddr, hclient, Bool.not_true, Bool.false_eq_true,
      if_false, Ram.dlog_ctx]
  obtain ⟨hafter, hcases⟩ := provisionToken_cases env before
  rw [hctx] at hafter hcases
  rw [hsent] at hcases
  rw [hrun]
  generalize provisionToken env before = result at hafter hcases ⊢
  obtain ⟨err, after⟩ := result
  dsimp only at hafter hcases ⊢
  rcases hcases with ⟨hcode, herr, htoken, hfailed⟩ | ⟨rfl, hprovisioned⟩
  · rw [if_pos herr]
    exact .inl ⟨hcode, by rw [Ram.dlog_ctx, hafter], htoken, hfailed⟩
  · exact .inr ⟨rfl, rfl, hprovisioned⟩

/-- Unless the `calloc` of the client fails, the handler follows no null pointer. -/
theorem mqttInit_eq (h : ram.ctx.wifiConfigd = false ∨ env.wifiJoined = false ∨
    env.mqttState = true) : mqttInit env ram = some (mqttInitHandler env ram) := by
  rw [mqttInit, if_neg]
  rcases h with h | h | h <;> simp [h]

/-- With a client, the flag means a connection when it connects, and when the provisioning fails. -/
theorem inits_client_iff {addr client : Nat} (hconfigd : ram.ctx.wifiConfigd = true)
    (hjoined : env.wifiJoined = true) (hstate : env.mqttState = true)
    (haddr : env.hubAddr = some addr) (hclient : env.mqttClient = some client) :
    InitsConnected env ram ↔ env.mqttConnected = true ∨
      ram.ctx.text.str prvToken ≠ [] ∧ (env.payload = false ∨ env.published = false) := by
  have hrun : mqttInit env ram = some (mqttInitHandler env ram) := mqttInit_eq (.inr (.inr hstate))
  rcases mqttInitHandler_provisions hconfigd hjoined hstate haddr hclient with
    ⟨hcode, hinitd, hfailed⟩ | ⟨hok, hinitd, hprovisioned⟩
  · exact iff_of_true ⟨_, _, hrun, .inr ⟨hcode, hinitd⟩⟩ (.inr hfailed)
  · have hcode : (mqttInitHandler env ram).1.code = 0 := by rw [hok]; rfl
    constructor
    · rintro ⟨err, ram', hrun', hresult⟩
      rw [hrun, Option.some.injEq] at hrun'
      rw [hrun'] at hcode
      rcases hresult with ⟨_, _, hconnected⟩ | ⟨herr, _⟩
      · exact .inl hconnected.connected
      · exact absurd hcode herr
    · rintro (hconnected | ⟨htoken, hfailed⟩)
      · refine ⟨_, _, hrun, .inl ⟨hcode, hinitd, hconfigd, hjoined, ?_, ?_, hconnected, ?_⟩⟩
        · rw [haddr]
          rfl
        · rw [hclient]
          rfl
        · exact fun htoken ↦ (hprovisioned htoken).2
      · obtain ⟨hpayload, hpublished, _⟩ := hprovisioned htoken
        simp [hpayload, hpublished] at hfailed

/-- For every context and every outcome of the steps. -/
theorem inits_connected_iff (env : Env) (ram : Ram) :
    InitsConnected env ram ↔ ConnectChecked env ram := by
  have hstopped : (ram.ctx.wifiConfigd = false ∨ env.wifiJoined = false ∨ env.mqttState = true) →
      (ram.ctx.wifiConfigd = false ∨ env.wifiJoined = false ∨ env.mqttState = false ∨
        env.hubAddr = none ∨ env.mqttClient = none) → InitsConnected env ram := fun hdefined h ↦
    ⟨_, _, mqttInit_eq hdefined, .inr (mqttInitHandler_stops h)⟩
  by_cases hoffline : ram.ctx.wifiConfigd = false ∨ env.wifiJoined = false
  · exact iff_of_true (hstopped (by tauto) (by tauto)) (by unfold ConnectChecked; tauto)
  obtain ⟨hconfigd, hjoined⟩ := not_or.mp hoffline
  rw [Bool.not_eq_false] at hconfigd hjoined
  cases hstate : env.mqttState with
  | false =>
      have hnone : mqttInit env ram = none := by simp [mqttInit, hconfigd, hjoined, hstate]
      refine iff_of_false ?_ (by simp [ConnectChecked, hconfigd, hjoined, hstate])
      rintro ⟨err, ram', hrun, _⟩
      rw [hnone] at hrun
      exact absurd hrun (by simp)
  | true =>
      by_cases hclient : env.hubAddr = none ∨ env.mqttClient = none
      · exact iff_of_true (hstopped (by tauto) (by tauto)) (by unfold ConnectChecked; tauto)
      obtain ⟨haddr, hnew⟩ := not_or.mp hclient
      obtain ⟨addr, haddr'⟩ := Option.ne_none_iff_exists'.mp haddr
      obtain ⟨client, hnew'⟩ := Option.ne_none_iff_exists'.mp hnew
      rw [inits_client_iff hconfigd hjoined hstate haddr' hnew']
      simp [ConnectChecked, hconfigd, hjoined, hstate, haddr', hnew']

/-- Without a token, the flag is set although the client has not connected. -/
theorem flag_without_connection : ¬ ∀ (env : Env) (ram : Ram), InitsConnected env ram := by
  intro hclaim
  let env : Env := { mqttConnected := false }
  let ram : Ram := { ctx := { bootCtx with wifiConfigd := true } }
  have hcode : (mqttInit env ram).map (fun result ↦ result.1.code) = some 0 := by decide +kernel
  obtain ⟨err, ram', hrun, hresult⟩ := hclaim env ram
  rw [hrun, Option.map_some, Option.some.injEq] at hcode
  rcases hresult with ⟨_, _, hconnected⟩ | ⟨herr, _⟩
  · exact absurd hconnected.connected (by decide)
  · exact herr hcode

end DirtieNode.Connect
