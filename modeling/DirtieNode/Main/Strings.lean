import DirtieNode.Main.Steps

/-!
# What the node sees of its arrays

The bytes behind the terminators of the four arrays make no difference. Two blocks with the same
four strings are alike: the copies of a request keep them alike, and the handlers and `update_state`
do the same with the one as with the other.
-/

namespace DirtieNode.Main

open CString Flashmem Logger State Transition Util

variable {env : Env} {err : DtErr} {ram ram' : Ram} {text text' : CtxText} {event : Event}
  {bytes bytes' after src : List UInt8} {dst : Nat}

/-- The offsets of the four arrays. -/
def arrays : List Nat := [wifiSsid, wifiPass, prvToken, hubLoc]

/-- The same strings start at the four offsets. -/
def AlikeAt (bytes bytes' : List UInt8) : Prop :=
  bytes'.length = bytes.length ∧ ∀ offset ∈ arrays, strAt bytes offset = strAt bytes' offset

/-- The two blocks have the same four strings. -/
def Alike (text text' : CtxText) : Prop :=
  AlikeAt text.bytes text'.bytes

/-- A block is like itself. -/
theorem Alike.refl (text : CtxText) : Alike text text :=
  ⟨rfl, fun _ _ ↦ rfl⟩

/-- Blocks that are alike have the same string in each array. -/
theorem Alike.str (h : Alike text text') {offset : Nat} (hoffset : offset ∈ arrays) :
    text'.str offset = text.str offset :=
  (h.2 offset hoffset).symm

/-- The bytes of a block are a block. -/
theorem ofBytes_bytes (text : CtxText) : CtxText.ofBytes text.bytes = some text :=
  dif_pos ⟨text.size, text.ends⟩

/-- A block has the bytes it was made from. -/
theorem bytes_of_ofBytes (h : CtxText.ofBytes bytes = some text) : text.bytes = bytes := by
  unfold CtxText.ofBytes at h
  split at h
  · rw [← Option.some.inj h]
  · exact absurd h (by simp)

/-- The same terminated bytes keep the blocks alike. -/
theorem AlikeAt.memcpy (h : AlikeAt bytes bytes') (hsrc : src.getLast? = some 0)
    (hcopy : CString.memcpy bytes dst src = some after) :
    ∃ after', CString.memcpy bytes' dst src = some after' ∧ AlikeAt after after' := by
  cases hcopy' : CString.memcpy bytes' dst src with
  | none =>
      have hroom := memcpy_eq_none_iff.not.mp (hcopy ▸ Option.some_ne_none after)
      rw [memcpy_eq_none_iff, h.1] at hcopy'
      exact absurd hcopy' hroom
  | some after' =>
      refine ⟨after', rfl, ?_, fun offset hoffset ↦ ?_⟩
      · rw [memcpy_length hcopy', memcpy_length hcopy, h.1]
      · rw [strAt_memcpy hcopy hsrc, strAt_memcpy hcopy' hsrc, h.2 offset hoffset]

/-! ## Requests -/

/-- A copy of a stretch of the body is one copy with its terminator. -/
theorem copyField_memcpy {json : List UInt8} {offset start len : Nat}
    (h : AccessPoint.copyField bytes offset json start len = some after) :
    ∃ src, src.length = len + 1 ∧ src.getLast? = some 0 ∧ memcpy bytes offset src = some after ∧
      ∀ bytes', AccessPoint.copyField bytes' offset json start len = memcpy bytes' offset src := by
  unfold AccessPoint.copyField at h
  simp only [bind, Option.bind_eq_some_iff] at h
  obtain ⟨chunk, hload, copied, hcopy, hend⟩ := h
  have hlength : chunk.length = len := by
    unfold load at hload
    split at hload
    · obtain rfl := Option.some.inj hload
      rw [List.length_take, List.length_drop]
      omega
    · exact absurd hload (by simp)
  have hwhole : ∀ bytes', AccessPoint.copyField bytes' offset json start len =
      memcpy bytes' offset (chunk ++ [0]) := by
    intro bytes'
    rw [← memcpy_memcpy, AccessPoint.copyField, hload, hlength]
    rfl
  refine ⟨chunk ++ [0], by rw [List.length_append, hlength]; rfl, List.getLast?_concat, ?_, hwhole⟩
  rw [← memcpy_memcpy, hcopy, Option.bind_some, hlength]
  exact hend

/-- The copies of a request keep the blocks alike, and leave their last bytes alone. -/
theorem AlikeAt.copyField {json : List UInt8} {offset start len : Nat} (h : AlikeAt bytes bytes')
    (hinside : offset + len < 255)
    (hcopy : AccessPoint.copyField bytes offset json start len = some after) :
    ∃ after', AccessPoint.copyField bytes' offset json start len = some after' ∧
      AlikeAt after after' ∧ after'[255]? = bytes'[255]? := by
  obtain ⟨src, hlength, hsrc, hmemcpy, hwhole⟩ := copyField_memcpy hcopy
  obtain ⟨after', hcopy', halike⟩ := h.memcpy hsrc hmemcpy
  refine ⟨after', (hwhole bytes').trans hcopy', halike, ?_⟩
  rw [memcpy_getElem? hcopy', if_neg (by omega)]

/-- A request is answered alike, and leaves blocks that are alike. -/
theorem parse_alike {json : List UInt8} {ctx ctx' : AppCtx} {accepted : Bool}
    (h : AccessPoint.parseWifiCredentials json ctx = some (accepted, ctx'))
    (halike : Alike ctx.text text) :
    ∃ text', AccessPoint.parseWifiCredentials json { ctx with text := text } =
      some (accepted, { ctx' with text := text' }) ∧ Alike ctx'.text text' := by
  unfold AccessPoint.parseWifiCredentials at h ⊢
  simp only [bind, pure, Option.bind_eq_some_iff] at h
  obtain ⟨ssidStart, hssid, pwStart, hpw, tknStart, htkn, h⟩ := h
  simp only [hssid, hpw, htkn, bind, pure, Option.bind_some]
  split at h
  · simp only [Option.bind_eq_some_iff] at h
    obtain ⟨ssidEnd, hssidEnd, pwEnd, hpwEnd, tknEnd, htknEnd, h⟩ := h
    simp only [hssidEnd, hpwEnd, htknEnd, Option.bind_some]
    split at h
    · split at h
      · rename_i hlong
        obtain ⟨rfl, rfl⟩ := Prod.mk.inj (Option.some.inj h)
        simp only [if_pos hlong]
        exact ⟨text, rfl, halike⟩
      · rename_i hshort
        simp only [Option.bind_eq_some_iff, Option.some.injEq, Prod.mk.injEq] at h
        obtain ⟨first, hfirst, second, hsecond, third, hthird, final, hfinal, rfl, rfl⟩ := h
        have hbound : wifiSsid = 0 ∧ wifiPass = 64 ∧ prvToken = 128 := ⟨rfl, rfl, rfl⟩
        obtain ⟨first', hfirst', halike, hend⟩ := halike.copyField (by omega) hfirst
        obtain ⟨second', hsecond', halike, hend'⟩ := halike.copyField (by omega) hsecond
        obtain ⟨third', hthird', halike, hend''⟩ := halike.copyField (by omega) hthird
        have hsize : final.bytes = third := bytes_of_ofBytes hfinal
        let last : CtxText := ⟨third', by rw [halike.1, ← hsize, final.size],
          by rw [hend'', hend', hend, text.ends]⟩
        have hlast : CtxText.ofBytes third' = some last := ofBytes_bytes last
        simp only [if_neg hshort, hfirst', hsecond', hthird', hlast, Option.bind_some]
        refine ⟨last, rfl, ?_⟩
        show AlikeAt final.bytes third'
        rwa [hsize]
    · obtain ⟨rfl, rfl⟩ := Prod.mk.inj (Option.some.inj h)
      exact ⟨text, rfl, halike⟩
  · obtain ⟨rfl, rfl⟩ := Prod.mk.inj (Option.some.inj h)
    exact ⟨text, rfl, halike⟩

/-! ## Handlers -/

/-- The same memory with other arrays. -/
def withText (text : CtxText) (ram : Ram) : Ram :=
  { ram with ctx := { ram.ctx with text := text } }

@[simp] theorem withText_ctx : (withText text ram).ctx = { ram.ctx with text := text } := rfl

@[simp] theorem withText_logs : (withText text ram).logs = ram.logs := rfl

@[simp] theorem withText_self : withText ram.ctx.text ram = ram := rfl

/-- The result of a handler with other arrays. -/
def resultWithText (text : CtxText) (result : DtErr × Ram) : DtErr × Ram :=
  (result.1, withText text result.2)

/-- `publish` does not look at the arrays. -/
theorem publish_withText (topic message : List UInt8) :
    Connect.publish env topic message (withText text ram) =
      resultWithText text (Connect.publish env topic message ram) := by
  unfold Connect.publish
  dsimp only
  split <;> rfl

/-- The provisioning depends on the token's string alone. -/
theorem provisionToken_withText (h : Alike ram.ctx.text text) :
    Connect.provisionToken env (withText text ram) =
      resultWithText text (Connect.provisionToken env ram) := by
  have htoken : text.str prvToken = ram.ctx.text.str prvToken := h.str (by simp [arrays])
  unfold Connect.provisionToken Connect.provision
  simp only [withText_ctx, htoken]
  split
  · split
    · rfl
    · exact publish_withText _ _
  · rfl

/-- A log message does not look at the arrays. -/
theorem dlog_withText (env : Env) (k : Nat) (lvl : LogLvl) (mesg : List UInt8) :
    (withText text ram).dlog env k lvl mesg = withText text (ram.dlog env k lvl mesg) := rfl

/-- The end of `mqtt_init_handler`, behind the provisioning. -/
def mqttInitEnd (env : Env) (provisioned : DtErr × Ram) : DtErr × Ram :=
  if provisioned.1 ≠ .ok then
    (provisioned.1, provisioned.2.dlog env 2 .info (lit "Failed to provision device\n"))
  else (.ok, { provisioned.2 with ctx := { provisioned.2.ctx with mqttInitd := true } })

/-- Behind the provisioning nothing looks at the arrays. -/
theorem mqttInitEnd_withText (provisioned : DtErr × Ram) :
    mqttInitEnd env (resultWithText text provisioned) =
      resultWithText text (mqttInitEnd env provisioned) := by
  have herr : (resultWithText text provisioned).1 = provisioned.1 := rfl
  unfold mqttInitEnd
  rw [herr]
  by_cases hfailed : provisioned.1 ≠ .ok
  · rw [if_pos hfailed, if_pos hfailed]
    rfl
  · rw [if_neg hfailed, if_neg hfailed]
    rfl

/-- `mqtt_init_handler` depends on three of the strings. -/
theorem mqttInitHandler_withText (h : Alike ram.ctx.text text) :
    Connect.mqttInitHandler env (withText text ram) =
      resultWithText text (Connect.mqttInitHandler env ram) := by
  have hssid : text.str wifiSsid = ram.ctx.text.str wifiSsid := h.str (by simp [arrays])
  unfold Connect.mqttInitHandler
  simp only [withText_ctx, hssid, dlog_withText]
  split
  · rfl
  · generalize hconnecting : ram.dlog env 0 .info _ = connecting
    split
    · rfl
    · generalize hconnected : connecting.dlog env 1 .info _ = connected
      have hctx : connected.ctx = ram.ctx := by
        rw [← hconnected, ← hconnecting]
        rfl
      have halike : Alike connected.ctx.text text := by
        rw [hctx]
        exact h
      have hhub : text.str hubLoc = connected.ctx.text.str hubLoc := halike.str (by simp [arrays])
      split
      · rfl
      · split
        · simp only [hhub]
          rfl
        · split
          · rfl
          · rename_i addr _ _ client _
            let ram : Ram := { connected with ctx := { connected.ctx with
              mqttClient := some ⟨addr, some client, env.mqttConnected⟩ } }
            have hram : Alike ram.ctx.text text := halike
            show mqttInitEnd env (Connect.provisionToken env (withText text ram)) =
              resultWithText text (mqttInitEnd env (Connect.provisionToken env ram))
            rw [provisionToken_withText hram, mqttInitEnd_withText]

/-- A measurement is published with the token's string. -/
theorem breadcrumb_withText (h : Alike ram.ctx.text text) :
    Connect.breadcrumb env (withText text ram) =
      resultWithText text (Connect.breadcrumb env ram) := by
  have htoken : text.str prvToken = ram.ctx.text.str prvToken := h.str (by simp [arrays])
  unfold Connect.breadcrumb
  simp only [withText_ctx, htoken]
  split
  · rfl
  · exact publish_withText _ _

/-- A log dump is published with the token's string. -/
theorem logdumpHandler_withText (h : Alike ram.ctx.text text) :
    Connect.logdumpHandler env (withText text ram) =
      resultWithText text (Connect.logdumpHandler env ram) := by
  have htoken : text.str prvToken = ram.ctx.text.str prvToken := h.str (by simp [arrays])
  unfold Connect.logdumpHandler Connect.logdump
  simp only [withText_ctx, withText_logs, htoken]
  split
  · split
    · rfl
    · split
      · rfl
      · split
        · rename_i heap _ _
          split
          · rfl
          · exact @publish_withText env
              { ram with logs := freeLogs { ram.logs with heap := heap } } text _ _
        · rfl
  · rfl

/-- The handlers that touch only memory depend on the strings alone. -/
theorem ramHandler_withText {state : LoopState} (h : Alike ram.ctx.text text) :
    ramHandler env (withText text ram) state =
      (ramHandler env ram state).map (resultWithText text) := by
  cases state with
  | mqttInit => exact congrArg some (mqttInitHandler_withText h)
  | mqttPublish => exact congrArg some (breadcrumb_withText h)
  | logdump => exact congrArg some (logdumpHandler_withText h)
  | senseInit =>
      refine congrArg some ?_
      unfold Sensor.senseInitHandler
      dsimp only
      split <;> rfl
  | ntpSync =>
      refine congrArg some ?_
      unfold ntpSyncHandler
      dsimp only [withText_ctx]
      split <;> rfl
  | _ => rfl

/-- They do not write to the arrays. -/
theorem ramHandler_text (h : ramHandler env ram ram.ctx.loopState = some (err, ram')) :
    ram'.ctx.text = ram.ctx.text := by
  have hctx := ramHandler_cases rfl h
  have hstate : ram.ctx.loopState ≠ .flashInit := by
    intro hinit
    rw [hinit] at h
    exact absurd h (by simp [ramHandler])
  generalize ram'.ctx = ctx at hctx ⊢
  cases hctx with
  | unread _ _ hinit | unconfigured _ hinit | restored _ hinit => exact absurd hinit hstate
  | _ => rfl

/-! ## `update_state` -/

/-- `update_state` does not look at the arrays. -/
theorem updateState_withText : updateState env (withText text ram) =
    withText text (updateState env ram) := by
  have hswitch : updateSwitch env (withText text ram) = withText text (updateSwitch env ram) := by
    unfold updateSwitch
    dsimp only [withText_ctx]
    split <;> repeat' split
    all_goals rfl
  have hreset : ∀ ram, updateReset (withText text ram) = withText text (updateReset ram) := by
    intro ram
    show (if ram.ctx.reset then _ else _) = withText text (if ram.ctx.reset then _ else _)
    split <;> rfl
  have hpublish : ∀ ram, updatePublish (withText text ram) = withText text (updatePublish ram) := by
    intro ram
    show (if ram.ctx.setPublish && ram.ctx.ready then _ else _) = withText text (if _ then _ else _)
    split <;> rfl
  have hdump : ∀ ram, updateDump (withText text ram) = withText text (updateDump ram) := by
    intro ram
    show (if ram.logs.dumpLogs && ram.ctx.ready then _ else _) = withText text (if _ then _ else _)
    split <;> rfl
  rw [updateState, hswitch, hreset, hpublish, hdump]
  rfl

/-- `update_state` does not change the arrays. -/
theorem updateState_text : (updateState env ram).ctx.text = ram.ctx.text := by
  have hctx := updateState_cases env ram
  generalize (updateState env ram).ctx = ctx at hctx ⊢
  cases hctx <;> rfl

/-- The message about a failed handler does not look at the arrays. -/
theorem logError_withText : logError env err (withText text ram) =
    withText text (logError env err ram) := by
  unfold logError
  split <;> rfl

/-! ## Events between two steps -/

/-- An event between the steps of `main` keeps the memories alike. -/
theorem asyncStep_withText (h : asyncStep ram event = some ram')
    (halike : Alike ram.ctx.text text) :
    ∃ text', asyncStep (withText text ram) event = some (withText text' ram') ∧
      Alike ram'.ctx.text text' := by
  cases event with
  | main => exact absurd h (by simp [asyncStep])
  | post json =>
      simp only [asyncStep, bind, pure, Option.bind_eq_some_iff, Option.some.injEq] at h
      obtain ⟨⟨accepted, ctx⟩, hparse, rfl⟩ := h
      obtain ⟨text', hparse', halike'⟩ := parse_alike hparse halike
      refine ⟨text', ?_, halike'⟩
      simp only [asyncStep, withText_ctx, hparse', bind, pure, Option.bind_some]
      rfl
  | tick =>
      obtain rfl := Option.some.inj h
      have hset : ∃ setPublish, ∀ text, sampleRateUpdate { ram.ctx with text := text } =
          { ram.ctx with text := text, setPublish := setPublish } := by
        cases hinit : ram.ctx.mqttInitd with
        | false => exact ⟨ram.ctx.setPublish, fun _ ↦ if_neg (by simp [hinit])⟩
        | true => exact ⟨true, fun _ ↦ if_pos hinit⟩
      obtain ⟨setPublish, hctx⟩ := hset
      have hown : sampleRateUpdate ram.ctx = { ram.ctx with setPublish := setPublish } :=
        hctx ram.ctx.text
      refine ⟨text, congrArg some ?_, ?_⟩
      · show ({ withText text ram with
          ctx := sampleRateUpdate { ram.ctx with text := text } } : Ram) =
          withText text { ram with ctx := sampleRateUpdate ram.ctx }
        rw [hctx, hown]
        rfl
      · show Alike (sampleRateUpdate ram.ctx).text text
        rwa [hown]
  | dumpRequest | resetRequest | ntp =>
      obtain rfl := Option.some.inj h
      exact ⟨text, rfl, halike⟩

end DirtieNode.Main
