import DirtieNode.Main.Simulation

/-!
# Credentials across a reboot

What the bytes of the flash tell of a run that may end at any step. A credential that is settled is
read back as it stands in its array, and from the flash of a node that has left `FLASH_WRITE` the
next boot restores all three.
-/

namespace DirtieNode.Main

open CString Flashmem Logger State Transition Util

variable {hub : Hub} {env : Env} {node node' : Node Region} {atomic : Node Values}
  {region : Region} {values : Values} {content : List UInt8}
  {trace : List (Taken (Node Region) Event)} {abstract : List (Taken (Node Values) Event)}

/-- The node, but for its store. -/
def withoutStore (node : Node Region) : Node Values :=
  ⟨node.ram, fun _ ↦ none, node.hosting, node.pc⟩

/-- A request comes to an open server, and keeps the credentials that are settled. -/
def KeepsStored (taken : Taken (Node Region) Event) : Prop :=
  KeepsSettled ⟨withoutStore taken.before, taken.event, withoutStore taken.after⟩

instance (taken : Taken (Node Region) Event) : Decidable (KeepsStored taken) :=
  inferInstanceAs (Decidable (KeepsSettled _))

/-- The two nodes have settled the same credentials. -/
theorem Simulates.settled (h : Simulates node atomic) :
    settled atomic = settled (withoutStore node) := by
  obtain ⟨⟨text, _, hram⟩, _, hpc, _⟩ := h
  unfold Main.settled
  rw [hram, hpc]
  rfl

/-- The two nodes have the same strings in their arrays. -/
theorem Simulates.str (h : Simulates node atomic) (field : Credential) :
    atomic.ram.ctx.text.str field.offset = node.ram.ctx.text.str field.offset := by
  obtain ⟨⟨text, halike, hram⟩, _, _, _⟩ := h
  rw [hram]
  exact halike.str (offset_mem_arrays field)

/-- A request that keeps what is settled does so over the atomic store. -/
theorem SameStep.keepsSettled {taken : Taken (Node Region) Event}
    {abstractTaken : Taken (Node Values) Event} (h : SameStep taken abstractTaken)
    (hkeeps : KeepsStored taken) : KeepsSettled abstractTaken := by
  obtain ⟨hevent, hbefore, hafter⟩ := h
  intro hpost
  rw [hevent] at hpost
  obtain ⟨hopen, hkept⟩ := hkeeps hpost
  refine ⟨hbefore.hosting.trans hopen, fun field hfield ↦ ?_⟩
  rw [hbefore.settled] at hfield
  rw [hafter.str, hbefore.str]
  exact hkept field hfield

/-- Texts that fit the arrays are those of one block, if none of them is missing. -/
theorem restorable_of_fits (h : credentialKeys.Represents region values content)
    (hfits : FitsArrays region) : Restorable values := by
  obtain ⟨found, hfound, hlengths⟩ := hfits
  obtain rfl := (get_eq_some_iff.mp hfound).unique h.holds
  by_cases hnone : ∃ field : Credential, lookup found field.key = none
  · obtain ⟨field, hfield⟩ := hnone
    have hvalue : (lookup found field.key).map unescape = values field.key.bytes := h.lookup field
    rw [hfield, Option.map_none] at hvalue
    exact .inl ⟨field, hvalue.symm⟩
  · have hsome : ∀ field : Credential, ∃ text, lookup found field.key = some text := fun field ↦
      Option.ne_none_iff_exists'.mp fun hfield ↦ hnone ⟨field, hfield⟩
    choose text htext using hsome
    have hvalue : ∀ field : Credential, (lookup found field.key).map unescape =
        some (unescape (text field)) := by
      intro field
      rw [htext field, Option.map_some]
    refine .inr (stores_of_short (fun field ↦ unescape (text field)) (fun field ↦ ?_)
      (fun field ↦ (lookup_value h.holds (hvalue field)).1) fun field ↦ ?_)
    · exact (h.lookup field).symm.trans (hvalue field)
    · exact Nat.lt_of_le_of_lt (unescape_length_le _) (hlengths field _ (htext field))

/-- A boot from texts that fit is one from an atomic store that it can restore from. -/
theorem SameStep.bootsRestorable {taken : Taken (Node Region) Event}
    {abstractTaken : Taken (Node Values) Event} (h : SameStep taken abstractTaken)
    (hclean : CleanStep taken) : BootsRestorable abstractTaken := by
  obtain ⟨hevent, hbefore, _⟩ := h
  obtain ⟨⟨text, _, hram⟩, _, hpc, ⟨content, hstore⟩⟩ := hbefore
  intro env hmain hcall hinit
  have hcalled : called .flashInit taken = some env := by
    refine called_eq_some.mpr ⟨hevent.symm.trans hmain, hpc.symm.trans hcall, ?_⟩
    rwa [hram] at hinit
  exact restorable_of_fits hstore (hclean.boots (by rw [hcalled]; rfl))

/-- The conditions on a run over the bytes carry over to the run over the atomic store. -/
theorem settledConds_of_sameSteps (h : List.Forall₂ SameStep trace abstract)
    (hclean : ∀ taken ∈ trace, CleanStep taken) (hkeeps : ∀ taken ∈ trace, KeepsStored taken) :
    ∀ taken ∈ abstract, KeepsSettled taken ∧ BootsRestorable taken := by
  induction h with
  | nil => simp
  | cons hone _ ih =>
      intro taken hmem
      rcases List.mem_cons.mp hmem with rfl | hmem
      · exact ⟨hone.keepsSettled (hkeeps _ List.mem_cons_self),
          hone.bootsRestorable (hclean _ List.mem_cons_self)⟩
      · exact ih (fun taken hmem ↦ hclean taken (List.mem_cons_of_mem _ hmem))
          (fun taken hmem ↦ hkeeps taken (List.mem_cons_of_mem _ hmem)) taken hmem

/-- The flash represents values that have every settled credential. -/
theorem represents_settled (h : credentialKeys.Represents region values content)
    (hrun : Run (step byteStore) (boot hub env region) trace node)
    (hclean : ∀ taken ∈ trace, CleanStep taken) (hkeeps : ∀ taken ∈ trace, KeepsStored taken) :
    ∃ values' final, credentialKeys.Represents node.store values' final ∧
      ∀ field ∈ settled (withoutStore node),
        values' field.key.bytes = some (node.ram.ctx.text.str field.offset) := by
  obtain ⟨abstract, atomic, hatomic, hnode, hsteps⟩ :=
    simulates_run (simulates_boot hub env h) hrun hclean
  have hsettled : SettledInv atomic :=
    hatomic.invariant_of_forall SettledInv (settledConds_of_sameSteps hsteps hclean hkeeps)
      (settledInv_boot hub env values) fun _ _ _ hinv hstep ⟨hkept, hboot⟩ ↦
        settledInv_step hinv hstep hkept hboot
  obtain ⟨final, hfinal⟩ := hnode.store
  refine ⟨atomic.store, final, hfinal, fun field hfield ↦ ?_⟩
  rw [← hnode.str]
  exact hsettled.settled field (hnode.settled ▸ hfield)

/-- A node that is provisioned once, over the bytes of an empty flash. -/
theorem provisioned_first : ∃ (trace : List (Taken (Node Region) Event)) (node : Node Region),
    Run (step byteStore) zeroNode trace node ∧ node.ram.ctx.loopState = .mqttInit ∧
      node.ram.ctx.text.str wifiSsid = lit "home" ∧ FitsArrays node.store ∧
        ∀ taken ∈ trace, CleanStep taken ∧ KeepsStored taken := by
  obtain ⟨trace, node, hrun, htest⟩ := exists_run_of_record (step byteStore) zeroNode
    provisionEvents (fun trace node ↦ node.ram.ctx.loopState == .mqttInit &&
      node.ram.ctx.text.str wifiSsid == lit "home" && decide (FitsArrays node.store) &&
        trace.all fun taken ↦ decide (CleanStep taken ∧ KeepsStored taken))
    (by decide +kernel)
  simp only [Bool.and_eq_true, beq_iff_eq, List.all_eq_true, decide_eq_true_eq] at htest
  exact ⟨trace, node, hrun, htest.1.1.1, htest.1.1.2, htest.1.2, htest.2⟩

/-- In every state of a run over the bytes of the flash, `read` returns for a settled credential the
string of its array. -/
theorem flash_holds_settled (h : credentialKeys.Represents region values content)
    (hrun : Run (step byteStore) (boot hub env region) trace node)
    (hclean : ∀ taken ∈ trace, CleanStep taken) (hkeeps : ∀ taken ∈ trace, KeepsStored taken)
    {field : Credential} (hfield : field ∈ settled (withoutStore node)) {out : List UInt8}
    (hroom : nvsSize ≤ out.length) :
    outcome field.key node.store out =
      some (.ok, some (node.ram.ctx.text.str field.offset)) := by
  obtain ⟨values', final, hfinal, hvalues⟩ := represents_settled h hrun hclean hkeeps
  have hlookup : (lookup final field.key).map unescape = values' field.key.bytes :=
    hfinal.lookup field
  rw [outcome_holds hfinal.holds field.key_ok hroom, hlookup, hvalues field hfield]

/-- The SSID of a first provisioning is read back. -/
theorem flash_holds_settled_ssid : ∃ (trace : List (Taken (Node Region) Event))
    (node : Node Region), Run (step byteStore) zeroNode trace node ∧
      outcome Credential.ssid.key node.store (List.replicate nvsSize 0) =
        some (.ok, some (lit "home")) := by
  obtain ⟨trace, node, hrun, hstate, hssid, _, hcond⟩ := provisioned_first
  have hsettled : .ssid ∈ settled (withoutStore node) :=
    settled_late (by simp [withoutStore, hstate]) .ssid
  refine ⟨trace, node, hrun, ?_⟩
  rw [flash_holds_settled credentialKeys.represents_empty hrun
    (fun taken hmem ↦ (hcond taken hmem).1) (fun taken hmem ↦ (hcond taken hmem).2) hsettled
    List.length_replicate.ge]
  exact congrArg (fun text ↦ some (DtErr.ok, some text)) hssid

/-! ## The next boot -/

/-- `flash_init_handler` restores three strings from a flash with texts that fit. -/
theorem flashInitHandler_restores {source : CtxText} (mallocOk : Bool) (ctx : AppCtx)
    (h : credentialKeys.Represents region values content) (hstores : Stores values source)
    (hfits : ∀ (field : Credential) (text : List UInt8), lookup content field.key = some text →
      text.length < 64) :
    ∃ ctx', flashInitHandler byteStore mallocOk ctx region = some (.ok, ctx', region) ∧
      ctx'.wifiConfigd = true ∧ SameStrings ctx'.text source := by
  have hread : ∀ (field : Credential) (ctx : AppCtx), ∃ text,
      readCredential byteStore field ctx region = some (.ok, { ctx with text := text }) := by
    intro field ctx
    obtain ⟨err, text, _, hbytes, hatomic, _⟩ :=
      readCredential_simulates h (hfits field) (Alike.refl ctx.text)
    obtain ⟨rfl, _⟩ := readCredential_stored (hstores field) hatomic
    exact ⟨text, hbytes⟩
  obtain ⟨_, hssid⟩ := hread .ssid ctx
  obtain ⟨_, hpassword⟩ := hread .password _
  obtain ⟨_, hcontract⟩ := hread .contract _
  have hinit : byteStore.initializeFlash false mallocOk region = some (.ok, region) :=
    initializeFlash_of_holds h.holds mallocOk
  have hrun := flashInitHandler_restoring hinit (.restored hssid hpassword hcontract)
  refine ⟨_, hrun, rfl, ?_⟩
  -- the strings are those that a boot from the atomic store restores
  obtain ⟨_, text, hatomic, halike⟩ := flashInitHandler_simulates h hfits (Alike.refl ctx.text) hrun
  have hsame := restoring_sameStrings hstores (flashInit_atomic hatomic).2
  intro field
  rw [← hsame field]
  exact (halike.str (offset_mem_arrays field)).symm

/-- Whenever the power goes after the node has left `FLASH_WRITE`, the first step after the next
boot restores the three credentials that the node had in its arrays, if their texts fit. -/
theorem next_boot_restores (h : credentialKeys.Represents region values content)
    (hrun : Run (step byteStore) (boot hub env region) trace node)
    (hclean : ∀ taken ∈ trace, CleanStep taken) (hkeeps : ∀ taken ∈ trace, KeepsStored taken)
    (hstate : LoopState.mqttInit.toNat ≤ node.ram.ctx.loopState.toNat)
    (hfits : FitsArrays node.store) (hub' : Hub) (env' : Env) :
    ∃ restored, step byteStore (boot hub' env' node.store) (.main env') = some restored ∧
      restored.store = node.store ∧ restored.ram.ctx.wifiConfigd = true ∧
        SameStrings restored.ram.ctx.text node.ram.ctx.text := by
  obtain ⟨values', final, hfinal, hvalues⟩ := represents_settled h hrun hclean hkeeps
  obtain ⟨found, hfound, hlengths⟩ := hfits
  obtain rfl := (get_eq_some_iff.mp hfound).unique hfinal.holds
  have hstores : Stores values' node.ram.ctx.text := fun field ↦
    hvalues field (settled_late (by exact hstate) field)
  obtain ⟨ctx', hinit, hconfigd, hsame⟩ := flashInitHandler_restores env'.zeroBuf
    (boot hub' env' node.store).ram.ctx hfinal hstores hlengths
  refine ⟨{ boot hub' env' node.store with
    ram := { (boot hub' env' node.store).ram with ctx := ctx' }, pc := .update .ok },
    ?_, rfl, hconfigd, hsame⟩
  have hboot : (boot hub' env' node.store).ram.ctx.loopState = .flashInit := rfl
  show callHandler byteStore env' (boot hub' env' node.store) = _
  rw [callHandler, hboot]
  dsimp only
  rw [show (boot hub' env' node.store).store = node.store from rfl, hinit]
  rfl

/-- The node that was provisioned once restores its SSID. -/
theorem next_boot_restores_home : ∃ (trace : List (Taken (Node Region) Event))
    (node restored : Node Region), Run (step byteStore) zeroNode trace node ∧
      step byteStore (boot defaultHub quietEnv node.store) (.main quietEnv) = some restored ∧
        restored.ram.ctx.text.str wifiSsid = lit "home" := by
  obtain ⟨trace, node, hrun, hstate, hssid, hfits, hcond⟩ := provisioned_first
  obtain ⟨restored, hstep, _, _, hsame⟩ := next_boot_restores
    credentialKeys.represents_empty hrun (fun taken hmem ↦ (hcond taken hmem).1)
    (fun taken hmem ↦ (hcond taken hmem).2) (by simp [hstate]) hfits defaultHub quietEnv
  exact ⟨trace, node, restored, hrun, hstep, (hsame .ssid).trans hssid⟩

end DirtieNode.Main
