import DirtieNode.AccessPoint.Server
import DirtieNode.Library.Transition

/-!
# The resources of a connection

A connection through the callbacks that lwIP can make. A reply returns without freeing its pbuf,
and `tcp_server_err` closes a pcb that is gone, or leaves the connection state behind.
-/

namespace DirtieNode.AccessPoint

open CString State Transition

/-- Every pbuf has been freed once, the connection state once if the connection is over, and no
`tcp_` function has been called on a pcb that was gone. -/
structure Balanced (c : Conn) : Prop where
  pbufs : ∀ id < c.res.given, c.res.freed.count id = 1
  once : c.res.conFrees ≤ 1
  ended : c.res.pcb ≠ .live → c.res.conFrees = 1
  pcb : c.res.misused = false

/-- The callback is not `err`, and if it answers a request, then `tcp_write` fails and the
connection can be closed, so that lwIP keeps the pbuf. -/
def Callback.Harmless (c : Conn) : Callback → Prop
  | .recv (some p) env => Answers c p → env.write ≠ .ok ∧ env.write ≠ .abrt ∧ env.close = .ok
  | .err _ _ => False
  | _ => True

instance (c : Conn) : (e : Callback) → Decidable (e.Harmless c)
  | .recv (some p) env =>
      inferInstanceAs (Decidable
        (Answers c p → env.write ≠ .ok ∧ env.write ≠ .abrt ∧ env.close = .ok))
  | .err _ _ => .isFalse id
  | .recv none _ => .isTrue trivial
  | .sent _ _ => .isTrue trivial
  | .poll _ => .isTrue trivial

/-- What a connection with this behaviour has done so far: its pbufs are freed, and the connection
state is freed with the end of the connection. -/
structure ResInv (r : Resources) : Prop where
  misused : r.misused = false
  conFrees : r.conFrees = if r.pcb = .live then 0 else 1
  freed : ∀ id, r.freed.count id = if id < r.given then 1 else 0

/-- The invariant gives the balance. -/
theorem balanced_of_inv {c : Conn} (h : ResInv c.res) : Balanced c := by
  refine ⟨fun id hid ↦ ?_, ?_, fun hended ↦ ?_, h.misused⟩
  · rw [h.freed id, if_pos hid]
  · rw [h.conFrees]
    split <;> omega
  · rw [h.conFrees, if_neg hended]

section Steps

variable {env : SocketEnv} {closeErr : ErrT} {r : Resources} {c c' : Conn} {e : Callback}

/-- A call on a live pcb changes nothing. -/
theorem tcpCall_live (h : r.pcb = .live) : r.tcpCall = r := by
  rw [Resources.tcpCall, decide_eq_false (not_not_intro h), Bool.or_false]

/-- Closing a pcb that is there ends the connection. -/
theorem tcpCloseClientConnection_live (h : r.pcb = .live) :
    tcpCloseClientConnection env closeErr r =
      (if env.close = .ok then closeErr else .abrt, { r with
        pcb := if env.close = .ok then .closed else .aborted
        callbacks := false, conFrees := r.conFrees + 1 }) := by
  have hcall : ({ r with callbacks := false } : Resources).tcpCall =
      { r with callbacks := false } :=
    tcpCall_live h
  simp only [tcpCloseClientConnection, tcpCall_live h, hcall]
  by_cases hclose : env.close = .ok <;> simp [hclose]

/-- Closing a live connection keeps the invariant. -/
theorem inv_close (h : ResInv r) (hlive : r.pcb = .live) :
    ResInv (tcpCloseClientConnection env closeErr r).2 := by
  rw [tcpCloseClientConnection_live hlive]
  refine ⟨h.misused, ?_, h.freed⟩
  have hnone : r.conFrees = 0 := by rw [h.conFrees, if_pos hlive]
  dsimp only
  rw [hnone]
  split <;> rfl

/-- It makes no difference whether the pbuf is freed before or after the close. -/
theorem close_pbufFree (hlive : r.pcb = .live) (id : Nat) :
    (tcpCloseClientConnection env closeErr r).2.pbufFree id =
      (tcpCloseClientConnection env closeErr (r.pbufFree id)).2 := by
  have hlive' : (r.pbufFree id).pcb = .live := hlive
  rw [tcpCloseClientConnection_live hlive, tcpCloseClientConnection_live hlive']
  rfl

/-- A pbuf that has just been given is freed once. -/
theorem inv_pbufFree (h : ResInv r) :
    ResInv (({ r with given := r.given + 1 } : Resources).pbufFree r.given) := by
  refine ⟨h.misused, h.conFrees, fun id ↦ ?_⟩
  show (r.given :: r.freed).count id = if id < r.given + 1 then 1 else 0
  rw [List.count_cons, h.freed id]
  rcases Nat.lt_trichotomy id r.given with hlt | rfl | hgt
  · rw [if_pos hlt, if_neg (by simp; omega), if_pos (by omega)]
  · rw [if_neg (Nat.lt_irrefl _), if_pos (beq_self_eq_true _), if_pos (Nat.lt_succ_self _)]
  · rw [if_neg (by omega), if_neg (by simp; omega), if_neg (by omega)]

/-- A reply returns what `tcp_write` does, unless the connection has to be aborted. -/
theorem reply_live (env : SocketEnv) (hlive : c.res.pcb = .live) (response : List UInt8) :
    (c.reply env response).1 = (if env.close = .ok then env.write else .abrt) ∧
      (c.reply env response).2.res = (tcpCloseClientConnection env env.write c.res).2 := by
  simp only [Conn.reply, Conn.close, tcpCall_live hlive, tcpCloseClientConnection_live hlive,
    and_self]

/-- A data callback. -/
theorem recv_step {p : Pbuf} (h : ResInv c.res) (hlive : c.res.pcb = .live)
    (hstep : connStep c (.recv (some p) env) = some c') :
    ResInv c'.res ∧ Callback.Harmless c (.recv (some p) env) ∨
      ¬ Balanced c' ∧ ¬ Callback.Harmless c (.recv (some p) env) := by
  have hcallbacks : c.res.callbacks = true := by
    unfold connStep at hstep
    split at hstep
    · rename_i hlive
      exact hlive.1
    · simp at hstep
  simp only [connStep, if_pos (And.intro hcallbacks hlive)] at hstep
  let given : Conn := { c with res := { c.res with given := c.res.given + 1 } }
  by_cases hanswers : Answers c p
  · obtain ⟨before, after, hsplit⟩ := hanswers.split
    obtain ⟨accepted, ctx, -, hrun⟩ := tcpServerRecv_answers env c.res.given given hanswers.1
      hanswers.2.1 hsplit
    rw [hrun, Option.map_some, Option.some.injEq] at hstep
    generalize (if accepted = true then response200 else response400) = response at hstep
    let answered : Conn := { given with
      state := { given.state with headers := given.state.headers.copy p.bytes }, ctx := ctx }
    have hanswered : answered.res.pcb = .live := hlive
    obtain ⟨herr, hres⟩ := reply_live env hanswered response
    by_cases hkeeps : env.write ≠ .ok ∧ env.write ≠ .abrt ∧ env.close = .ok
    · -- lwIP keeps the pbuf, and frees it with the pcb
      rw [if_pos hkeeps.2.2] at herr
      rw [herr, if_neg (by simp [hkeeps])] at hstep
      refine .inl ⟨?_, fun _ ↦ hkeeps⟩
      rw [← hstep]
      show ResInv (Resources.pbufFree _ _)
      rw [hres, close_pbufFree hanswered]
      exact inv_close (inv_pbufFree h) hlive
    · refine .inr ⟨fun hbalanced ↦ ?_, fun hharmless ↦ hkeeps (hharmless hanswers)⟩
      -- nobody has freed the pbuf
      have howns : (if env.close = .ok then env.write else ErrT.abrt) = .ok ∨
          (if env.close = .ok then env.write else ErrT.abrt) = .abrt := by
        by_cases hclose : env.close = .ok
        · by_cases hok : env.write = .ok
          · exact .inl (by rw [if_pos hclose, hok])
          · refine .inr ?_
            rw [if_pos hclose]
            by_contra habrt
            exact hkeeps ⟨hok, habrt, hclose⟩
        · exact .inr (by rw [if_neg hclose])
      rw [herr, if_pos howns] at hstep
      have hcount := hbalanced.pbufs c.res.given
      rw [← hstep, hres, tcpCloseClientConnection_live hanswered] at hcount
      replace hcount : c.res.freed.count c.res.given = 1 := hcount (Nat.lt_succ_self _)
      rw [h.freed, if_neg (Nat.lt_irrefl _)] at hcount
      exact absurd hcount (by decide)
  · replace hanswers : ¬ Answers given p := hanswers
    obtain ⟨next, hrun, -, -, hres⟩ := tcpServerRecv_ignores env c.res.given hanswers
    rw [hrun, Option.map_some, if_pos (.inl rfl)] at hstep
    obtain rfl := Option.some.inj hstep
    refine .inl ⟨?_, fun hyes ↦ absurd hyes hanswers⟩
    have hcall : given.res.tcpCall = given.res := tcpCall_live hlive
    rw [hcall, or_self] at hres
    rw [hres]
    exact inv_pbufFree h

/-- A callback keeps the balance exactly when it returns its pbuf and leaves the pcb alone. -/
theorem conn_step (h : ResInv c.res) (hstep : connStep c e = some c') :
    ResInv c'.res ∧ e.Harmless c ∨ ¬ Balanced c' ∧ ¬ e.Harmless c := by
  have hlive : c.res.callbacks = true ∧ c.res.pcb = .live := by
    unfold connStep at hstep
    split at hstep
    · assumption
    · simp at hstep
  cases e with
  | recv p env =>
      cases p with
      | none =>
          simp only [connStep, if_pos hlive, tcpServerRecv, Option.map_some] at hstep
          obtain rfl := Option.some.inj hstep
          exact .inl ⟨inv_close h hlive.2, trivial⟩
      | some p => exact recv_step h hlive.2 hstep
  | sent len env =>
      simp only [connStep, if_pos hlive, tcpServerSent] at hstep
      obtain rfl := Option.some.inj hstep
      refine .inl ⟨?_, trivial⟩
      split
      · exact inv_close h hlive.2
      · exact h
  | poll env =>
      simp only [connStep, if_pos hlive] at hstep
      obtain rfl := Option.some.inj hstep
      exact .inl ⟨inv_close h hlive.2, trivial⟩
  | err err env =>
      simp only [connStep, if_pos hlive, tcpServerErr] at hstep
      obtain rfl := Option.some.inj hstep
      refine .inr ⟨fun hbalanced ↦ ?_, id⟩
      split at hbalanced
      · -- the pcb is closed after it has been deallocated
        have hmisused := hbalanced.pcb
        simp only [Conn.close, tcpCloseClientConnection, Resources.tcpCall] at hmisused
        split at hmisused <;> simp at hmisused
      · -- the connection is over, and its state is still there
        have hfrees := hbalanced.ended (by simp)
        replace hfrees : c.res.conFrees = 1 := hfrees
        rw [h.conFrees, if_pos hlive.2] at hfrees
        exact absurd hfrees (by decide)

end Steps

/-- Along the callbacks of a connection its resources are balanced exactly when none of them is
`err`, and none answers a request and returns `ERR_OK` or `ERR_ABRT`. -/
theorem balanced_iff {ctx : AppCtx} {trace : List (Taken Conn Callback)} {c : Conn}
    (h : Run connStep { ctx := ctx } trace c) :
    (∀ taken ∈ trace, Balanced taken.after) ↔
      ∀ taken ∈ trace, taken.event.Harmless taken.before := by
  rw [← along_forall, ← along_forall]
  refine h.along_iff (fun _ c ↦ ResInv c.res) ⟨rfl, rfl, fun id ↦ ?_⟩
    (fun _ before e after _ hinv hstep ↦ ?_) (fun _ before e after _ hinv hstep hcond ↦ ?_)
  · rw [if_neg (Nat.not_lt_zero id)]
    rfl
  · rcases conn_step hinv hstep with ⟨hafter, hharmless⟩ | ⟨hbad, hkeeps⟩
    · exact iff_of_true (balanced_of_inv hafter) hharmless
    · exact iff_of_false hbad hkeeps
  · rcases conn_step hinv hstep with ⟨hafter, -⟩ | ⟨-, hkeeps⟩
    · exact hafter
    · exact absurd hcond hkeeps

/-- A request in one segment, followed by a zero in memory. -/
def requestPbuf (text : String) (h : (lit text).length < 2 ^ 16 := by decide) : Pbuf where
  payload := lit text
  next := []
  fits := h
  behind := []
  nul_free := List.not_mem_nil
  memory := Nat.two_pow_pos 28

/-- A client that asks for a page and hangs up. -/
theorem balanced_other_request : ∃ (trace : List (Taken Conn Callback)) (c : Conn),
    Run connStep { ctx := bootCtx } trace c ∧ c.res.pcb = .closed ∧
      ∀ taken ∈ trace, Balanced taken.after := by
  obtain ⟨trace, c, hrun, htest⟩ := exists_run_of_record connStep { ctx := bootCtx }
    [.recv (some (requestPbuf "GET / HTTP/1.1\r\n\r\n")) {}, .recv none {}]
    (fun trace c ↦ decide (c.res.pcb = .closed) &&
      trace.all fun taken ↦ decide (taken.event.Harmless taken.before)) (by decide +kernel)
  simp only [Bool.and_eq_true, decide_eq_true_eq, List.all_eq_true] at htest
  exact ⟨trace, c, hrun, htest.1, (balanced_iff hrun).mpr htest.2⟩

/-- A request that is answered leaves its pbuf behind. -/
theorem reply_leaks_pbuf : ¬ ∀ (ctx : AppCtx) (trace : List (Taken Conn Callback)) (c : Conn),
    Run connStep { ctx := ctx } trace c → ∀ taken ∈ trace, Balanced taken.after := by
  intro hclaim
  obtain ⟨trace, c, hrun, htest⟩ := exists_run_of_record connStep { ctx := bootCtx }
    [.recv (some (requestPbuf "POST /provision HTTP/1.1\r\n\r\n")) {}]
    (fun trace _ ↦ trace.head?.any fun taken : Taken Conn Callback ↦
      decide (0 < taken.after.res.given ∧ taken.after.res.freed = [])) (by decide +kernel)
  cases trace with
  | nil => simp at htest
  | cons taken older =>
      simp only [List.head?_cons, Option.any_some, decide_eq_true_eq] at htest
      have hcount := (hclaim bootCtx _ c hrun taken List.mem_cons_self).pbufs 0 htest.1
      rw [htest.2] at hcount
      exact absurd hcount (by decide)

end DirtieNode.AccessPoint
