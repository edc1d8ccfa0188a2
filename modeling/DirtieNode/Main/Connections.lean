import DirtieNode.AccessPoint.Balance
import DirtieNode.Main.Provision
import DirtieNode.Main.Publications

/-!
# Connections to the provisioning server

The node together with the connections that its server has accepted. All of them write to the one
context of the node, in callbacks that come in any order and between any two steps of the main
program. `site_run` says that the node sees nothing of this but requests, one for each reply, so
that what holds of every run of the node holds with the server in front of it.
-/

namespace DirtieNode.Main

open AccessPoint CString Flashmem Logger State Transition Util

variable {σ : Type} {ops : StoreOps σ} {hub : Hub} {env : Env} {store : σ} {node node' : Node σ}
  {c c' : Conn} {e : Callback} {event : Event}

/-! ## One connection -/

/-- The reply to a request. -/
def response (accepted : Bool) : List UInt8 :=
  if accepted then response200 else response400

/-- What a callback does: it leaves the context alone and sends nothing, or it answers a request,
and the connection is over. -/
inductive ConnChange (c c' : Conn) : Prop
  | quiet (hctx : c'.ctx = c.ctx) (hreplies : c'.replies = c.replies)
  | reply (json : CStr) (accepted : Bool)
      (hparse : parseWifiCredentials (json.bytes ++ [0]) c.ctx = some (accepted, c'.ctx))
      (hreplies : c'.replies = response accepted :: c.replies) (hover : c'.res.callbacks = false)

/-- A close sends nothing, and ends the connection. -/
theorem close_fields (env : SocketEnv) (closeErr : ErrT) (c : Conn) :
    (c.close env closeErr).2.ctx = c.ctx ∧ (c.close env closeErr).2.replies = c.replies ∧
      (c.close env closeErr).2.res.callbacks = false := by
  unfold Conn.close tcpCloseClientConnection
  dsimp only
  split <;> exact ⟨rfl, rfl, rfl⟩

/-- A connection that closes changes neither the context nor the replies. -/
theorem ConnChange.close (env : SocketEnv) (closeErr : ErrT) (c : Conn) :
    ConnChange c (c.close env closeErr).2 :=
  .quiet (close_fields env closeErr c).1 (close_fields env closeErr c).2.1

/-- What else a connection holds does not matter. -/
theorem ConnChange.congr {d d' : Conn} (h : ConnChange c c') (hbefore : d.ctx = c.ctx)
    (hsent : d.replies = c.replies) (hafter : d'.ctx = c'.ctx) (hreplies' : d'.replies = c'.replies)
    (hcallbacks : d'.res.callbacks = c'.res.callbacks) : ConnChange d d' := by
  cases h with
  | quiet hctx hreplies =>
      refine .quiet ?_ ?_
      · rw [hafter, hctx, hbefore]
      · rw [hreplies', hreplies, hsent]
  | reply json accepted hparse hreplies hover =>
      refine .reply json accepted ?_ ?_ ?_
      · rw [hbefore, hafter, hparse]
      · rw [hreplies', hreplies, hsent]
      · rw [hcallbacks, hover]

/-- A data callback. -/
theorem connChange_recv {env : SocketEnv} {p : Pbuf} {id : Nat} {err : ErrT}
    (h : tcpServerRecv env id (some p) c = some (err, c')) : ConnChange c c' := by
  by_cases hanswers : Answers c p
  · obtain ⟨before, after, hsplit⟩ := hanswers.split
    obtain ⟨accepted, ctx, hparse, hrun⟩ :=
      tcpServerRecv_answers env id c hanswers.1 hanswers.2.1 hsplit
    obtain ⟨json, rfl⟩ : ∃ json : CStr, json.bytes = after := by
      have hfits := p.text.fits
      have hnul := p.text.nul_free
      rw [splitFirst_eq hsplit] at hfits hnul
      rw [List.length_append] at hfits
      exact ⟨⟨after, fun hmem ↦ hnul (List.mem_append_right _ hmem), by omega⟩, rfl⟩
    rw [h] at hrun
    obtain rfl := congrArg Prod.snd (Option.some.inj hrun)
    obtain ⟨hctx, hreplies, hover⟩ := close_fields env env.write
      { c with
        state := { c.state with headers := c.state.headers.copy p.bytes }
        ctx := ctx
        res := c.res.tcpCall
        replies := response accepted :: c.replies }
    exact .reply json accepted (hparse.trans (congrArg (fun ctx ↦ some (accepted, ctx)) hctx.symm))
      hreplies hover
  · obtain ⟨c'', hrun, hctx, hreplies, _⟩ := tcpServerRecv_ignores env id hanswers
    rw [h] at hrun
    obtain rfl := congrArg Prod.snd (Option.some.inj hrun)
    exact .quiet hctx hreplies

/-- A callback comes only while they are set. -/
theorem connStep_cases (h : connStep c e = some c') :
    c.res.callbacks = true ∧ ConnChange c c' := by
  unfold connStep at h
  split at h
  · rename_i hlive
    refine ⟨hlive.1, ?_⟩
    cases e with
    | recv p env =>
        cases p with
        | none =>
            obtain rfl := Option.some.inj h
            exact .close env .ok c
        | some p =>
            obtain ⟨⟨err, after⟩, hrun, rfl⟩ := Option.map_eq_some_iff.mp h
            have hchange := connChange_recv hrun
            dsimp only
            split
            · exact hchange.congr rfl rfl rfl rfl rfl
            · exact hchange.congr rfl rfl rfl rfl rfl
    | sent len env =>
        obtain rfl := Option.some.inj h
        unfold tcpServerSent
        dsimp only
        split
        · exact (ConnChange.close env .ok _).congr rfl rfl rfl rfl rfl
        · exact .quiet rfl rfl
    | poll env =>
        obtain rfl := Option.some.inj h
        exact .close env .ok c
    | err err env =>
        obtain rfl := Option.some.inj h
        unfold tcpServerErr
        split
        · have hclose := ConnChange.close env err
            { c with res := { c.res with pcb := .deallocated } }
          exact hclose.congr rfl rfl rfl rfl rfl
        · exact .quiet rfl rfl
  · exact absurd h (by simp)

/-- Nothing has been sent on the connection, or one reply, and it is over. -/
def RepliedOnce (c : Conn) : Prop :=
  c.replies = [] ∨ (∃ accepted, c.replies = [response accepted]) ∧ c.res.callbacks = false

/-! ## The node with its server -/

/-- The node, and the connections in the order in which they were accepted. -/
structure Site (σ : Type) where
  node : Node σ
  conns : List Conn := []

/-- What can happen next. -/
inductive SiteEvent where
  /-- what no connection has to do with -/
  | node (event : Event)
  /-- `tcp_server_accept`, with what lwIP and `calloc` return -/
  | accept (pcb calloc : Bool) (err : ErrT)
  /-- a callback on the connection with this number -/
  | callback (index : Nat) (e : Callback)

/-- The node with another context. -/
def Node.withCtx (node : Node σ) (ctx : AppCtx) : Node σ :=
  { node with ram := { node.ram with ctx := ctx } }

/-- The transition function of the site. Every connection has the context of the node, and the
server accepts connections once `HOSTING` is set. -/
def siteStep (ops : StoreOps σ) (site : Site σ) : SiteEvent → Option (Site σ)
  | .node event =>
      if isPost event then none
      else (step ops site.node event).map fun node ↦ { site with node := node }
  | .accept pcb calloc err =>
      if site.node.hosting then
        some { site with
          conns := site.conns ++ (tcpServerAccept site.node.ram.ctx pcb calloc err).2.toList }
      else none
  | .callback index e => do
      let c ← site.conns[index]?
      let c ← connStep { c with ctx := site.node.ram.ctx } e
      pure ⟨site.node.withCtx c.ctx, site.conns.set index c⟩

/-- The reply that goes with a step of the node. -/
def answer (taken : Taken (Node σ) Event) : Option (List UInt8) :=
  if isPost taken.event then some (response (accepts taken)) else none

/-- The event that no connection has to do with. -/
def ownEvent (taken : Taken (Site σ) SiteEvent) : Option Event :=
  match taken.event with
  | .node event => some event
  | _ => none

/-- The steps of the node account for the connections: the replies are those to the requests, each
of which came to an open server. -/
structure Served (conns : List Conn) (nodeTrace : List (Taken (Node σ) Event)) : Prop where
  replies : (conns.flatMap Conn.replies).Perm (nodeTrace.filterMap answer)
  once : ∀ c ∈ conns, RepliedOnce c
  hosted : ∀ taken ∈ nodeTrace, isPost taken.event = true → taken.before.hosting = true

/-- The other events of the node are those of the site, in the same order. -/
def SameEvents (trace : List (Taken (Site σ) SiteEvent)) (nodeTrace : List (Taken (Node σ) Event)) :
    Prop :=
  (nodeTrace.map Taken.event).filter (!isPost ·) = trace.filterMap ownEvent

/-- `HOSTING` is never cleared. -/
theorem hosting_step (hhosting : node.hosting = true) (h : step ops node event = some node') :
    node'.hosting = true := by
  cases step_cases h with
  | async _ _ _ => exact hhosting
  | call _ hstate hrun _ _ =>
      by_cases hconfig : node.ram.ctx.loopState = .wifiConfig
      · rw [callHandler, hconfig] at hrun
        obtain rfl := Option.some.inj hrun
        show (wifiConfigHandler _ node.hosting).2 = true
        rw [wifiConfigHandler, hhosting]
        rfl
      · cases handlerCall hrun with
        | flashInit _ _ => exact hhosting
        | wifiConfig _ _ hstate' => exact absurd hstate' hconfig
        | flashWrite hwrite _ => exact absurd hwrite hstate
        | ram _ => exact hhosting
  | writeSsid _ _ hrun | writePassword _ hrun =>
      rw [(writeStep_cases hrun).2.1]
      exact hhosting
  | writeContract _ hrun =>
      simp only [writeContract, bind, pure, Option.bind_eq_some_iff, Option.some.injEq] at hrun
      obtain ⟨_, _, rfl⟩ := hrun
      exact hhosting
  | update _ _ => exact hhosting

/-! ## Steps of the site -/

/-- An event that is no request serves no connection. -/
theorem served_node {conns : List Conn} {trace : List (Taken (Node σ) Event)}
    {taken : Taken (Node σ) Event} (h : Served conns trace)
    (hevent : isPost taken.event = false) : Served conns (taken :: trace) := by
  have hnone : answer taken = none := by
    rw [answer, if_neg (by simp [hevent])]
  refine ⟨?_, h.once, fun other hmem hpost ↦ ?_⟩
  · rw [List.filterMap_cons_none hnone]
    exact h.replies
  · rcases List.mem_cons.mp hmem with rfl | hmem
    · rw [hevent] at hpost
      exact absurd hpost Bool.false_ne_true
    · exact h.hosted other hmem hpost

/-- A new connection has sent nothing. -/
theorem served_accept {conns : List Conn} {trace : List (Taken (Node σ) Event)}
    (h : Served conns trace) (ctx : AppCtx) (pcb calloc : Bool) (err : ErrT) :
    Served (conns ++ (tcpServerAccept ctx pcb calloc err).2.toList) trace := by
  have hnew : ∀ c ∈ (tcpServerAccept ctx pcb calloc err).2.toList, c.replies = [] := by
    intro c hmem
    unfold tcpServerAccept at hmem
    split at hmem
    · exact absurd hmem (by simp)
    · split at hmem
      · exact absurd hmem (by simp)
      · obtain rfl := List.mem_singleton.mp hmem
        rfl
  refine ⟨?_, fun c hmem ↦ ?_, h.hosted⟩
  · rw [List.flatMap_append, List.flatMap_eq_nil_iff.mpr hnew, List.append_nil]
    exact h.replies
  · rcases List.mem_append.mp hmem with hold | hadded
    · exact h.once c hold
    · exact .inl (hnew c hadded)

/-- The replies, when one connection has sent one more. -/
theorem replies_set {conns : List Conn} {index : Nat} {reply : List UInt8}
    (hindex : conns[index]? = some c) (hreplies : c'.replies = reply :: c.replies) :
    ((conns.set index c').flatMap Conn.replies).Perm (reply :: conns.flatMap Conn.replies) := by
  induction conns generalizing index with
  | nil => simp at hindex
  | cons first rest ih =>
      cases index with
      | zero =>
          obtain rfl := Option.some.inj hindex
          rw [List.set_cons_zero, List.flatMap_cons, List.flatMap_cons, hreplies]
          exact .refl _
      | succ index =>
          rw [List.set_cons_succ, List.flatMap_cons, List.flatMap_cons]
          exact ((ih hindex).append_left _).trans List.perm_middle

/-- A connection without a new reply adds nothing to the replies. -/
theorem replies_set_same {conns : List Conn} {index : Nat} (hindex : conns[index]? = some c)
    (hreplies : c'.replies = c.replies) :
    (conns.set index c').flatMap Conn.replies = conns.flatMap Conn.replies := by
  induction conns generalizing index with
  | nil => simp at hindex
  | cons first rest ih =>
      cases index with
      | zero =>
          obtain rfl := Option.some.inj hindex
          rw [List.set_cons_zero, List.flatMap_cons, List.flatMap_cons, hreplies]
      | succ index =>
          rw [List.set_cons_succ, List.flatMap_cons, List.flatMap_cons, ih hindex]

/-- A callback of a connection is no step of the node, or one request that it answers. -/
theorem served_callback {conns : List Conn} {nodeTrace : List (Taken (Node σ) Event)} {index : Nat}
    (h : Served conns nodeTrace) (hopen : node.hosting = true) (hindex : conns[index]? = some c)
    (hstep : connStep { c with ctx := node.ram.ctx } e = some c') :
    ∃ newer, Run (step ops) node newer (node.withCtx c'.ctx) ∧
      Served (conns.set index c') (newer ++ nodeTrace) ∧
        ∀ taken ∈ newer, isPost taken.event = true := by
  obtain ⟨hcallbacks, hchange⟩ := connStep_cases hstep
  have hmem : c ∈ conns := List.mem_of_getElem? hindex
  have hnone : c.replies = [] := by
    refine (h.once c hmem).resolve_right fun hover ↦ ?_
    rw [hover.2] at hcallbacks
    exact Bool.false_ne_true hcallbacks
  cases hchange with
  | quiet hctx hreplies =>
      refine ⟨[], ?_, ⟨?_, fun other hother ↦ ?_, h.hosted⟩, by simp⟩
      · rw [hctx]
        exact .refl
      · rw [replies_set_same hindex hreplies]
        exact h.replies
      · rcases List.mem_or_eq_of_mem_set hother with hold | rfl
        · exact h.once other hold
        · exact .inl (hreplies.trans hnone)
  | reply json accepted hparse hreplies hover =>
      have hpost : step ops node (.post json) = some (node.withCtx c'.ctx) := by
        show (asyncStep node.ram (.post json)).map _ = _
        simp only [asyncStep, hparse, bind, pure, Option.bind_some, Option.map_some]
        rfl
      let taken : Taken (Node σ) Event := ⟨node, .post json, node.withCtx c'.ctx⟩
      have hanswer : answer taken = some (response accepted) := by
        have haccepts : accepts taken = accepted := by
          show (parseWifiCredentials (json.bytes ++ [0]) node.ram.ctx).any Prod.fst = accepted
          rw [hparse]
          rfl
        rw [answer, haccepts]
        rfl
      refine ⟨[taken], .step .refl hpost, ⟨?_, fun other hother ↦ ?_, fun other hother hevent ↦ ?_⟩,
        fun other hother ↦ ?_⟩
      · rw [List.singleton_append, List.filterMap_cons_some hanswer]
        exact (replies_set hindex hreplies).trans (h.replies.cons _)
      · rcases List.mem_or_eq_of_mem_set hother with hold | rfl
        · exact h.once other hold
        · exact .inr ⟨⟨accepted, by rw [hreplies, hnone]⟩, hover⟩
      · rcases List.mem_cons.mp hother with rfl | hother
        · exact hopen
        · exact h.hosted other hother hevent
      · rw [List.mem_singleton.mp hother]
        rfl

/-- The site after what the node has done. -/
structure Matches (trace : List (Taken (Site σ) SiteEvent)) (site : Site σ)
    (nodeTrace : List (Taken (Node σ) Event)) (node : Node σ) : Prop where
  same : site.node = node
  opened : site.conns ≠ [] → node.hosting = true
  served : Served site.conns nodeTrace
  events : SameEvents trace nodeTrace

/-- A step of the site is matched by steps of the node. -/
theorem matches_step {site site' : Site σ} {siteEvent : SiteEvent}
    {older : List (Taken (Site σ) SiteEvent)} {nodeOlder : List (Taken (Node σ) Event)}
    (h : Matches older site nodeOlder node) (hstep : siteStep ops site siteEvent = some site') :
    ∃ newer after, Run (step ops) node newer after ∧
      Matches (⟨site, siteEvent, site'⟩ :: older) site' (newer ++ nodeOlder) after := by
  obtain ⟨rfl, hopened, hserved, hevents⟩ := h
  cases siteEvent with
  | node event =>
      simp only [siteStep] at hstep
      split at hstep
      · exact absurd hstep (by simp)
      · rename_i hevent
        obtain ⟨after, hafter, rfl⟩ := Option.map_eq_some_iff.mp hstep
        have hown : isPost event = false := by simpa using hevent
        refine ⟨[⟨site.node, event, after⟩], after, .step .refl hafter, rfl,
          fun hconns ↦ hosting_step (hopened hconns) hafter, served_node hserved hown, ?_⟩
        show List.filter _ (event :: nodeOlder.map Taken.event) = event :: older.filterMap ownEvent
        rw [List.filter_cons_of_pos (by simp [hown]), hevents]
  | accept pcb calloc err =>
      simp only [siteStep] at hstep
      split at hstep
      · rename_i hhosting
        obtain rfl := Option.some.inj hstep
        exact ⟨[], site.node, .refl, rfl, fun _ ↦ hhosting, served_accept hserved _ pcb calloc err,
          hevents⟩
      · exact absurd hstep (by simp)
  | callback index e =>
      simp only [siteStep, bind, pure, Option.bind_eq_some_iff, Option.some.injEq] at hstep
      obtain ⟨c, hindex, c', hconn, rfl⟩ := hstep
      have hopen : site.node.hosting = true :=
        hopened (List.ne_nil_of_mem (List.mem_of_getElem? hindex))
      obtain ⟨newer, hrun, hafter, hposts⟩ := served_callback hserved hopen hindex hconn
      refine ⟨newer, _, hrun, rfl, fun _ ↦ hopen, hafter, ?_⟩
      have hnone : (newer.map Taken.event).filter (!isPost ·) = [] := by
        simpa [List.filter_eq_nil_iff] using hposts
      rw [SameEvents, List.map_append, List.filter_append, hnone]
      exact hevents

/-- Whatever connections clients open, and in whatever order their callbacks come between the steps
of the main program, the node goes through its own events and as many requests as there are replies,
each to an open server and answered by what has become of it, and no connection has two replies. -/
theorem site_run {trace : List (Taken (Site σ) SiteEvent)} {site : Site σ}
    (hrun : Run (siteStep ops) ⟨boot hub env store, []⟩ trace site) :
    ∃ nodeTrace, Run (step ops) (boot hub env store) nodeTrace site.node ∧
      SameEvents trace nodeTrace ∧ Served site.conns nodeTrace := by
  have hstart : Matches [] (⟨boot hub env store, []⟩ : Site σ) [] (boot hub env store) := by
    refine ⟨rfl, fun hconns ↦ absurd rfl hconns, ⟨.refl _, ?_, ?_⟩, rfl⟩ <;> simp
  obtain ⟨nodeTrace, node, hnode, hmatches⟩ := hrun.matched Matches hstart
    fun _ _ _ _ _ _ hbefore hstep ↦ matches_step hbefore hstep
  obtain ⟨rfl, _, hserved, hevents⟩ := hmatches
  exact ⟨nodeTrace, hnode, hevents, hserved⟩

/-- Two clients connect, and the second one provisions the node. -/
def clientEvents : List SiteEvent :=
  [.node (.main quietEnv), .node (.main quietEnv), .node (.main quietEnv), .accept true true .ok,
    .accept true true .ok, .callback 1 (.recv (some (requestPbuf
      "POST /provision\r\n\r\n\x7b\"ssid\":\"a\",\"password\":\"b\",\"token\":\"c\"\x7d")) {}),
    .node (.main quietEnv), .callback 0 (.recv none {})]

/-- One of two connections is closed, and the other one is served. -/
theorem site_run_clients : ∃ (trace : List (Taken (Site Values) SiteEvent)) (site : Site Values)
    (nodeTrace : List (Taken (Node Values) Event)),
      Run (siteStep atomicStore) ⟨freshNode, []⟩ trace site ∧
        site.conns.map Conn.replies = [[], [response200]] ∧
          Run (step atomicStore) freshNode nodeTrace site.node ∧ SameEvents trace nodeTrace ∧
            Served site.conns nodeTrace := by
  obtain ⟨trace, site, hrun, htest⟩ := exists_run_of_record (siteStep atomicStore) ⟨freshNode, []⟩
    clientEvents (fun _ site ↦ site.conns.map Conn.replies == [[], [response200]])
    (by decide +kernel)
  obtain ⟨nodeTrace, hnode, hevents, hserved⟩ := site_run hrun
  exact ⟨trace, site, nodeTrace, hrun, beq_iff_eq.mp htest, hnode, hevents, hserved⟩

end DirtieNode.Main
