import DirtieNode.AccessPoint.Credentials
import DirtieNode.Library.Format

/-!
# The provisioning server

The lwIP callbacks of a connection in `host.c`. lwIP gives a callback a chain of pbufs, of which the
server looks at the first payload as if it were a string: what is behind it in memory is part of a
`Pbuf`. `Resources` counts what has become of the pbufs, the connection state and the pcb.
-/

namespace DirtieNode.AccessPoint

open CString State

/-- `err_t`; `iface` is `ERR_IF`. -/
inductive ErrT where
  | ok
  | mem
  | buf
  | timeout
  | rte
  | inprogress
  | val
  | wouldblock
  | use
  | already
  | isconn
  | conn
  | iface
  | abrt
  | rst
  | clsd
  | arg
  deriving DecidableEq

/-- The bytes of a TCP segment as a chain: the payload of the first pbuf, and those of the others.
Their length is a `u16_t`. -/
structure Segment where
  payload : List UInt8
  next : List (List UInt8) := []
  fits : payload.length + next.flatten.length < 2 ^ 16

/-- The payloads of the chain, one after the other. -/
def Segment.bytes (s : Segment) : List UInt8 :=
  s.payload ++ s.next.flatten

/-- A segment in memory, with what is between the end of the first payload and the next zero. -/
structure Pbuf extends Segment where
  behind : List UInt8
  nul_free : 0 ∉ behind
  memory : behind.length < 2 ^ 28

/-- The memory from `payload` on. -/
def Pbuf.mem (p : Pbuf) : List UInt8 :=
  p.payload ++ p.behind ++ [0]

/-- `tot_len`. -/
def Pbuf.totLen (p : Pbuf) : Nat :=
  p.bytes.length

/-- `sizeof(con_state->headers)`. -/
def headersSize : Nat := 4096

/-- The buffer for the headers. Its last byte is never written. -/
structure Headers where
  bytes : List UInt8
  size : bytes.length = headersSize
  ends : bytes[headersSize - 1]? = some 0

/-- The buffer after `calloc`. -/
def Headers.zero : Headers where
  bytes := List.replicate headersSize 0
  size := List.length_replicate
  ends := by
    rw [List.getElem?_replicate, if_pos (by decide)]

/-- `pbuf_copy_partial` into the buffer, of at most as many bytes as leave the last one. -/
def Headers.copy (headers : Headers) (data : List UInt8) : Headers where
  bytes := data.take (headersSize - 1) ++ headers.bytes.drop (min (headersSize - 1) data.length)
  size := by
    have := headers.size
    simp only [headersSize, List.length_append, List.length_take, List.length_drop] at *
    omega
  ends := by
    have hends := headers.ends
    have hlen : (data.take (headersSize - 1)).length = min (headersSize - 1) data.length :=
      List.length_take
    rw [List.getElem?_append_right (by rw [hlen]; omega), hlen, List.getElem?_drop,
      Nat.add_sub_cancel' (by omega), hends]

/-- The two comparisons of the header: the method, and the path behind it. -/
def Headers.isProvision (headers : Headers) : Bool :=
  (lit "POST").isPrefixOf headers.bytes &&
    (lit "/provision").isPrefixOf ((headers.bytes.drop 5).dropWhile (· == 32))

/-- The blank line behind a header. -/
def blankLine : List UInt8 := lit "\r\n\r\n"

/-- `TCP_CONNECT_STATE_T`, without what nothing reads. -/
structure ConState where
  sentLen : Int := 0
  headers : Headers := .zero
  headerLen : Int := 0
  resultLen : Int := 0

/-- What has become of the connection's pcb. -/
inductive PcbState where
  | live
  | closed
  | aborted
  | deallocated
  deriving DecidableEq

/-- What has become of the pcb, its callbacks, the connection state and the pbufs so far. -/
structure Resources where
  pcb : PcbState := .live
  callbacks : Bool := true
  misused : Bool := false
  conFrees : Nat := 0
  given : Nat := 0
  freed : List Nat := []

/-- A `tcp_` function is called on the pcb. -/
def Resources.tcpCall (r : Resources) : Resources :=
  { r with misused := r.misused || decide (r.pcb ≠ .live) }

/-- `pbuf_free`. -/
def Resources.pbufFree (id : Nat) (r : Resources) : Resources :=
  { r with freed := id :: r.freed }

/-- A connection, with the replies that have been passed to `tcp_write`. -/
structure Conn where
  state : ConState := {}
  res : Resources := {}
  ctx : AppCtx
  replies : List (List UInt8) := []

/-- What `tcp_write` and `tcp_close` return in a callback. -/
structure SocketEnv where
  write : ErrT := .ok
  close : ErrT := .ok

/-- `tcp_close_client_connection`. -/
def tcpCloseClientConnection (env : SocketEnv) (closeErr : ErrT) (r : Resources) :
    ErrT × Resources :=
  let r := { r.tcpCall with callbacks := false }
  if env.close ≠ .ok then (.abrt, { r.tcpCall with pcb := .aborted, conFrees := r.conFrees + 1 })
  else (closeErr, { r.tcpCall with pcb := .closed, conFrees := r.conFrees + 1 })

/-- `tcp_close_client_connection`. -/
def Conn.close (env : SocketEnv) (closeErr : ErrT) (c : Conn) : ErrT × Conn :=
  let (err, res) := tcpCloseClientConnection env closeErr c.res
  (err, { c with res := res })

/-- `tcp_server_sent`. -/
def tcpServerSent (env : SocketEnv) (len : UInt16) (c : Conn) : ErrT × Conn :=
  let c := { c with state := { c.state with sentLen := c.state.sentLen + len.toNat } }
  if c.state.sentLen ≥ c.state.headerLen + c.state.resultLen then c.close env .ok else (.ok, c)

/-- The reply to an accepted request. -/
def response200 : List UInt8 := lit "HTTP/1.1 200 OK\r\n\r\n"

/-- The body of the reply to a refused request. -/
def errorBody : List UInt8 := lit "\x7b\"error\":\"invalid_format\"\x7d"

/-- The reply to a refused request. -/
def response400 : List UInt8 :=
  lit "HTTP/1.1 400 Bad Request\nContent-Length: " ++ decimal errorBody.length ++
    lit "\nContent-Type: application/json\r\n\r\n" ++ errorBody

/-- The reply to a request: `tcp_write`, and the connection is closed. The pbuf is not freed. -/
def Conn.reply (env : SocketEnv) (response : List UInt8) (c : Conn) : ErrT × Conn :=
  { c with res := c.res.tcpCall, replies := response :: c.replies }.close env env.write

/-- The search for the blank line, if the header passes the comparisons. -/
def bodyStart (headers : Headers) (p : Pbuf) : Option (Option Nat) :=
  if headers.isProvision then strstr p.mem blankLine else some none

/-- `tcp_server_recv`, for a pbuf with a number or for the end of the connection. -/
def tcpServerRecv (env : SocketEnv) (id : Nat) (p : Option Pbuf) (c : Conn) :
    Option (ErrT × Conn) :=
  match p with
  | none => some (c.close env .ok)
  | some p =>
      if p.totLen > 0 then do
        let headers := c.state.headers.copy p.bytes
        let c := { c with state := { c.state with headers := headers } }
        match ← bodyStart headers p with
        | some start =>
            let (accepted, ctx) ← parseWifiCredentials (p.mem.drop (start + 4)) c.ctx
            pure ({ c with ctx := ctx }.reply env (if accepted then response200 else response400))
        | none => pure (.ok, { c with res := c.res.tcpCall.pbufFree id })
      else some (.ok, { c with res := c.res.pbufFree id })

/-- `tcp_server_poll`. -/
def tcpServerPoll (env : SocketEnv) (c : Conn) : ErrT × Conn :=
  c.close env .ok

/-- `tcp_server_err`. -/
def tcpServerErr (env : SocketEnv) (err : ErrT) (c : Conn) : Conn :=
  if err ≠ .abrt then (c.close env err).2 else c

/-- `tcp_server_accept`, with the outcome of `calloc`. -/
def tcpServerAccept (ctx : AppCtx) (pcb calloc : Bool) (err : ErrT) : ErrT × Option Conn :=
  if err ≠ .ok ∨ !pcb then (.val, none)
  else if !calloc then (.mem, none)
  else (.ok, some { ctx := ctx })

/-! ## Callbacks -/

/-- A callback on an accepted connection. -/
inductive Callback where
  /-- data, or the end of the connection -/
  | recv (p : Option Pbuf) (env : SocketEnv)
  | sent (len : UInt16) (env : SocketEnv)
  | poll (env : SocketEnv)
  | err (err : ErrT) (env : SocketEnv)

/-- The transition function of a connection. lwIP makes no callback when they are cleared or the
pcb is gone. It keeps and frees a pbuf that `tcp_server_recv` returns an error for, except
`ERR_ABRT`, and it deallocates the pcb before the `err` callback. -/
def connStep (c : Conn) (e : Callback) : Option Conn :=
  if c.res.callbacks ∧ c.res.pcb = .live then
    match e with
    | .recv none env => (tcpServerRecv env c.res.given none c).map Prod.snd
    | .recv (some p) env =>
        let id := c.res.given
        (tcpServerRecv env id (some p) { c with res := { c.res with given := id + 1 } }).map
          fun (err, c) ↦ if err = .ok ∨ err = .abrt then c else { c with res := c.res.pbufFree id }
    | .sent len env => some (tcpServerSent env len c).2
    | .poll env => some (tcpServerPoll env c).2
    | .err err env =>
        some (tcpServerErr env err { c with res := { c.res with pcb := .deallocated } })
  else none

/-! ## What a segment does -/

/-- The memory from the payload on holds a string. -/
theorem Pbuf.mem_holds (p : Pbuf) : Holds p.mem (p.mem.takeWhile (· != 0)) :=
  holds_takeWhile (List.mem_append_right _ List.mem_cons_self)

/-- The string at `payload`. -/
def Pbuf.text (p : Pbuf) : CStr where
  bytes := p.mem.takeWhile (· != 0)
  nul_free := p.mem_holds.nul_free
  fits := by
    have hlen := p.mem_holds.length_lt
    have hfits := p.fits
    have hmemory := p.memory
    have hmem : p.mem.length = p.payload.length + p.behind.length + 1 := by
      simp only [Pbuf.mem, List.length_append, List.length_singleton]
    omega

/-- The server takes the segment for a provisioning request and answers it. -/
def Answers (c : Conn) (p : Pbuf) : Prop :=
  0 < p.totLen ∧ (c.state.headers.copy p.bytes).isProvision = true ∧ blankLine <:+: p.text.bytes

instance (c : Conn) (p : Pbuf) : Decidable (Answers c p) :=
  inferInstanceAs (Decidable (_ ∧ _))

/-- A request that is answered has a blank line. -/
theorem Answers.split {c : Conn} {p : Pbuf} (h : Answers c p) :
    ∃ before after, splitFirst blankLine p.text.bytes = some (before, after) := by
  cases hsplit : splitFirst blankLine p.text.bytes with
  | none => exact absurd h.2.2 (splitFirst_eq_none hsplit)
  | some cut => exact ⟨cut.1, cut.2, rfl⟩

section Segments

variable {env : SocketEnv} {id : Nat} {p : Pbuf} {c : Conn}

/-- An answered request provisions the context with the text behind the blank line. -/
theorem tcpServerRecv_answers (env : SocketEnv) (id : Nat) (c : Conn) {before after : List UInt8}
    (hlen : 0 < p.totLen)
    (hprovision : (c.state.headers.copy p.bytes).isProvision = true)
    (hsplit : splitFirst blankLine p.text.bytes = some (before, after)) :
    ∃ accepted ctx, parseWifiCredentials (after ++ [0]) c.ctx = some (accepted, ctx) ∧
      tcpServerRecv env id (some p) c = some
        (Conn.reply env (if accepted then response200 else response400)
          { c with
            state := { c.state with headers := c.state.headers.copy p.bytes }
            ctx := ctx }) := by
  have heq := splitFirst_eq hsplit
  obtain ⟨json, rfl⟩ : ∃ json : CStr, json.bytes = after := by
    have hfits := p.text.fits
    have hnul := p.text.nul_free
    rw [heq] at hfits hnul
    rw [List.length_append] at hfits
    exact ⟨⟨after, fun hmem ↦ hnul (List.mem_append_right _ hmem), by omega⟩, rfl⟩
  have hstart : bodyStart (c.state.headers.copy p.bytes) p = some (some before.length) := by
    rw [bodyStart, if_pos hprovision, strstr_holds p.mem_holds (by decide) (by decide)]
    show some ((splitFirst blankLine p.text.bytes).map _) = _
    rw [hsplit]
    rfl
  have hdrop : Holds (p.mem.drop (before.length + 4)) json.bytes := by
    have hholds : Holds p.mem (before ++ blankLine ++ json.bytes) := by
      rw [← heq]
      exact p.mem_holds
    have hlen : (before ++ blankLine).length = before.length + 4 := List.length_append
    exact hlen ▸ hholds.drop
  obtain ⟨accepted, ctx, hparse⟩ : ∃ accepted ctx,
      parseWifiCredentials (json.bytes ++ [0]) c.ctx = some (accepted, ctx) := by
    rcases refused_or_strings json c.ctx with ⟨hrun, -⟩ |
      ⟨ssid, pass, token, -, -, -, hssid, hpass, htoken, hrun⟩
    · exact ⟨_, _, hrun⟩
    · obtain ⟨_, _, text, haccept, -⟩ := acceptText_eq c.ctx.text hssid hpass htoken
      rw [haccept] at hrun
      exact ⟨_, _, hrun⟩
  have hmem : parseWifiCredentials (p.mem.drop (before.length + 4)) c.ctx =
      some (accepted, ctx) := by
    rw [← hparse, parseWifiCredentials_holds hdrop,
      parseWifiCredentials_holds (holds_append json.nul_free)]
  refine ⟨accepted, ctx, hparse, ?_⟩
  simp only [tcpServerRecv, if_pos hlen, hstart, hmem, bind, pure, Option.bind_some]

/-- Any other segment is copied into the buffer and freed. -/
theorem tcpServerRecv_ignores (env : SocketEnv) (id : Nat) (h : ¬ Answers c p) :
    ∃ c', tcpServerRecv env id (some p) c = some (.ok, c') ∧ c'.ctx = c.ctx ∧
      c'.replies = c.replies ∧
      (c'.res = c.res.pbufFree id ∨ c'.res = c.res.tcpCall.pbufFree id) := by
  by_cases hlen : p.totLen > 0
  · have hnone : bodyStart (c.state.headers.copy p.bytes) p = some none := by
      unfold bodyStart
      split
      · rename_i hprovision
        have hno : ¬ blankLine <:+: p.text.bytes := fun hbody ↦ h ⟨hlen, hprovision, hbody⟩
        rw [strstr_holds p.mem_holds (by decide) (by decide)]
        show some ((splitFirst blankLine p.text.bytes).map _) = _
        rw [splitFirst_eq_none_iff.mpr hno]
        rfl
      · rfl
    simp only [tcpServerRecv, if_pos hlen, hnone, bind, pure, Option.bind_some]
    exact ⟨_, rfl, rfl, rfl, .inr rfl⟩
  · simp only [tcpServerRecv, if_neg hlen]
    exact ⟨_, rfl, rfl, rfl, .inl rfl⟩

end Segments

end DirtieNode.AccessPoint
