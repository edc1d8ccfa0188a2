import DirtieNode.AccessPoint.Server

/-!
# How a request is cut

The server looks for the body in the first payload of each segment alone, and reads on in memory
behind it. So the outcome of a request depends on the request alone only when its first payload has
the blank line and enough of the body behind it to settle what the parser does.
-/

namespace DirtieNode.AccessPoint

open CString State

/-- A provisioning request: the method and the path, the rest of the header, the blank line, and
the body. It fits into the buffer. -/
structure Request where
  head : List UInt8
  body : List UInt8
  starts : lit "POST /provision" <+: head
  blank : splitFirst blankLine (head ++ blankLine ++ body) = some (head, body)
  nul_free : 0 ∉ head ++ blankLine ++ body
  fits : (head ++ blankLine ++ body).length < headersSize

/-- What the client sends. -/
def Request.bytes (request : Request) : List UInt8 :=
  request.head ++ blankLine ++ request.body

/-- The request in one pbuf. -/
def Request.whole (request : Request) : Segment where
  payload := request.bytes
  next := []
  fits := Nat.lt_trans request.fits (by decide)

/-- The callbacks for segments that arrive one after the other. There are no more of them behind a
reply. -/
def deliver : List (Pbuf × SocketEnv) → Conn → Option Conn
  | [], c => some c
  | (p, env) :: rest, c =>
      if c.res.callbacks ∧ c.res.pcb = .live then
        (connStep c (.recv (some p) env)).bind (deliver rest)
      else some c

/-- The context and the replies after the segments of a request, on a connection whose buffer has
been used before. -/
def outcome (delivery : List (Pbuf × SocketEnv)) (old : Headers) (ctx : AppCtx) :
    Option (AppCtx × List (List UInt8)) :=
  (deliver delivery { state := { headers := old }, ctx := ctx }).map fun c ↦ (c.ctx, c.replies)

/-- The outcome of the segments is that of the whole request in one pbuf, whatever the memory
behind the payloads, the old headers and the results of the lwIP functions are. -/
def SameOutcome (request : Request) (segments : List Segment) (ctx : AppCtx) : Prop :=
  ∀ delivery whole old old', delivery.map (·.1.toSegment) = segments →
    whole.map (·.1.toSegment) = [request.whole] →
    outcome delivery old ctx = outcome whole old' ctx

/-! ## What settles the parser -/

/-- The three queries of the parser. -/
def queries : List (List UInt8) := [ssidQuery, pwQuery, tknQuery]

/-- The bytes behind the first occurrence of a query, as far as they are there. -/
def found (query text : List UInt8) : Option (List UInt8) :=
  (splitFirst query text).map fun cut ↦ cut.2.takeWhile (· != quote)

/-- The text has all three values, or one of more than 64 bytes. -/
def Settled (text : List UInt8) : Prop :=
  (∀ query ∈ queries, (quoted query text).isSome = true) ∨
    ∃ query ∈ queries, ∃ value ∈ found query text, 64 < value.length

instance (text : List UInt8) : Decidable (Settled text) :=
  inferInstanceAs (Decidable ((∀ _ ∈ _, _) ∨ ∃ _ ∈ _, ∃ _ ∈ _, _))

section Parser

variable {json json' query text : List UInt8} {ctx : AppCtx}

/-- A value of more than 64 bytes makes the parser refuse a text, and keep the context. -/
theorem parse_refused (hnul : 0 ∉ json)
    (h : ∃ query ∈ queries, ∀ value ∈ quoted query json, 64 < value.length) :
    parseWifiCredentials (json ++ [0]) ctx = some (false, ctx) := by
  rw [parseWifiCredentials_holds (holds_append hnul)]
  obtain ⟨query, hquery, hlong⟩ := h
  simp only [queries, List.mem_cons, List.not_mem_nil, or_false] at hquery
  split
  · rename_i ssid pass token hssid hpass htoken
    refine if_pos ?_
    rcases hquery with rfl | rfl | rfl
    · exact .inl (hlong _ hssid)
    · exact .inr (.inl (hlong _ hpass))
    · exact .inr (.inr (hlong _ htoken))
  · rfl

/-- A text with three values of at most 64 bytes is accepted. -/
theorem parse_accepted (hnul : 0 ∉ json)
    (h : ∀ query ∈ queries, ∃ value ∈ quoted query json, value.length ≤ 64) :
    ∃ ctx', parseWifiCredentials (json ++ [0]) ctx = some (true, ctx') := by
  obtain ⟨ssid, hssid, hssidLen⟩ := h ssidQuery (by simp [queries])
  obtain ⟨pass, hpass, hpassLen⟩ := h pwQuery (by simp [queries])
  obtain ⟨token, htoken, htokenLen⟩ := h tknQuery (by simp [queries])
  obtain ⟨_, _, text', haccept, -⟩ := acceptText_eq ctx.text hssidLen hpassLen htokenLen
  rw [parseWifiCredentials_holds (holds_append hnul), hssid, hpass, htoken]
  dsimp only
  rw [if_neg (by omega), haccept]
  exact ⟨_, rfl⟩

/-- The parser sees no more of a text than the three values. -/
theorem parse_congr (hnul : 0 ∉ json) (hnul' : 0 ∉ json')
    (h : ∀ query ∈ queries, quoted query json = quoted query json') :
    parseWifiCredentials (json ++ [0]) ctx = parseWifiCredentials (json' ++ [0]) ctx := by
  rw [parseWifiCredentials_holds (holds_append hnul),
    parseWifiCredentials_holds (holds_append hnul'),
    h ssidQuery (by simp [queries]), h pwQuery (by simp [queries]), h tknQuery (by simp [queries])]

/-- More text behind a quote does not change a value. -/
theorem value_closed {after : List UInt8} (h : quote ∈ after) (more : List UInt8) :
    (after ++ more).takeWhile (· != quote) = after.takeWhile (· != quote) := by
  rw [List.takeWhile_append, if_neg]
  intro hall
  have heq := (List.takeWhile_prefix (· != quote) (l := after)).eq_of_length hall
  have := List.mem_takeWhile_imp (heq ▸ h)
  simp at this

/-- More text ends an open value, or makes it longer. -/
theorem value_longer (after more : List UInt8) :
    (after.takeWhile (· != quote)).length ≤ ((after ++ more).takeWhile (· != quote)).length := by
  rw [List.takeWhile_append]
  split
  · rename_i hall
    rw [hall, List.length_append]
    exact Nat.le_add_right _ _
  · exact Nat.le_refl _

/-- More text behind a closed value does not change it. -/
theorem quoted_append {value : List UInt8} (h : quoted query text = some value)
    (more : List UInt8) : quoted query (text ++ more) = some value := by
  obtain ⟨⟨before, after⟩, hcut, hvalue⟩ := Option.bind_eq_some_iff.mp h
  rw [quoted_of_cut (splitFirst_append_of_some hcut more)]
  dsimp only at hvalue
  split at hvalue
  · rename_i hquote
    rw [if_pos (List.mem_append_left _ hquote), ← hvalue, value_closed hquote]
  · simp at hvalue

/-- A value is at least as long as the part of it that was there before. -/
theorem found_longer {value : List UInt8} (h : found query text = some value)
    (more : List UInt8) : ∀ whole ∈ quoted query (text ++ more), value.length ≤ whole.length := by
  intro whole hwhole
  obtain ⟨⟨before, after⟩, hcut, rfl⟩ := Option.map_eq_some_iff.mp h
  rw [Option.mem_def, quoted_of_cut (splitFirst_append_of_some hcut more)] at hwhole
  split at hwhole
  · obtain rfl := Option.some.inj hwhole
    exact value_longer after more
  · simp at hwhole

/-- On a settled text the parser does not look at what follows. -/
theorem parse_settled {more : List UInt8} (h : Settled text) (hnul : 0 ∉ text ++ more) :
    parseWifiCredentials (text ++ more ++ [0]) ctx = parseWifiCredentials (text ++ [0]) ctx := by
  have hnul' : 0 ∉ text := fun hmem ↦ hnul (List.mem_append_left _ hmem)
  rcases h with hall | ⟨query, hquery, value, hvalue, hlong⟩
  · refine parse_congr hnul hnul' fun query hquery ↦ ?_
    obtain ⟨value, hvalue⟩ := Option.isSome_iff_exists.mp (hall query hquery)
    rw [hvalue, quoted_append hvalue]
  · have hrefused : ∀ more, 0 ∉ text ++ more →
        parseWifiCredentials (text ++ more ++ [0]) ctx = some (false, ctx) := fun more hnul ↦
      parse_refused hnul ⟨query, hquery, fun whole hwhole ↦
        Nat.lt_of_lt_of_le hlong (found_longer hvalue more whole hwhole)⟩
    have hempty := hrefused [] (by rwa [List.append_nil])
    rw [List.append_nil] at hempty
    rw [hrefused more hnul, hempty]

/-- A text that ends all open values and has all the missing ones. -/
def fill : List UInt8 := quote :: lit "\"ssid\":\"a\"\"password\":\"b\"\"token\":\"c\""

/-- The text is short enough for the memory behind a payload. -/
theorem fill_length : fill.length ≤ 64 := by decide +kernel

/-- The text has no terminator. -/
theorem fill_nul_free : 0 ∉ fill := by decide +kernel

/-- The text has each query, and closes its value. -/
theorem fill_split (h : query ∈ queries) :
    ∃ front back, fill = front ++ query ++ back ∧ quote ∈ back := by
  simp only [queries, List.mem_cons, List.not_mem_nil, or_false] at h
  rcases h with rfl | rfl | rfl
  · exact ⟨fill.take 1, fill.drop 9, by decide +kernel⟩
  · exact ⟨fill.take 11, fill.drop 23, by decide +kernel⟩
  · exact ⟨fill.take 25, fill.drop 34, by decide +kernel⟩

/-- Behind a text without a long value, it completes the value of each query. -/
theorem quoted_fill (hquery : query ∈ queries)
    (hshort : ∀ value ∈ found query text, value.length ≤ 64) :
    ∃ value ∈ quoted query (text ++ fill), value.length ≤ 64 := by
  cases hcut : splitFirst query text with
  | some cut =>
      obtain ⟨before, after⟩ := cut
      have hvalue : (after.takeWhile (· != quote)).length ≤ 64 :=
        hshort _ (by rw [found, hcut]; rfl)
      refine ⟨(after ++ fill).takeWhile (· != quote), ?_, ?_⟩
      · rw [Option.mem_def, quoted_of_cut (splitFirst_append_of_some hcut fill), if_pos]
        exact List.mem_append_right _ List.mem_cons_self
      · by_cases hquote : quote ∈ after
        · rw [value_closed hquote]
          exact hvalue
        · -- the value was open, and the quote that the text starts with ends it
          have hall : ∀ b ∈ after, (b != quote) = true := fun b hb ↦ by
            rw [bne_iff_ne]
            rintro rfl
            exact hquote hb
          have hwhole : after.takeWhile (· != quote) = after := List.takeWhile_eq_self_iff.mpr hall
          rw [hwhole] at hvalue
          rw [List.takeWhile_append_of_pos hall]
          simpa [fill] using hvalue
  | none =>
      obtain ⟨front, back, hfill, hback⟩ := fill_split hquery
      have hnone : ¬ query <:+: text := splitFirst_eq_none hcut
      have hlen := fill_length
      cases hfront : splitFirst query (text ++ front ++ query) with
      | none => exact absurd ⟨_, [], List.append_nil _⟩ (splitFirst_eq_none hfront)
      | some cut =>
          obtain ⟨before, after⟩ := cut
          have heq := splitFirst_eq hfront
          have hcut := splitFirst_append_of_some hfront back
          rw [show text ++ front ++ query ++ back = text ++ fill by
            rw [hfill]; simp only [List.append_assoc]] at hcut
          refine ⟨(after ++ back).takeWhile (· != quote), ?_, ?_⟩
          · rw [Option.mem_def, quoted_of_cut hcut, if_pos (List.mem_append_right _ hback)]
          · -- the occurrence ends behind the text
            have hafter : after.length ≤ (front ++ query).length := by
              by_contra hlong
              have hlens := congrArg List.length heq
              simp only [List.length_append] at hlens hlong
              have hlead : before ++ query <+: text := by
                have hcut : before ++ query <+: text ++ front ++ query := ⟨after, heq.symm⟩
                refine List.prefix_of_prefix_length_le hcut
                  ⟨front ++ query, (List.append_assoc ..).symm⟩ ?_
                rw [List.length_append]
                omega
              exact hnone ((List.suffix_append before query).isInfix.trans hlead.isInfix)
            have hle := (List.takeWhile_prefix (· != quote) (l := after ++ back)).length_le
            have hsum := congrArg List.length hfill
            simp only [List.length_append] at hle hsum hafter
            omega

/-- A text that is not settled is refused as it is, and accepted when the rest fills it in. -/
theorem parse_unsettled (ctx : AppCtx) (h : ¬ Settled text) (hnul : 0 ∉ text) :
    parseWifiCredentials (text ++ [0]) ctx = some (false, ctx) ∧
      ∃ ctx', parseWifiCredentials (text ++ fill ++ [0]) ctx = some (true, ctx') := by
  simp only [Settled, not_or, not_forall, not_exists, not_and, Nat.not_lt] at h
  obtain ⟨⟨query, hquery, hmissing⟩, hshort⟩ := h
  have hfill : 0 ∉ text ++ fill := by
    rw [List.mem_append, not_or]
    exact ⟨hnul, fill_nul_free⟩
  refine ⟨parse_refused hnul ⟨query, hquery, fun value hvalue ↦ ?_⟩,
    parse_accepted hfill fun query hquery ↦ quoted_fill hquery (hshort query hquery)⟩
  rw [Option.mem_def.mp hvalue] at hmissing
  exact absurd rfl hmissing

end Parser

/-! ## The first segment -/

/-- A header with the method and the path at its start is one of a provisioning request. -/
theorem isProvision_of_starts {headers : Headers} (h : lit "POST /provision" <+: headers.bytes) :
    headers.isProvision = true := by
  obtain ⟨rest, hrest⟩ := h
  unfold Headers.isProvision
  rw [← hrest]
  rfl

/-- The copy of a header has the same start. -/
theorem copy_starts {data : List UInt8} (old : Headers) (h : lit "POST /provision" <+: data) :
    lit "POST /provision" <+: (old.copy data).bytes :=
  (List.prefix_take_iff.mpr ⟨h, by decide⟩).trans (List.prefix_append _ _)

/-- A request starts with the method and the path. -/
theorem Request.bytes_starts (request : Request) : lit "POST /provision" <+: request.bytes := by
  refine request.starts.trans ?_
  rw [Request.bytes, List.append_assoc]
  exact List.prefix_append _ _

/-- The buffer of a connection on which the same request has been sent before. -/
def Request.headers (request : Request) : Headers :=
  Headers.zero.copy request.bytes

/-- A first part of the same request, copied over the old one, leaves the buffer as it was. -/
theorem Request.copy_headers (request : Request) {data : List UInt8} (h : data <+: request.bytes) :
    (request.headers.copy data).bytes = request.headers.bytes := by
  have hfits : request.bytes.length < headersSize := request.fits
  have hlen := h.length_le
  obtain ⟨rest, hrest⟩ := h
  unfold Request.headers Headers.copy
  dsimp only
  rw [List.take_of_length_le (show request.bytes.length ≤ headersSize - 1 by omega),
    List.take_of_length_le (show data.length ≤ headersSize - 1 by omega),
    Nat.min_eq_right (show data.length ≤ headersSize - 1 by omega), ← hrest,
    List.append_assoc, List.drop_left]

section Deliver

variable {p : Pbuf} {env : SocketEnv} {rest : List (Pbuf × SocketEnv)} {old : Headers}
  {ctx : AppCtx} {before after : List UInt8}

/-- Without callbacks, the segments that follow are not looked at. -/
theorem deliver_over {c : Conn} (h : c.res.callbacks = false) : deliver rest c = some c := by
  cases rest with
  | nil => rfl
  | cons _ rest =>
      refine if_neg fun hopen ↦ ?_
      rw [h] at hopen
      exact Bool.false_ne_true hopen.1

/-- A reply is the last callback, and keeps the context. -/
theorem reply_fields (env : SocketEnv) (c : Conn) (response : List UInt8) :
    (c.reply env response).2.res.callbacks = false ∧ (c.reply env response).2.ctx = c.ctx ∧
      (c.reply env response).2.replies = response :: c.replies := by
  unfold Conn.reply Conn.close tcpCloseClientConnection
  dsimp only
  split <;> exact ⟨rfl, rfl, rfl⟩

/-- The first segment is answered, and the rest is not looked at. -/
theorem outcome_answered (p : Pbuf) (env : SocketEnv) (rest : List (Pbuf × SocketEnv))
    (ctx : AppCtx) (hpayload : p.payload ≠ []) (hprovision : (old.copy p.bytes).isProvision = true)
    (hnul : 0 ∉ p.payload)
    (hsplit : splitFirst blankLine (p.payload ++ p.behind) = some (before, after)) :
    ∃ accepted ctx', parseWifiCredentials (after ++ [0]) ctx = some (accepted, ctx') ∧
      outcome ((p, env) :: rest) old ctx =
        some (ctx', [if accepted then response200 else response400]) := by
  have hnul' : 0 ∉ p.payload ++ p.behind := by
    rw [List.mem_append, not_or]
    exact ⟨hnul, p.nul_free⟩
  have htext : p.text.bytes = p.payload ++ p.behind := p.mem_holds.unique (holds_append hnul')
  have hlen : 0 < p.totLen := by
    have := List.length_pos_iff.mpr hpayload
    simp only [Pbuf.totLen, Segment.bytes, List.length_append]
    omega
  let given : Conn := { state := { headers := old }, res := { given := 1 }, ctx := ctx }
  obtain ⟨accepted, ctx', hparse, hrun⟩ := tcpServerRecv_answers env 0 given hlen hprovision
    (htext ▸ hsplit)
  refine ⟨accepted, ctx', hparse, ?_⟩
  generalize (if accepted = true then response200 else response400) = response at hrun ⊢
  obtain ⟨hcallbacks, hctx, hreplies⟩ := reply_fields env { given with
    state := { given.state with headers := given.state.headers.copy p.bytes }
    ctx := ctx' } response
  unfold outcome deliver connStep
  rw [if_pos ⟨rfl, rfl⟩, if_pos ⟨rfl, rfl⟩]
  dsimp only
  rw [hrun, Option.map_some, Option.bind_some]
  dsimp only
  split
  · rw [deliver_over hcallbacks, Option.map_some, hctx, hreplies]
  · rw [deliver_over (by exact hcallbacks), Option.map_some]
    show some (Conn.ctx _, Conn.replies _) = _
    rw [hctx, hreplies]

end Deliver

/-! ## Requests -/

section Cuts

variable {request : Request} {segments : List Segment} {s : Segment} {ctx : AppCtx}
  {before text : List UInt8}

/-- A segment with a text behind its payload in memory. -/
def Segment.pbuf (s : Segment) (behind : List UInt8) (nul_free : 0 ∉ behind)
    (memory : behind.length < 2 ^ 28) : Pbuf :=
  { s with behind := behind, nul_free := nul_free, memory := memory }

/-- The outcome of a request whose first payload has the blank line and a settled text. -/
theorem outcome_settled {p : Pbuf} (env : SocketEnv) (rest : List (Pbuf × SocketEnv))
    (ctx : AppCtx) (hpayload : p.payload = request.head ++ blankLine ++ text)
    (hlead : p.payload <+: request.bytes) (hsettled : Settled text) (old : Headers) :
    ∃ accepted ctx', parseWifiCredentials (text ++ [0]) ctx = some (accepted, ctx') ∧
      outcome ((p, env) :: rest) old ctx =
        some (ctx', [if accepted then response200 else response400]) := by
  have hnul : 0 ∉ p.payload := fun hmem ↦ request.nul_free (hlead.subset hmem)
  have hprovision : (old.copy p.bytes).isProvision = true := by
    refine isProvision_of_starts (copy_starts old (request.starts.trans ?_))
    rw [Segment.bytes, hpayload, List.append_assoc, List.append_assoc]
    exact List.prefix_append _ _
  have hsplit : splitFirst blankLine (p.payload ++ p.behind) =
      some (request.head, text ++ p.behind) := by
    rw [hpayload, List.append_assoc]
    exact splitFirst_append (by decide) request.blank _
  have hne : p.payload ≠ [] := by
    rw [hpayload]
    simp [blankLine, lit]
  obtain ⟨accepted, ctx', hparse, hrun⟩ := outcome_answered p env rest ctx hne hprovision hnul
    hsplit
  have hnul' : 0 ∉ text ++ p.behind := by
    rw [List.mem_append, not_or]
    refine ⟨fun hmem ↦ hnul ?_, p.nul_free⟩
    rw [hpayload]
    exact List.mem_append_right _ hmem
  rw [parse_settled hsettled hnul'] at hparse
  exact ⟨accepted, ctx', hparse, hrun⟩

/-- If the text behind the blank line is not settled, what is in memory behind the payload decides
between the two replies. -/
theorem not_same_of_unsettled {rest : List Segment} {pre : List UInt8} (hne : s.payload ≠ [])
    (hlead : s.bytes <+: request.bytes) (hpre : 0 ∉ pre) (hmemory : pre.length ≤ 4)
    (hsplit : splitFirst blankLine (s.payload ++ pre) = some (before, text))
    (hunsettled : ¬ Settled text) : ¬ SameOutcome request (s :: rest) ctx := by
  intro hsame
  have hpayload : s.payload <+: request.bytes := (List.prefix_append _ _).trans hlead
  have hnul : 0 ∉ s.payload := fun hmem ↦ request.nul_free (hpayload.subset hmem)
  have hprovision : (request.headers.copy s.bytes).isProvision = true := by
    refine isProvision_of_starts ?_
    rw [request.copy_headers hlead]
    exact copy_starts Headers.zero request.bytes_starts
  have htext : 0 ∉ text := by
    intro hmem
    have hboth : 0 ∈ s.payload ++ pre := by
      rw [splitFirst_eq hsplit]
      exact List.mem_append_right _ hmem
    exact (List.mem_append.mp hboth).elim hnul hpre
  have hlen : (pre ++ fill).length < 2 ^ 28 := by
    have hfill := fill_length
    rw [List.length_append]
    omega
  have hfill : 0 ∉ pre ++ fill := by
    rw [List.mem_append, not_or]
    exact ⟨hpre, fill_nul_free⟩
  let others := rest.map fun segment ↦
    (segment.pbuf [] List.not_mem_nil (by decide), ({} : SocketEnv))
  have hrun : ∀ (behind : List UInt8) (hbehind : 0 ∉ behind) (hmem : behind.length < 2 ^ 28),
      outcome ((s.pbuf behind hbehind hmem, {}) :: others) request.headers ctx =
        outcome [(request.whole.pbuf [] List.not_mem_nil (by decide), {})] request.headers ctx := by
    intro behind hbehind hmem
    refine hsame _ _ _ _ ?_ rfl
    have hothers : others.map (·.1.toSegment) = rest := by
      rw [List.map_map]
      exact List.map_id' rest
    rw [List.map_cons, hothers]
    rfl
  have hsplit' : splitFirst blankLine (s.payload ++ (pre ++ fill)) =
      some (before, text ++ fill) := by
    rw [← List.append_assoc]
    exact splitFirst_append_of_some hsplit fill
  -- the same bytes are refused with nothing behind them and accepted with the missing rest
  obtain ⟨hrefused, ctx₁, haccepted⟩ := parse_unsettled ctx hunsettled htext
  obtain ⟨first, _, hparse, hfirst⟩ := outcome_answered (s.pbuf pre hpre (by omega)) {} others ctx
    hne hprovision hnul hsplit
  obtain ⟨second, _, hparse', hsecond⟩ := outcome_answered (s.pbuf (pre ++ fill) hfill hlen) {}
    others ctx hne hprovision hnul hsplit'
  rw [hrefused] at hparse
  rw [haccepted] at hparse'
  obtain ⟨rfl, rfl⟩ := Prod.mk.inj (Option.some.inj hparse)
  obtain ⟨rfl, rfl⟩ := Prod.mk.inj (Option.some.inj hparse')
  have hsameReply := (hrun pre hpre (by omega)).trans (hrun (pre ++ fill) hfill hlen).symm
  rw [hfirst, hsecond, Option.some.injEq, Prod.mk.injEq] at hsameReply
  exact absurd hsameReply.2 (by decide)

/-- A text in which no query fits is not settled. -/
theorem not_settled_of_short (h : text.length ≤ 4) : ¬ Settled text := by
  have hnone : ∀ query ∈ queries, splitFirst query text = none := by
    intro query hquery
    rw [splitFirst_eq_none_iff]
    intro hinside
    have hle := hinside.length_le
    have hlong : ∀ query ∈ queries, 4 < query.length := by decide
    have := hlong query hquery
    omega
  rintro (hall | ⟨query, hquery, value, hvalue, -⟩)
  · have hssid := hall ssidQuery (by simp [queries])
    rw [quoted, hnone ssidQuery (by simp [queries])] at hssid
    simp at hssid
  · rw [found, hnone query hquery] at hvalue
    simp at hvalue

/-- A settled text stays settled. -/
theorem settled_append (h : Settled text) (more : List UInt8) : Settled (text ++ more) := by
  rcases h with hall | ⟨query, hquery, value, hvalue, hlong⟩
  · refine .inl fun query hquery ↦ ?_
    obtain ⟨value, hvalue⟩ := Option.isSome_iff_exists.mp (hall query hquery)
    rw [quoted_append hvalue, Option.isSome_some]
  · obtain ⟨⟨before, after⟩, hcut, rfl⟩ := Option.map_eq_some_iff.mp hvalue
    refine .inr ⟨query, hquery, _, ?_, Nat.lt_of_lt_of_le hlong (value_longer after more)⟩
    rw [Option.mem_def, found, splitFirst_append_of_some hcut]
    rfl

/-- A blank line that the first payload does not have is not completed by much. -/
theorem short_of_no_blank (hpayload : s.payload <+: request.bytes)
    (hblank : ¬ request.head ++ blankLine <+: s.payload)
    (hsplit : splitFirst blankLine (s.payload ++ blankLine) = some (before, text)) :
    text.length ≤ 4 := by
  by_contra hlong
  have heq := splitFirst_eq hsplit
  have hlens := congrArg List.length heq
  simp only [List.length_append] at hlens
  have hlead : before ++ blankLine <+: s.payload := by
    have hcut : before ++ blankLine <+: s.payload ++ blankLine := ⟨text, heq.symm⟩
    refine List.prefix_of_prefix_length_le hcut (List.prefix_append _ _) ?_
    have : blankLine.length = 4 := rfl
    rw [List.length_append]
    omega
  cases hfirst : splitFirst blankLine s.payload with
  | none =>
      exact splitFirst_eq_none hfirst
        ((List.suffix_append before blankLine).isInfix.trans hlead.isInfix)
  | some cut =>
      obtain ⟨rest, hrest⟩ := hpayload
      have hwhole := splitFirst_append_of_some hfirst rest
      rw [hrest, Request.bytes, request.blank, Option.some.injEq, Prod.mk.injEq] at hwhole
      refine hblank ⟨cut.2, ?_⟩
      rw [hwhole.1, ← splitFirst_eq hfirst]

/-- However a request is cut into segments, the context and the reply depend on the request alone,
and are those of the request in one pbuf, exactly when the first payload of the first segment has
the blank line and a text behind it that settles the parser. -/
theorem same_outcome_iff (hcut : segments.flatMap Segment.bytes = request.bytes)
    (hne : ∀ s ∈ segments, s.payload ≠ []) :
    SameOutcome request segments ctx ↔ ∃ s rest text, segments = s :: rest ∧
      s.payload = request.head ++ blankLine ++ text ∧ Settled text := by
  constructor
  · intro hsame
    cases segments with
    | nil =>
        have hempty := congrArg List.length hcut
        simp [Request.bytes, blankLine, lit] at hempty
    | cons s rest =>
        have hlead : s.bytes <+: request.bytes := ⟨_, hcut⟩
        have hpayload : s.payload <+: request.bytes := (List.prefix_append _ _).trans hlead
        by_cases hblank : request.head ++ blankLine <+: s.payload
        · obtain ⟨text, htext⟩ := hblank
          refine ⟨s, rest, text, rfl, htext.symm, ?_⟩
          by_contra hunsettled
          have hsplit : splitFirst blankLine (s.payload ++ []) = some (request.head, text) := by
            rw [List.append_nil, ← htext]
            exact splitFirst_append (by decide) request.blank text
          exact not_same_of_unsettled (hne s List.mem_cons_self) hlead List.not_mem_nil
            (by simp) hsplit hunsettled hsame
        · -- a blank line in the memory behind the payload ends the header
          cases hsplit : splitFirst blankLine (s.payload ++ blankLine) with
          | none => exact absurd (List.suffix_append _ _).isInfix (splitFirst_eq_none hsplit)
          | some cut =>
              have hshort := short_of_no_blank hpayload hblank hsplit
              exact absurd hsame (not_same_of_unsettled (hne s List.mem_cons_self) hlead
                (by decide) (by decide) hsplit (not_settled_of_short hshort))
  · rintro ⟨s, rest, text, rfl, hpayload, hsettled⟩ delivery whole old old' hdelivery hwhole
    obtain ⟨⟨p, env⟩, delivery, rfl, rfl, -⟩ := List.map_eq_cons_iff.mp hdelivery
    obtain ⟨⟨p', env'⟩, others, rfl, hone, hnone⟩ := List.map_eq_cons_iff.mp hwhole
    obtain rfl := List.map_eq_nil_iff.mp hnone
    have hlead : p.payload <+: request.bytes := by
      refine List.IsPrefix.trans (List.prefix_append _ _) (⟨_, hcut⟩ : p.toSegment.bytes <+: _)
    -- the body starts with the text that has arrived
    obtain ⟨more, hmore⟩ : text <+: request.body := by
      rw [hpayload, Request.bytes] at hlead
      exact (List.prefix_append_right_inj _).mp hlead
    have hwholePayload : p'.payload = request.head ++ blankLine ++ request.body := by
      show p'.toSegment.payload = _
      rw [show p'.toSegment = request.whole from hone]
      rfl
    obtain ⟨accepted, ctx', hparse, hrun⟩ := outcome_settled env delivery ctx hpayload hlead
      hsettled old
    obtain ⟨accepted', ctx'', hparse', hrun'⟩ := outcome_settled env' [] ctx hwholePayload
      (hwholePayload ▸ List.prefix_refl _) (hmore ▸ settled_append hsettled more) old'
    have hnul : 0 ∉ text ++ more := fun hmem ↦
      request.nul_free (List.mem_append_right _ (hmore ▸ hmem))
    rw [← hmore, parse_settled hsettled hnul, hparse] at hparse'
    obtain ⟨rfl, rfl⟩ := Prod.mk.inj (Option.some.inj hparse')
    rw [hrun, hrun']

end Cuts

/-- A request for a network with short names. -/
def shortRequest : Request where
  head := lit "POST /provision HTTP/1.1\r\nHost: 192.168.4.1"
  body := lit "\x7b\"ssid\":\"a\",\"password\":\"b\",\"token\":\"c\"\x7d"
  starts := by decide +kernel
  blank := by decide +kernel
  nul_free := by decide +kernel
  fits := by decide +kernel

/-- A segment of one pbuf. -/
def oneSegment (payload : List UInt8) (fits : payload.length < 2 ^ 16 := by decide) : Segment :=
  { payload := payload, next := [], fits := fits }

/-- The closing brace comes in a segment of its own. -/
theorem same_outcome_late_brace : SameOutcome shortRequest
    [oneSegment (shortRequest.bytes.dropLast), oneSegment (lit "\x7d")] bootCtx := by
  refine (same_outcome_iff (by decide +kernel) (by decide +kernel)).mpr
    ⟨_, _, shortRequest.body.dropLast, rfl, by decide +kernel, by decide +kernel⟩

/-- The body comes in a segment of its own: the reply is an error, and the body is ignored. -/
theorem late_body_refused : ¬ ∀ (request : Request) (segments : List Segment) (ctx : AppCtx),
    segments.flatMap Segment.bytes = request.bytes → (∀ s ∈ segments, s.payload ≠ []) →
      SameOutcome request segments ctx := by
  intro hclaim
  let segments := [oneSegment (shortRequest.head ++ blankLine), oneSegment shortRequest.body]
  let delivery (segments : List Segment) : List (Pbuf × SocketEnv) :=
    segments.map fun s ↦ (s.pbuf [] List.not_mem_nil (by decide), {})
  have hsame := hclaim shortRequest segments bootCtx (by decide +kernel) (by decide +kernel)
    (delivery segments) (delivery [shortRequest.whole]) .zero .zero rfl rfl
  have hreplies := congrArg (Option.map Prod.snd) hsame
  exact absurd hreplies (by decide +kernel)

end DirtieNode.AccessPoint
