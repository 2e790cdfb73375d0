import VmpSa.Http.Property
import VmpSa.Lib.Decimal

/-!
# Property queries over HTTP

The way of a query from `stream_url_query` over `tima_get_property_start`,
`tima_http_post` and `tima_http_handle` to `evhttp_make_request`, and back from
`http_request_done` to `tima_get_property_callback`.  `Outcomes` holds what each
fallible step on the way does.  A step that dereferences NULL or writes past an
array has no result.

`libevent` calls `http_request_done` once for a request it has accepted and never
otherwise, here after `stream_url_query` has returned.  The callers ignore what
`tima_http_post` and `tima_http_handle` return, and both have exits that do not
call back.  `Outcomes.Good` lists what has to succeed, and `query_completes_iff`
says that this is exactly what it takes.
-/

namespace VmpSa

/-! ## The model -/

/-- What `http_request_done` is called with: no request object after a socket
error, or a response. -/
inductive Reply where
  | failed (errcode : Int)
  | response (code : Int) (body : List UInt8)

/-- What the fallible steps of a query do. -/
structure Outcomes where
  /-- `node_create` finds the class. -/
  registered : Bool
  /-- The two `malloc` of `tima_get_property_create`. -/
  mallocPriv : Bool
  mallocNode : Bool
  /-- The `malloc` of `post_data`. -/
  mallocPost : Bool
  /-- The HTTP event base is there. -/
  hbase : Bool
  /-- The `calloc` of `tima_http_post`. -/
  callocHttp : Bool
  callocData : Bool
  callocUrl : Bool
  evbufferNew : Bool
  connectionNew : Bool
  requestNew : Bool
  /-- `evhttp_make_request` refuses, or accepts and later delivers a reply. -/
  made : Option Reply
  /-- The `calloc` of the response data. -/
  callocRsp : Bool

/-- `CacheNetworkConfig`, as far as the query reads it. -/
structure CacheNetworkConfig where
  httpIp : List UInt8
  httpPort : Nat

/-- `HttpReqType`. -/
inductive HttpReqType where
  | post
  | get
  | put

/-- `TimaUri`. -/
structure TimaUri where
  type : HttpReqType
  ip : List UInt8
  port : Nat
  path : List UInt8

/-- `TimaHttpReq`. -/
structure TimaHttpReq where
  reqtype : HttpReqType
  host : List UInt8
  port : Nat
  url : List UInt8
  data : Option (List UInt8)
  retry : Int

/-- `tima_http_t` and the `HttpClient` behind it. -/
structure TimaHttp where
  req : TimaHttpReq
  rsp : TimaHttpRsp
  /-- `callback` is set. -/
  callback : Bool
  /-- `ops.write` is set. -/
  write : Bool
  retries : Int
  inputBuffer : Option (List UInt8)

/-- `"%d"`. -/
def decimal (i : Int) : List UInt8 :=
  (if i < 0 then [45] else []) ++ Decimal.digits i.natAbs

/-- `TIMA_GETPROPERTY_URL`. -/
def timaGetPropertyUrl : List UInt8 :=
  "/sp-device/v1/realtime/video/video-url-and-property".toList.map fun c => c.toNat.toUInt8

/-- `tima_http_feed`. -/
def timaHttpFeed (jansson : Jansson) (http : TimaHttp) (q : Query) : Option Query :=
  if http.callback then timaGetPropertyCallback jansson http.rsp q else some q

/-- `http_handle_failed`. -/
def httpHandleFailed (jansson : Jansson) (errcode : Int) (http : TimaHttp) (q : Query) :
    Option Query :=
  let http := { http with rsp := { http.rsp with status := errcode } }
  if http.write then timaHttpFeed jansson http q else some q

/-- `http_handle_200`. -/
def httpHandle200 (jansson : Jansson) (o : Outcomes) (http : TimaHttp) (q : Query) :
    Option Query :=
  let filled :=
    match http.inputBuffer with
    | none => some http.rsp
    | some input =>
        let len := CInt.ofSize input.length
        if 0 < len then
          if o.callocRsp then
            some { http.rsp with data := some (CString.text (input.take len.toNat)), size := len }
          else none
        else some http.rsp
  match filled with
  | none => none
  | some rsp =>
      if http.write then
        timaHttpFeed jansson { http with rsp := { rsp with status := 200 } } q
      else none

/-- `http_request_done`. -/
def httpRequestDone (jansson : Jansson) (o : Outcomes) (reply : Reply) (http : TimaHttp)
    (q : Query) : Option Query :=
  match reply with
  | .failed errcode => httpHandleFailed jansson errcode http q
  | .response code body =>
      if code = 200 then
        httpHandle200 jansson o { http with inputBuffer := http.inputBuffer.map (· ++ body) } q
      else httpHandleFailed jansson code http q

/-- `tima_http_handle`: the returned value, and the client of a request `libevent`
has accepted. -/
def timaHttpHandle (o : Outcomes) (thiz : TimaHttp) : Int × Option TimaHttp :=
  let retries := if 1 < thiz.req.retry then thiz.req.retry else 1
  let port := if thiz.req.port = 0 then 80 else thiz.req.port
  let thiz := { thiz with req := { thiz.req with port := port }, retries := retries }
  if o.evbufferNew = false then (-1, none)
  else if o.connectionNew = false then (-1, none)
  else if o.requestNew = false then (-1, none)
  else
    match o.made with
    | none => (-1, none)
    | some _ => (0, some { thiz with inputBuffer := some [] })

/-- `tima_http_post`: the returned value and the client `libevent` holds. -/
def timaHttpPost (o : Outcomes) (uri : TimaUri) (postData : List UInt8) (retry : Int) :
    Option (Int × Option TimaHttp) :=
  if o.hbase = false then some (-1, none)
  else if o.callocHttp = false then some (-1, none)
  else
    let texts :=
      match uri.type with
      | .get => if o.callocUrl then some (uri.path ++ postData, none) else none
      | _ => if o.callocData && o.callocUrl then some (uri.path, some postData) else none
    match texts with
    | none => none
    | some (url, data) =>
        let (_, held) := timaHttpHandle o
          { req :=
              { reqtype := uri.type, host := uri.ip.take 32, port := uri.port, url := url
                data := data, retry := retry }
            rsp := { status := 0, data := none, size := 0 }
            callback := true
            write := true
            retries := 0
            inputBuffer := none }
        some (0, held)

/-- `tima_get_property_create`. -/
def timaGetPropertyCreate (o : Outcomes) : Option GetProperty :=
  if o.mallocPriv && o.mallocNode then
    some
      { req := { sim := [], ch := 0, pfncb := false }
        rsp := { uri := [], property := [] }
        codec := { audioType := 0, videoType := 0 }
        postData := some [] }
  else none

/-- `tima_get_property_json_create`. -/
def timaGetPropertyJsonCreate (jansson : Jansson) (o : Outcomes) (thiz : GetProperty) :
    Option GetProperty :=
  match jansson.dumps (.object
      [("simNo", .string thiz.req.sim), ("number", .string (decimal thiz.req.ch))]) with
  | none => none
  | some dump => if o.mallocPost then some { thiz with postData := some dump } else none

/-- `tima_get_property_start`.  What `tima_http_post` returns is not looked at. -/
def timaGetPropertyStart (jansson : Jansson) (cfg : CacheNetworkConfig) (o : Outcomes)
    (thiz : GetProperty) : Option (Query × Option TimaHttp) :=
  match timaGetPropertyJsonCreate jansson o thiz with
  | none => none
  | some thiz =>
      let uri :=
        { type := .post, ip := cfg.httpIp, port := cfg.httpPort, path := timaGetPropertyUrl }
      match thiz.postData with
      | none => none
      | some postData =>
          match timaHttpPost o uri postData 3 with
          | none => none
          | some (_, held) =>
              some ({ node := some { thiz with postData := none }, answers := [], deletes := 0 },
                held)

/-- `stream_url_query`, with the client that is left with `libevent`. -/
def streamUrlQuery (jansson : Jansson) (cfg : CacheNetworkConfig) (o : Outcomes) (sim : Nat)
    (channel : Int) : Option (Query × Option TimaHttp) :=
  if o.registered = false then none
  else
    match timaGetPropertyCreate o with
    | none => none
    | some n =>
        -- the number is printed with `"%011lld"`
        match CString.strcpy 16 (Decimal.pad 11 sim) with
        | none => none
        | some sim => timaGetPropertyStart jansson cfg o
            { n with req := { sim := sim, ch := channel, pfncb := true } }

/-- A query up to the reply, if one is delivered. -/
def completeQuery (jansson : Jansson) (cfg : CacheNetworkConfig) (o : Outcomes) (sim : Nat)
    (channel : Int) : Option (Query × Option Reply) :=
  match streamUrlQuery jansson cfg o sim channel with
  | none => none
  | some (q, held) =>
      match held, o.made with
      | some http, some reply =>
          (httpRequestDone jansson o reply http q).map fun q => (q, some reply)
      | _, _ => some (q, none)

/-! ## Completion -/

/-- The text of a reply the callback looks at: the body of a 200 response that is
not empty, its length read as an `int`. -/
def Reply.text : Reply → Option (List UInt8)
  | .failed _ => none
  | .response code body =>
      if code = 200 ∧ 0 < CInt.ofSize body.length then
        some (CString.text (body.take (CInt.ofSize body.length).toNat))
      else none

/-- The requester is called back once, with a failure unless a good reply came in,
and the node is deleted once. -/
def CompletesOnce (jansson : Jansson) (result : Option (Query × Option Reply)) : Prop :=
  ∃ q reply msg, result = some (q, reply) ∧ q.answers = [msg] ∧ q.deletes = 1 ∧
    Verdict jansson (reply.bind Reply.text) msg

/-- The request gets as far as `libevent`. -/
structure Outcomes.Sent (o : Outcomes) (jansson : Jansson) (sim : Nat) (channel : Int) :
    Prop where
  created : o.registered = true ∧ o.mallocPriv = true ∧ o.mallocNode = true
  sim_fits : (Decimal.pad 11 sim).length < 16
  dumped : (jansson.dumps (.object [("simNo", .string (Decimal.pad 11 sim)),
    ("number", .string (decimal channel))])).isSome = true ∧ o.mallocPost = true
  posted : o.hbase = true ∧ o.callocHttp = true ∧ o.callocData = true ∧ o.callocUrl = true
  handled : o.evbufferNew = true ∧ o.connectionNew = true ∧ o.requestNew = true

/-- Every step of the query succeeds: the request is sent and accepted, and the
text of the reply can be stored. -/
def Outcomes.Good (o : Outcomes) (jansson : Jansson) (sim : Nat) (channel : Int) : Prop :=
  o.Sent jansson sim channel ∧ ∃ reply, o.made = some reply ∧
    ∀ text, reply.text = some text → o.callocRsp = true ∧ CopiesFit jansson text

/-- The client `libevent` holds for an accepted request. -/
structure TimaHttp.Waiting (http : TimaHttp) : Prop where
  callback : http.callback = true
  write : http.write = true
  empty : http.inputBuffer = some []
  data : http.rsp.data = none

/-- The node of a query that has been sent. -/
structure Query.Open (q : Query) (thiz : GetProperty) : Prop where
  node : q.node = some thiz
  pfncb : thiz.req.pfncb = true
  video : thiz.codec.videoType ≠ 98
  answers : q.answers = []
  deletes : q.deletes = 0

variable {jansson : Jansson} {cfg : CacheNetworkConfig} {o : Outcomes} {sim : Nat} {channel : Int}
  {q : Query} {http : TimaHttp} {thiz : GetProperty}

/-! ## The reply -/

/-- Feeding a response to an open query completes it. -/
theorem feed_completes (jansson : Jansson) (http : TimaHttp) (hcb : http.callback = true)
    (hq : q.Open thiz)
    (hfit : http.rsp.status = 200 → ∀ text, http.rsp.data = some text → CopiesFit jansson text) :
    ∃ msg, timaHttpFeed jansson http q =
        some { node := none, answers := [msg], deletes := 1 } ∧
      Verdict jansson (if http.rsp.status = 200 then http.rsp.data else none) msg := by
  obtain ⟨msg, hcall, hv⟩ := callback_spec hq.node hq.pfncb hq.video hfit
  refine ⟨msg, ?_, hv⟩
  rw [timaHttpFeed, if_pos hcb, hcall, hq.answers, hq.deletes]
  rfl

/-- A reply without a text completes the query with a failure, whatever its code. -/
theorem failed_completes (hw : http.Waiting) (hq : q.Open thiz) (errcode : Int) :
    ∃ msg, httpHandleFailed jansson errcode http q =
        some { node := none, answers := [msg], deletes := 1 } ∧ Verdict jansson none msg := by
  let failed : TimaHttp := { http with rsp := { http.rsp with status := errcode } }
  have hdata : failed.rsp.data = none := hw.data
  obtain ⟨msg, hfeed, hv⟩ := feed_completes jansson failed hw.callback hq
    (fun _ text htext => by rw [hdata] at htext; cases htext)
  refine ⟨msg, ?_, by rwa [hdata, ite_self] at hv⟩
  rw [httpHandleFailed]
  simp only [hw.write, if_true]
  exact hfeed

/-- The response record of a 200 reply, once its text is stored. -/
theorem handle200_eq (hw : http.Waiting) (body : List UInt8) :
    httpHandle200 jansson o { http with inputBuffer := http.inputBuffer.map (· ++ body) } q =
      match (Reply.response 200 body).text with
      | none => timaHttpFeed jansson { http with
          inputBuffer := some body, rsp := { http.rsp with status := 200 } } q
      | some text =>
          if o.callocRsp then timaHttpFeed jansson { http with
            inputBuffer := some body
            rsp := { status := 200, data := some text, size := CInt.ofSize body.length } } q
          else none := by
  unfold httpHandle200 Reply.text
  by_cases hlen : 0 < CInt.ofSize body.length
  · cases o.callocRsp <;> simp [hw.empty, hw.write, hlen]
  · simp [hw.empty, hw.write, hlen]

/-- A reply whose text can be stored completes the query. -/
theorem done_completes (hw : http.Waiting) (hq : q.Open thiz) (reply : Reply)
    (hfit : ∀ text, reply.text = some text → o.callocRsp = true ∧ CopiesFit jansson text) :
    ∃ msg, httpRequestDone jansson o reply http q =
        some { node := none, answers := [msg], deletes := 1 } ∧ Verdict jansson reply.text msg := by
  cases reply with
  | failed errcode => exact failed_completes hw hq errcode
  | response code body =>
      by_cases h200 : code = 200
      · subst h200
        rw [httpRequestDone, if_pos rfl, handle200_eq hw body]
        cases htext : (Reply.response 200 body).text with
        | none =>
            obtain ⟨msg, hfeed, hv⟩ := feed_completes jansson
              { http with inputBuffer := some body, rsp := { http.rsp with status := 200 } }
              hw.callback hq (fun _ text h => by rw [show _ = none from hw.data] at h; cases h)
            exact ⟨msg, hfeed, by rwa [if_pos rfl, show _ = none from hw.data] at hv⟩
        | some text =>
            obtain ⟨hcalloc, hcopies⟩ := hfit text htext
            obtain ⟨msg, hfeed, hv⟩ := feed_completes jansson
              { http with
                inputBuffer := some body
                rsp := { status := 200, data := some text, size := CInt.ofSize body.length } }
              hw.callback hq (fun _ t h => by cases h; exact hcopies)
            exact ⟨msg, by simp only [hcalloc, if_true]; exact hfeed, hv⟩
      · have htext : (Reply.response code body).text = none := by
          rw [Reply.text, if_neg fun h => h200 h.1]
        rw [htext, httpRequestDone, if_neg h200]
        exact failed_completes hw hq code

/-- A reply whose text cannot be stored has no result. -/
theorem done_none (hw : http.Waiting) {reply : Reply} {text : List UInt8}
    (htext : reply.text = some text) (hfit : ¬ (o.callocRsp = true ∧ CopiesFit jansson text)) :
    httpRequestDone jansson o reply http q = none := by
  cases reply with
  | failed errcode => cases htext
  | response code body =>
      have h200 : code = 200 := by
        by_contra h200
        rw [Reply.text, if_neg fun h => h200 h.1] at htext
        cases htext
      subst h200
      rw [httpRequestDone, if_pos rfl, handle200_eq hw body, htext]
      by_cases hcalloc : o.callocRsp = true
      · simp only [hcalloc, if_true, timaHttpFeed, hw.callback]
        exact callback_overflow rfl rfl fun hcopies => hfit ⟨hcalloc, hcopies⟩
      · simp only [hcalloc]
        rfl

/-! ## The request -/

/-- The request is left with `libevent` when every step before succeeded and it was
accepted. -/
theorem handle_held {thiz : TimaHttp} {reply : Reply}
    (h : o.evbufferNew = true ∧ o.connectionNew = true ∧ o.requestNew = true)
    (hm : o.made = some reply) :
    ∃ http, (timaHttpHandle o thiz).2 = some http := by
  obtain ⟨h1, h2, h3⟩ := h
  exact ⟨_, by simp only [timaHttpHandle, h1, h2, h3, hm]; rfl⟩

/-- Only then is it left there. -/
theorem of_handle_held {thiz : TimaHttp} (h : (timaHttpHandle o thiz).2 = some http) :
    (o.evbufferNew = true ∧ o.connectionNew = true ∧ o.requestNew = true) ∧
      (∃ reply, o.made = some reply) ∧ http.callback = thiz.callback ∧ http.write = thiz.write ∧
      http.inputBuffer = some [] ∧ http.rsp = thiz.rsp := by
  unfold timaHttpHandle at h
  cases h1 : o.evbufferNew with
  | false => simp [h1] at h
  | true =>
      cases h2 : o.connectionNew with
      | false => simp [h1, h2] at h
      | true =>
          cases h3 : o.requestNew with
          | false => simp [h1, h2, h3] at h
          | true =>
              cases h4 : o.made with
              | none => simp [h1, h2, h3, h4] at h
              | some reply =>
                  simp only [h1, h2, h3, h4, Bool.true_eq_false, if_false] at h
                  cases h
                  exact ⟨⟨rfl, rfl, rfl⟩, ⟨reply, rfl⟩, rfl, rfl, rfl, rfl⟩

theorem post_held (uri : TimaUri) (data : List UInt8) (retry : Int) {reply : Reply}
    (ht : uri.type = .post)
    (hp : o.hbase = true ∧ o.callocHttp = true ∧ o.callocData = true ∧ o.callocUrl = true)
    (hh : o.evbufferNew = true ∧ o.connectionNew = true ∧ o.requestNew = true)
    (hm : o.made = some reply) :
    ∃ http, timaHttpPost o uri data retry = some (0, some http) := by
  obtain ⟨h1, h2, h3, h4⟩ := hp
  simp only [timaHttpPost, h1, h2, h3, h4, ht, Bool.true_eq_false, if_false, Bool.and_self, if_true]
  obtain ⟨http, hheld⟩ := handle_held hh hm
  exact ⟨http, by rw [hheld]⟩

theorem of_post_held {uri : TimaUri} {data : List UInt8} {retry ret : Int} (ht : uri.type = .post)
    (h : timaHttpPost o uri data retry = some (ret, some http)) :
    (o.hbase = true ∧ o.callocHttp = true ∧ o.callocData = true ∧ o.callocUrl = true) ∧
      (o.evbufferNew = true ∧ o.connectionNew = true ∧ o.requestNew = true) ∧
      (∃ reply, o.made = some reply) ∧ http.Waiting := by
  unfold timaHttpPost at h
  cases h1 : o.hbase with
  | false => simp [h1] at h
  | true =>
      cases h2 : o.callocHttp with
      | false => simp [h1, h2] at h
      | true =>
          cases h3 : o.callocData with
          | false => simp [h1, h2, h3, ht] at h
          | true =>
              cases h4 : o.callocUrl with
              | false => simp [h1, h2, h3, h4, ht] at h
              | true =>
                  simp only [h1, h2, h3, h4, ht, Bool.true_eq_false, if_false, Bool.and_self,
                    if_true, Option.some.injEq, Prod.mk.injEq] at h
                  obtain ⟨hh, hm, hcb, hwr, hin, hrsp⟩ := of_handle_held h.2
                  exact ⟨⟨rfl, rfl, rfl, rfl⟩, hh, hm, hcb, hwr, hin, by rw [hrsp]⟩

/-- What the start of the node has gone through when it returns. -/
theorem of_start {held : Option TimaHttp}
    (h : timaGetPropertyStart jansson cfg o thiz = some (q, held)) :
    ((jansson.dumps (.object [("simNo", .string thiz.req.sim),
        ("number", .string (decimal thiz.req.ch))])).isSome = true ∧ o.mallocPost = true) ∧
      q = { node := some { thiz with postData := none }, answers := [], deletes := 0 } ∧
      ∃ uri data ret, uri.type = .post ∧ timaHttpPost o uri data 3 = some (ret, held) := by
  unfold timaGetPropertyStart timaGetPropertyJsonCreate at h
  cases hdump : jansson.dumps (.object [("simNo", .string thiz.req.sim),
      ("number", .string (decimal thiz.req.ch))]) with
  | none => simp [hdump] at h
  | some dump =>
      cases hpost : o.mallocPost with
      | false => simp [hdump, hpost] at h
      | true =>
          simp only [hdump, hpost, if_true] at h
          split at h
          · cases h
          next ret held' hhttp =>
            cases h
            exact ⟨⟨rfl, rfl⟩, rfl, _, _, ret, rfl, hhttp⟩

theorem query_eq_start (hc : o.registered = true ∧ o.mallocPriv = true ∧ o.mallocNode = true)
    (hs : (Decimal.pad 11 sim).length < 16) :
    streamUrlQuery jansson cfg o sim channel = timaGetPropertyStart jansson cfg o
      { req := { sim := Decimal.pad 11 sim, ch := channel, pfncb := true }
        rsp := { uri := [], property := [] }
        codec := { audioType := 0, videoType := 0 }
        postData := some [] } := by
  obtain ⟨h1, h2, h3⟩ := hc
  simp [streamUrlQuery, timaGetPropertyCreate, h1, h2, h3, CString.strcpy_of_lt hs]

theorem of_query_some {r : Query × Option TimaHttp}
    (h : streamUrlQuery jansson cfg o sim channel = some r) :
    (o.registered = true ∧ o.mallocPriv = true ∧ o.mallocNode = true) ∧
      (Decimal.pad 11 sim).length < 16 := by
  unfold streamUrlQuery timaGetPropertyCreate at h
  cases h1 : o.registered with
  | false => simp [h1] at h
  | true =>
      cases h2 : o.mallocPriv with
      | false => simp [h1, h2] at h
      | true =>
          cases h3 : o.mallocNode with
          | false => simp [h1, h2, h3] at h
          | true =>
              refine ⟨⟨rfl, rfl, rfl⟩, ?_⟩
              by_contra hlong
              simp [h1, h2, h3, CString.strcpy_of_le (Nat.not_lt.mp hlong)] at h

/-- A query that returns leaves an open node, and has been sent if `libevent` holds
a client for it. -/
theorem of_query {held : Option TimaHttp}
    (h : streamUrlQuery jansson cfg o sim channel = some (q, held)) :
    (∃ thiz, q.Open thiz) ∧ ∀ http, held = some http →
      o.Sent jansson sim channel ∧ (∃ reply, o.made = some reply) ∧ http.Waiting := by
  obtain ⟨hc, hs⟩ := of_query_some h
  rw [query_eq_start hc hs] at h
  obtain ⟨hd, hq, uri, data, ret, ht, hpost⟩ := of_start h
  refine ⟨⟨_, by rw [hq]; exact ⟨rfl, rfl, by simp, rfl, rfl⟩⟩, ?_⟩
  rintro http rfl
  obtain ⟨hp, hh, hm, hw⟩ := of_post_held ht hpost
  exact ⟨⟨hc, hs, hd, hp, hh⟩, hm, hw⟩

/-- A query whose steps all succeed is left with `libevent`. -/
theorem query_held (cfg : CacheNetworkConfig) {reply : Reply}
    (h : o.Sent jansson sim channel) (hm : o.made = some reply) :
    ∃ q http, streamUrlQuery jansson cfg o sim channel = some (q, some http) := by
  obtain ⟨dump, hdump⟩ := Option.isSome_iff_exists.mp h.dumped.1
  rw [query_eq_start h.created h.sim_fits, timaGetPropertyStart, timaGetPropertyJsonCreate]
  simp only [hdump, h.dumped.2, if_true]
  obtain ⟨http, hpost⟩ := post_held
    { type := .post, ip := cfg.httpIp, port := cfg.httpPort, path := timaGetPropertyUrl }
    dump 3 rfl h.posted h.handled hm
  exact ⟨_, http, by rw [hpost]⟩

/-! ## The result -/

/-- A query calls its requester back once, with a failure unless a good reply came
in, and deletes its node once, exactly when every step on the way succeeds. -/
theorem query_completes_iff (jansson : Jansson) (cfg : CacheNetworkConfig) (o : Outcomes)
    (sim : Nat) (channel : Int) :
    CompletesOnce jansson (completeQuery jansson cfg o sim channel) ↔
      o.Good jansson sim channel := by
  constructor
  · rintro ⟨q', reply', msg, hdone, hans, -, -⟩
    unfold completeQuery at hdone
    cases hquery : streamUrlQuery jansson cfg o sim channel with
    | none => simp [hquery] at hdone
    | some r =>
        obtain ⟨q, held⟩ := r
        obtain ⟨⟨thiz, hopen⟩, hheld⟩ := of_query hquery
        cases held with
        | none =>
            -- nothing is held, so nothing will ever call back
            simp only [hquery] at hdone
            cases hdone
            rw [hopen.answers] at hans
            cases hans
        | some http =>
            obtain ⟨hsent, ⟨reply, hmade⟩, hw⟩ := hheld http rfl
            refine ⟨hsent, reply, hmade, fun text htext => ?_⟩
            by_contra hfit
            simp only [hquery, hmade, done_none hw htext hfit, Option.map_none] at hdone
            cases hdone
  · rintro ⟨hsent, reply, hmade, hfit⟩
    obtain ⟨q, http, hquery⟩ := query_held cfg hsent hmade
    obtain ⟨⟨thiz, hopen⟩, hheld⟩ := of_query hquery
    obtain ⟨-, -, hw⟩ := hheld http rfl
    obtain ⟨msg, hdone, hv⟩ := done_completes hw hopen reply hfit
    refine ⟨{ node := none, answers := [msg], deletes := 1 }, some reply, msg, ?_, rfl, rfl, hv⟩
    simp only [completeQuery, hquery, hmade, hdone, Option.map_some]

/-- Everything succeeds but the HTTP event base, which is not there yet. -/
def noEventBase : Outcomes where
  registered := true
  mallocPriv := true
  mallocNode := true
  mallocPost := true
  hbase := false
  callocHttp := true
  callocData := true
  callocUrl := true
  evbufferNew := true
  connectionNew := true
  requestNew := true
  made := some (.failed 0)
  callocRsp := true

/-- Without the event base the requester is never called back. -/
theorem query_not_completed :
    ¬ ∀ (jansson : Jansson) (cfg : CacheNetworkConfig) (o : Outcomes) (sim : Nat) (channel : Int),
      CompletesOnce jansson (completeQuery jansson cfg o sim channel) := by
  intro h
  obtain ⟨q, reply, msg, hdone, hans, -⟩ :=
    h ⟨fun _ => none, fun _ => some [0x7b, 0x7d]⟩ ⟨[], 80⟩ noEventBase 13912345678 1
  cases hdone
  cases hans

end VmpSa
