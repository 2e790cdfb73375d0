import Mathlib.Data.List.TakeDrop
import Mathlib.Data.List.TakeWhile
import VmpSa.Http.Query
import VmpSa.Lib.CString
import VmpSa.Lib.Decimal

/-!
# The publish address

The way of the play address from a reply into the URL a stream is published at.
`tima_get_property_json_parse` copies it into the reply record, `rtmp_push_start`
from there into the publish request, `rtmp_publish_set` copies the request as a
whole, and `rtmp_publish_connect` prints the URL with the host and the port of the
configuration.  `cache_tima_load_conf` has stored these.

Four arrays of three sizes are filled, by `strcpy`, by `strncpy` and by `snprintf`,
and none of the three says that a string was too long.  `strcpy` writes past its
array, `strncpy` leaves no NUL, and `snprintf` cuts the text.  `url_eq` says what is
handed on, and `address_survives_iff` when it is the address.
-/

namespace VmpSa

/-! ## The model -/

/-- What the parser of the configuration file hands out: NULL for a host that is not
there, and no number for a port that is not there. -/
structure Ini where
  rtmpIp : Option (List UInt8)
  rtmpPort : Option Int32
  nul_free : ∀ s, rtmpIp = some s → 0 ∉ s

/-- `CacheNetworkConfig`, as far as the publisher reads it. -/
structure CacheRtmpConfig where
  /-- A `char[64]`. -/
  rtmpIp : List UInt8
  rtmpPort : UInt32

/-- `"127.0.0.1"`. -/
def defaultRtmpIp : List UInt8 := [49, 50, 55, 46, 48, 46, 48, 46, 49]

/-- `cache_tima_load_conf`, into a configuration that is zeroed. -/
def cacheTimaLoadConf (ini : Ini) : CacheRtmpConfig where
  rtmpIp :=
    match ini.rtmpIp with
    | some s => if 0 < s.length then CString.strncpy 64 s else CString.strncpy 64 defaultRtmpIp
    | none => CString.strncpy 64 defaultRtmpIp
  rtmpPort := (ini.rtmpPort.getD 1935).toUInt32

/-- `RtmpPublishReq`, as far as the publisher connects with it. -/
structure RtmpPublishReq where
  /-- A `char[MAX_PATH_SIZE + 1]`. -/
  uri : List UInt8
  sim : Nat
  channel : Int

/-- `MAX_PATH_SIZE`. -/
def maxPathSize : Nat := 260

/-- The request of `rtmp_push_start`. -/
def rtmpPushStart (sim : Nat) (channel : Int) (uri : List UInt8) : RtmpPublishReq where
  uri := CString.strncpy (maxPathSize + 1) uri
  sim := sim
  channel := channel

/-- `url_query_callback`: the request that is pushed, if there is one. -/
def urlQueryCallback (sim : Nat) (channel : Int) : NodeMsg → Option RtmpPublishReq
  | .fail => none
  | .success rsp => some (rtmpPushStart sim channel rsp.uri)

/-- `"rtmp://%s:%d%s"`. -/
def rtmpUrl (ip : List UInt8) (port : Int) (uri : List UInt8) : List UInt8 :=
  [114, 116, 109, 112, 58, 47, 47] ++ ip ++ [58] ++ decimal port ++ uri

/-- `rtmp_publish_connect` up to the URL it hands to `tima_rtmp_create`.  `thiz->req`
is the copy `rtmp_publish_set` has made of the request.  There is no result where a
string is read from an array that holds none. -/
def rtmpPublishConnect (cfg : CacheRtmpConfig) (req : RtmpPublishReq) : Option (List UInt8) :=
  match CString.ofArray cfg.rtmpIp, CString.ofArray req.uri with
  | some ip, some uri =>
      CString.ofArray (CString.snprintf 256 (rtmpUrl ip cfg.rtmpPort.toInt32.toInt uri))
  | _, _ => none

/-- The response of a 200 reply as `http_handle_200` hands it on. -/
def okResponse (body : List UInt8) : TimaHttpRsp where
  status := 200
  data := (Reply.response 200 body).text
  size := CInt.ofSize body.length

/-! ## The terms of the result -/

/-- The host that is configured. -/
def Ini.host (ini : Ini) : List UInt8 :=
  match ini.rtmpIp with
  | some s => if 0 < s.length then s else defaultRtmpIp
  | none => defaultRtmpIp

/-- The port that is configured. -/
def Ini.port (ini : Ini) : Int := (ini.rtmpPort.getD 1935).toInt

/-- The strings `jansson` hands out end at their NUL. -/
def Jansson.HandsOutStrings (jansson : Jansson) : Prop :=
  ∀ text root key value, jansson.loads text = some root →
    (jsonObjectGet root key).bind jsonStringValue = some value → 0 ∉ value

/-- The play address of a reply that is taken goes through every copy: into the
reply record, into the request, and into the URL. -/
structure Published (jansson : Jansson) (ini : Ini) (sim : Nat) (channel : Int)
    (text : List UInt8) (rsp : TimaGetPropertyRsp) : Prop where
  address : ∃ root, PlayAddress jansson text root rsp.uri
  fits : rsp.uri.length < maxLen ∧ rsp.property.length < maxLen
  pushed : ∃ req, urlQueryCallback sim channel (.success rsp) = some req ∧
    CString.ofArray req.uri = some rsp.uri ∧
    rtmpPublishConnect (cacheTimaLoadConf ini) req = some (rtmpUrl ini.host ini.port rsp.uri)

/-- A 200 reply is rejected, or its play address is the one that is published. -/
def AddressSurvives (jansson : Jansson) (ini : Ini) (sim : Nat) (channel : Int) (q : Query)
    (body : List UInt8) : Prop :=
  ∃ q', timaGetPropertyCallback jansson (okResponse body) q = some q' ∧
    ∀ rsp, NodeMsg.success rsp ∈ q'.answers →
      ∃ text, (okResponse body).data = some text ∧ Published jansson ini sim channel text rsp

variable {jansson : Jansson} {ini : Ini} {cfg : CacheNetworkConfig} {o : Outcomes} {sim : Nat}
  {channel : Int} {q : Query} {text uri : List UInt8} {rsp : TimaGetPropertyRsp}

/-! ## The copies -/

theorem Ini.host_nul_free (ini : Ini) : 0 ∉ ini.host := by
  have hdefault : 0 ∉ defaultRtmpIp := by decide
  rw [Ini.host]
  cases hip : ini.rtmpIp with
  | none => exact hdefault
  | some s =>
      change 0 ∉ if 0 < s.length then s else defaultRtmpIp
      split
      · exact ini.nul_free s hip
      · exact hdefault

theorem loadConf_rtmpIp (ini : Ini) :
    (cacheTimaLoadConf ini).rtmpIp = CString.strncpy 64 ini.host := by
  rw [cacheTimaLoadConf, Ini.host]
  cases ini.rtmpIp with
  | none => rfl
  | some s => exact (apply_ite (CString.strncpy 64) _ _ _).symm

theorem decimal_nul_free (i : Int) : 0 ∉ decimal i := by
  intro hmem
  rw [decimal, List.mem_append] at hmem
  rcases hmem with hsign | hdigits
  · split at hsign
    · revert hsign
      decide
    · cases hsign
  · have hdigit : Decimal.IsDigit 0 := Decimal.isDigit_of_mem_digits hdigits
    revert hdigit
    decide

theorem rtmpUrl_nul_free {ip : List UInt8} {port : Int} (hip : 0 ∉ ip) (huri : 0 ∉ uri) :
    0 ∉ rtmpUrl ip port uri := by
  have hport := decimal_nul_free port
  simp [rtmpUrl, hip, hport, huri]

/-- What is handed to `tima_rtmp_create` for an address that fits the request. -/
theorem url_eq (ini : Ini) (sim : Nat) (channel : Int) (huri : 0 ∉ uri)
    (hfit : uri.length < maxLen) :
    rtmpPublishConnect (cacheTimaLoadConf ini) (rtmpPushStart sim channel uri) =
      if ini.host.length < 64 then some ((rtmpUrl ini.host ini.port uri).take 255) else none := by
  have hmax : maxLen = 256 := rfl
  have hpath : maxPathSize = 260 := rfl
  have hcopy : CString.ofArray (rtmpPushStart sim channel uri).uri = some uri := by
    rw [rtmpPushStart, CString.ofArray_strncpy huri, if_pos (by omega)]
  have hport : (cacheTimaLoadConf ini).rtmpPort.toInt32.toInt = ini.port := rfl
  rw [rtmpPublishConnect, hcopy, loadConf_rtmpIp, CString.ofArray_strncpy ini.host_nul_free]
  by_cases hhost : ini.host.length < 64
  · simp only [if_pos hhost, hport]
    exact CString.ofArray_snprintf (rtmpUrl_nul_free ini.host_nul_free huri) (by decide)
  · simp only [if_neg hhost]

theorem length_rtmpUrl (ip uri : List UInt8) (port : Int) :
    (rtmpUrl ip port uri).length = 8 + ip.length + (decimal port).length + uri.length := by
  simp only [rtmpUrl, List.length_append, List.length_cons, List.length_nil]
  omega

/-! ## The result -/

theorem Jansson.HandsOutStrings.uri_nul_free (hj : jansson.HandsOutStrings)
    (h : Accepts jansson text rsp) : 0 ∉ rsp.uri := by
  obtain ⟨root, hplay, -⟩ := h
  exact hj text root _ _ hplay.root_eq hplay.uri_eq

theorem CopiesFit.of_accepts (hfit : CopiesFit jansson text) (h : Accepts jansson text rsp) :
    rsp.uri.length < maxLen ∧ rsp.property.length < maxLen := by
  obtain ⟨root, hplay, hprop, -⟩ := h
  obtain ⟨huri, hprops⟩ := hfit root _ hplay
  exact ⟨huri, hprops _ hprop⟩

/-- A good reply is published as it should be when its host and its URL fit. -/
theorem published_iff (hj : jansson.HandsOutStrings) (h : Accepts jansson text rsp)
    (hfit : CopiesFit jansson text) (ini : Ini) (sim : Nat) (channel : Int) :
    Published jansson ini sim channel text rsp ↔
      ini.host.length < 64 ∧
        8 + ini.host.length + (decimal ini.port).length + rsp.uri.length < 256 := by
  have huri := hj.uri_nul_free h
  have hfits := hfit.of_accepts h
  have hconnect := url_eq ini sim channel huri hfits.1
  rw [← length_rtmpUrl ini.host rsp.uri ini.port]
  constructor
  · rintro ⟨-, -, req, hreq, -, hurl⟩
    cases hreq
    rw [hconnect] at hurl
    by_cases hhost : ini.host.length < 64
    · rw [if_pos hhost, Option.some.injEq, List.take_eq_self_iff] at hurl
      exact ⟨hhost, Nat.lt_succ_of_le hurl⟩
    · rw [if_neg hhost] at hurl
      cases hurl
  · rintro ⟨hhost, hlen⟩
    obtain ⟨root, hplay, -⟩ := h
    refine ⟨⟨root, hplay⟩, hfits, _, rfl, ?_, ?_⟩
    · have hmax : maxLen = 256 := rfl
      have hpath : maxPathSize = 260 := rfl
      rw [rtmpPushStart, CString.ofArray_strncpy huri, if_pos (by omega)]
    · rw [hconnect, if_pos hhost, List.take_of_length_le (by omega)]

theorem Accepts.uri_unique {rsp' : TimaGetPropertyRsp} (h : Accepts jansson text rsp)
    (h' : Accepts jansson text rsp') : rsp'.uri = rsp.uri := by
  obtain ⟨root, hplay, -⟩ := h
  obtain ⟨root', hplay', -⟩ := h'
  exact (hplay.unique hplay').2

/-- The callback for a 200 reply to a query that is open. -/
theorem callback_ok {thiz : GetProperty} (hopen : q.Open thiz) {body : List UInt8}
    (hfit : ∀ text, (okResponse body).data = some text → CopiesFit jansson text) :
    ∃ msg, timaGetPropertyCallback jansson (okResponse body) q =
        some { node := none, answers := [msg], deletes := 1 } ∧
      Verdict jansson (okResponse body).data msg := by
  obtain ⟨msg, hcall, hv⟩ := callback_spec hopen.node hopen.pfncb hopen.video fun _ => hfit
  rw [hopen.answers, hopen.deletes] at hcall
  exact ⟨msg, hcall, hv⟩

theorem AddressSurvives.copiesFit {body : List UInt8}
    (h : AddressSurvives jansson ini sim channel q body)
    (htext : (okResponse body).data = some text) : CopiesFit jansson text := by
  obtain ⟨q', hcall, -⟩ := h
  by_contra hover
  rw [callback_overflow rfl htext hover] at hcall
  cases hcall

/-- A good reply whose address survives has a host and a URL that fit. -/
theorem AddressSurvives.fits {thiz : GetProperty} {body : List UInt8}
    (h : AddressSurvives jansson ini sim channel q body) (hj : jansson.HandsOutStrings)
    (hopen : q.Open thiz) (htext : (okResponse body).data = some text)
    (hacc : Accepts jansson text rsp) :
    ini.host.length < 64 ∧
      8 + ini.host.length + (decimal ini.port).length + rsp.uri.length < 256 := by
  have hfit := h.copiesFit htext
  obtain ⟨q', hcall, hsurvives⟩ := h
  obtain ⟨msg, hmsg, hv⟩ := callback_ok hopen fun t ht => by
    cases htext.symm.trans ht
    exact hfit
  cases hcall.symm.trans hmsg
  rcases hv with ⟨t, rsp', ht, hacc', rfl⟩ | ⟨-, hno⟩
  · cases htext.symm.trans ht
    obtain ⟨t, ht, hpublished⟩ := hsurvives rsp' (List.mem_singleton_self _)
    cases htext.symm.trans ht
    rw [← hacc.uri_unique hacc']
    exact (published_iff hj hacc' hfit ini sim channel).mp hpublished
  · exact absurd hacc (hno text rsp htext)

/-- A 200 reply is rejected or published with its address exactly when the strings
copied out of it fit the reply record and, for a good reply, the configured host and
the whole URL fit their arrays. -/
theorem address_survives_iff (hj : jansson.HandsOutStrings) {http : TimaHttp}
    (hsent : streamUrlQuery jansson cfg o sim channel = some (q, some http)) (ini : Ini)
    (body : List UInt8) :
    AddressSurvives jansson ini sim channel q body ↔
      ∀ text, (okResponse body).data = some text →
        CopiesFit jansson text ∧ ∀ rsp, Accepts jansson text rsp →
          ini.host.length < 64 ∧
            8 + ini.host.length + (decimal ini.port).length + rsp.uri.length < 256 := by
  obtain ⟨⟨thiz, hopen⟩, -⟩ := of_query hsent
  constructor
  · intro h text htext
    exact ⟨h.copiesFit htext, fun rsp hacc => h.fits hj hopen htext hacc⟩
  · intro h
    obtain ⟨msg, hmsg, hv⟩ := callback_ok hopen fun text htext => (h text htext).1
    refine ⟨_, hmsg, fun rsp hmem => ?_⟩
    cases List.mem_singleton.mp hmem
    rcases hv with ⟨text, rsp', htext, hacc, heq⟩ | ⟨heq, -⟩
    · cases heq
      obtain ⟨hfit, hlens⟩ := h text htext
      exact ⟨text, htext, (published_iff hj hacc hfit ini sim channel).mpr (hlens rsp hacc)⟩
    · cases heq

/-! ## Replies -/

def ascii (s : String) : List UInt8 := s.toList.map fun c => c.toNat.toUInt8

/-- The property of an H.264 stream. -/
def h264Property : List UInt8 := ascii "\x7b\"audioCodeType\":8,\"videoCodeType\":98\x7d"

/-- A good reply with a play address. -/
def addressReply (address : List UInt8) : List UInt8 :=
  ascii "\x7b\"playAddress\":\"" ++ address ++
    ascii "\",\"property\":\"\x7b\\\"audioCodeType\\\":8,\\\"videoCodeType\\\":98\x7d\"\x7d"

/-- What `jansson` makes of that reply and of the property in it, and of a request. -/
def addressJansson (address : List UInt8) : Jansson where
  loads := fun text =>
    if text = addressReply address then
      some (.object [("playAddress", .string address), ("property", .string h264Property)])
    else if text = h264Property then
      some (.object [("audioCodeType", .integer 8), ("videoCodeType", .integer 98)])
    else none
  dumps := fun json =>
    match json with
    | .object [("simNo", .string sim), ("number", .string number)] =>
        some (ascii "\x7b\"simNo\": \"" ++ sim ++ ascii "\", \"number\": \"" ++ number ++
          ascii "\"\x7d")
    | _ => none

variable {address : List UInt8}

theorem addressReply_ne (address : List UInt8) : h264Property ≠ addressReply address := by
  intro h
  have hthird : h264Property.take 3 = (addressReply address).take 3 := by rw [← h]
  revert hthird
  change ¬ h264Property.take 3 = [0x7b, 0x22, 0x70]
  decide

theorem addressJansson_strings (h : 0 ∉ address) : (addressJansson address).HandsOutStrings := by
  intro text root key value hroot hvalue
  have hproperty : 0 ∉ h264Property := by decide
  simp only [addressJansson] at hroot
  split at hroot
  · cases hroot
    simp only [jsonObjectGet, List.lookup_cons] at hvalue
    split at hvalue
    · cases hvalue
      exact h
    · split at hvalue
      · cases hvalue
        exact hproperty
      · cases hvalue
  · split at hroot
    · cases hroot
      simp only [jsonObjectGet, List.lookup_cons] at hvalue
      split at hvalue
      · cases hvalue
      · split at hvalue
        · cases hvalue
        · cases hvalue
    · cases hroot

theorem addressReply_accepts (h : 2 ≤ address.length) :
    Accepts (addressJansson address) (addressReply address) ⟨address, h264Property⟩ := by
  refine ⟨_, ⟨if_pos rfl, rfl, h⟩, rfl, ?_⟩
  refine ⟨.object [("audioCodeType", .integer 8), ("videoCodeType", .integer 98)], ?_, ⟨_, rfl⟩,
    _, rfl, by decide⟩
  simp only [addressJansson, if_neg (addressReply_ne address), if_true]

theorem addressReply_copiesFit (h : 2 ≤ address.length) (hfit : address.length < maxLen) :
    CopiesFit (addressJansson address) (addressReply address) := by
  intro root uri hplay
  obtain ⟨root', hplay', hprop', -⟩ := addressReply_accepts h
  obtain ⟨rfl, rfl⟩ := hplay'.unique hplay
  refine ⟨hfit, fun property hprop => ?_⟩
  cases hprop'.symm.trans hprop
  change h264Property.length < maxLen
  decide

/-- The reply is handed on as it is. -/
theorem addressReply_data (h : 0 ∉ address) (hfit : address.length < maxLen) :
    (okResponse (addressReply address)).data = some (addressReply address) := by
  have hmax : maxLen = 256 := rfl
  have hlen : (addressReply address).length = 74 + address.length := by
    rw [addressReply, List.length_append, List.length_append, Nat.add_right_comm]
    exact congrArg (· + address.length) (by decide)
  have hnul : 0 ∉ addressReply address := by
    have hfront : 0 ∉ ascii "\x7b\"playAddress\":\"" := by decide
    have hback : 0 ∉ ascii
        "\",\"property\":\"\x7b\\\"audioCodeType\\\":8,\\\"videoCodeType\\\":98\x7d\"\x7d" := by
      decide
    simp only [addressReply, List.mem_append, hfront, h, hback, or_self, not_false_eq_true]
  have hsize : CInt.ofSize (addressReply address).length = (addressReply address).length :=
    CInt.ofSize_of_lt (by omega)
  rw [okResponse, Reply.text, if_pos ⟨rfl, by omega⟩, hsize, Int.toNat_natCast, List.take_length,
    CString.text_eq hnul]

/-- Every step of a query succeeds. -/
def allGood : Outcomes := { noEventBase with hbase := true, made := some (.response 200 []) }

/-- No host and no port is configured. -/
def defaultIni : Ini where
  rtmpIp := none
  rtmpPort := none
  nul_free := nofun

/-- A query with these strings is sent. -/
theorem addressQuery_sent (address : List UInt8) :
    ∃ q http, streamUrlQuery (addressJansson address) ⟨ascii "127.0.0.1", 8114⟩ allGood
      13912345678 1 = some (q, some http) := ⟨_, _, rfl⟩

/-- A short address is published under the default host and port. -/
theorem address_survives_short :
    ∃ q http, streamUrlQuery (addressJansson (ascii "/live/1")) ⟨ascii "127.0.0.1", 8114⟩ allGood
        13912345678 1 = some (q, some http) ∧
      AddressSurvives (addressJansson (ascii "/live/1")) defaultIni 13912345678 1 q
        (addressReply (ascii "/live/1")) := by
  obtain ⟨q, http, hsent⟩ := addressQuery_sent (ascii "/live/1")
  refine ⟨q, http, hsent, ?_⟩
  refine (address_survives_iff (addressJansson_strings (by decide)) hsent _ _).mpr ?_
  intro text htext
  rw [addressReply_data (by decide) (by decide)] at htext
  cases htext
  refine ⟨addressReply_copiesFit (by decide) (by decide), fun rsp hacc => ?_⟩
  rw [(addressReply_accepts (by decide)).uri_unique hacc]
  decide

/-- An address that fits the reply record, but no URL with a host in front of it. -/
def longAddress : List UInt8 := 47 :: List.replicate 254 97

/-- A long address is cut off. -/
theorem address_cut_off :
    ¬ ∀ (jansson : Jansson), jansson.HandsOutStrings →
      ∀ (cfg : CacheNetworkConfig) (o : Outcomes) (sim : Nat) (channel : Int) (q : Query)
        (http : TimaHttp), streamUrlQuery jansson cfg o sim channel = some (q, some http) →
      ∀ (ini : Ini) (body : List UInt8), AddressSurvives jansson ini sim channel q body := by
  intro h
  have hlen : longAddress.length = 255 := by
    rw [longAddress, List.length_cons, List.length_replicate]
  have hnul : 0 ∉ longAddress := by
    rw [longAddress, List.mem_cons, List.mem_replicate]
    decide
  obtain ⟨q, http, hsent⟩ := addressQuery_sent longAddress
  obtain ⟨⟨thiz, hopen⟩, -⟩ := of_query hsent
  have hj := addressJansson_strings hnul
  have hsurvives := h _ hj _ _ _ _ _ _ hsent defaultIni (addressReply longAddress)
  have hdata := addressReply_data hnul (by rw [hlen]; decide)
  have hacc := addressReply_accepts (show 2 ≤ longAddress.length by rw [hlen]; decide)
  have hurl := (hsurvives.fits hj hopen hdata hacc).2
  simp only [hlen] at hurl
  omega

end VmpSa
