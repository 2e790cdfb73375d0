import VmpSa.Lib.CString
import VmpSa.Lib.Memory

/-!
# The reply to a property query

`tima_get_property_callback` of `mw/http/tima_get_property.c` and the JSON it
reads.  The text of a JSON value is read by `jansson`, which stands here as a
parameter: `loads` is `json_loads` and `dumps` is `json_dumps`, each with no
result when it returns NULL.  `json_loads` of a NULL text returns NULL.

A `strcpy` into an array of `MAX_LEN` bytes has a result only when the string
fits, so the functions return an `Option`.

`Accepts` says which replies are good ones, in terms of the JSON values alone.
`jsonParse_spec` connects it with the code.
-/

namespace VmpSa

/-- A JSON value as `jansson` hands it out.  A string is the bytes in front of its
NUL. -/
inductive Json where
  | object (fields : List (String × Json))
  | string (value : List UInt8)
  | integer (value : Int)
  | other

/-- The two entry points of the JSON library. -/
structure Jansson where
  /-- `json_loads`. -/
  loads : List UInt8 → Option Json
  /-- `json_dumps`. -/
  dumps : Json → Option (List UInt8)

/-- `json_object_get`: NULL for a value that is no object. -/
def jsonObjectGet : Json → String → Option Json
  | .object fields, key => fields.lookup key
  | _, _ => none

/-- `json_string_value`: NULL for a value that is no string. -/
def jsonStringValue : Json → Option (List UInt8)
  | .string value => some value
  | _ => none

/-- `json_integer_value` stored in an `int`: `0` for a value that is no integer. -/
def jsonIntegerValue : Json → Int
  | .integer value => Int.bmod value (2 ^ 32)
  | _ => 0

/-- `MAX_LEN`. -/
def maxLen : Nat := 256

/-- `StreamCodecProperty`. -/
structure StreamCodecProperty where
  audioType : Int
  videoType : Int

/-- `TimaGetPropertyRsp`. -/
structure TimaGetPropertyRsp where
  uri : List UInt8
  property : List UInt8

/-- `TimaGetPropertyReq`, with whether `pfncb` is set. -/
structure TimaGetPropertyReq where
  sim : List UInt8
  ch : Int
  pfncb : Bool

/-- `PrivInfo` of the get-property node. -/
structure GetProperty where
  req : TimaGetPropertyReq
  rsp : TimaGetPropertyRsp
  codec : StreamCodecProperty
  postData : Option (List UInt8)

/-- `tima_json_property_parse`. -/
def timaJsonPropertyParse (jansson : Jansson) (thiz : GetProperty) (data : List UInt8) :
    Bool × GetProperty :=
  match jansson.loads data with
  | none => (false, thiz)
  | some root =>
      match jsonObjectGet root "audioCodeType" with
      | none => (false, thiz)
      | some audio =>
          let codec := { thiz.codec with audioType := jsonIntegerValue audio }
          match jsonObjectGet root "videoCodeType" with
          | none => (false, { thiz with codec := codec })
          | some video =>
              (true, { thiz with codec := { codec with videoType := jsonIntegerValue video } })

/-- The part of `tima_get_property_json_parse` that reads `property`. -/
def jsonParseProperty (jansson : Jansson) (root : Json) (thiz : GetProperty) :
    Option (Bool × GetProperty) :=
  match jsonObjectGet root "property" with
  | none => some (false, thiz)
  | some object =>
      match jsonStringValue object with
      | none => some (true, thiz)
      | some property =>
          match CString.strcpy maxLen property with
          | none => none
          | some copy => some (timaJsonPropertyParse jansson
              { thiz with rsp := { thiz.rsp with property := copy } } property)

/-- `tima_get_property_json_parse`. -/
def timaGetPropertyJsonParse (jansson : Jansson) (thiz : GetProperty) (data : Option (List UInt8)) :
    Option (Bool × GetProperty) :=
  match data.bind jansson.loads with
  | none => some (false, thiz)
  | some root =>
      match (jsonObjectGet root "playAddress").bind jsonStringValue with
      | none => some (false, thiz)
      | some playAddress =>
          if playAddress.length < 2 then some (false, thiz)
          else
            match CString.strcpy maxLen playAddress with
            | none => none
            | some uri =>
                jsonParseProperty jansson root { thiz with rsp := { thiz.rsp with uri := uri } }

/-- `TimaHttpRsp`. -/
structure TimaHttpRsp where
  status : Int
  data : Option (List UInt8)
  size : Int

/-- What the requester's callback is called with: `NODE_SUCCESS` and the reply, or
`NODE_FAIL` and NULL. -/
inductive NodeMsg where
  | success (rsp : TimaGetPropertyRsp)
  | fail

/-- One query: the get-property node until it is deleted, the calls of the
requester's callback, and how often the node was deleted. -/
structure Query where
  node : Option GetProperty
  answers : List NodeMsg
  deletes : Nat

/-- `tima_get_property_delete`.  A deleted node cannot be deleted again. -/
def timaGetPropertyDelete (q : Query) : Option Query :=
  match q.node with
  | none => none
  | some _ => some { q with node := none, deletes := q.deletes + 1 }

/-- `tima_get_property_callback`. -/
def timaGetPropertyCallback (jansson : Jansson) (rsp : TimaHttpRsp) (q : Query) : Option Query :=
  match q.node with
  | none => none
  | some thiz =>
      let parsed :=
        if rsp.status = 200 then
          (timaGetPropertyJsonParse jansson thiz rsp.data).map fun (ret, thiz) =>
            (ret && thiz.codec.videoType = 98, thiz)
        else some (false, thiz)
      match parsed with
      | none => none
      | some (ret, thiz) =>
          let msg := if ret then .success thiz.rsp else .fail
          timaGetPropertyDelete { q with
            node := some thiz
            answers := q.answers ++ if thiz.req.pfncb then [msg] else [] }

/-! ## Good replies -/

/-- The text is JSON whose root names a play address of two bytes or more. -/
structure PlayAddress (jansson : Jansson) (text : List UInt8) (root : Json) (uri : List UInt8) :
    Prop where
  root_eq : jansson.loads text = some root
  uri_eq : (jsonObjectGet root "playAddress").bind jsonStringValue = some uri
  two_le : 2 ≤ uri.length

/-- The root has a property string. -/
def PropertyString (root : Json) (property : List UInt8) : Prop :=
  (jsonObjectGet root "property").bind jsonStringValue = some property

/-- The property is JSON with both codec types, the video type being H.264. -/
def IsH264 (jansson : Jansson) (property : List UInt8) : Prop :=
  ∃ codec, jansson.loads property = some codec ∧
    (∃ audio, jsonObjectGet codec "audioCodeType" = some audio) ∧
    ∃ video, jsonObjectGet codec "videoCodeType" = some video ∧ jsonIntegerValue video = 98

/-- The text is a good reply. -/
def Accepts (jansson : Jansson) (text : List UInt8) (rsp : TimaGetPropertyRsp) : Prop :=
  ∃ root, PlayAddress jansson text root rsp.uri ∧ PropertyString root rsp.property ∧
    IsH264 jansson rsp.property

/-- The strings the parser copies out of the text fit their arrays. -/
def CopiesFit (jansson : Jansson) (text : List UInt8) : Prop :=
  ∀ root uri, PlayAddress jansson text root uri →
    uri.length < maxLen ∧ ∀ property, PropertyString root property → property.length < maxLen

variable {jansson : Jansson} {thiz : GetProperty} {text uri property : List UInt8} {root : Json}

theorem PlayAddress.unique {root' : Json} {uri' : List UInt8}
    (h : PlayAddress jansson text root uri) (h' : PlayAddress jansson text root' uri') :
    root' = root ∧ uri' = uri := by
  have hroot := h'.root_eq
  rw [h.root_eq] at hroot
  cases hroot
  have huri := h'.uri_eq
  rw [h.uri_eq] at huri
  cases huri
  exact ⟨rfl, rfl⟩

/-! ## The parser's verdict -/

/-- The callback takes the reply when the parser does and the video type is `98`
afterwards. -/
def Taken (parsed : Bool × GetProperty) : Prop :=
  parsed.1 = true ∧ parsed.2.codec.videoType = 98

instance (parsed : Bool × GetProperty) : Decidable (Taken parsed) :=
  inferInstanceAs (Decidable (_ ∧ _))

theorem timaJsonPropertyParse_keeps (jansson : Jansson) (thiz : GetProperty) (data : List UInt8) :
    (timaJsonPropertyParse jansson thiz data).2.req = thiz.req ∧
      (timaJsonPropertyParse jansson thiz data).2.rsp = thiz.rsp := by
  unfold timaJsonPropertyParse
  cases jansson.loads data with
  | none => exact ⟨rfl, rfl⟩
  | some root =>
      cases haudio : jsonObjectGet root "audioCodeType" with
      | none => simp [haudio]
      | some audio => cases hvideo : jsonObjectGet root "videoCodeType" <;> simp [haudio, hvideo]

theorem taken_propertyParse_iff (jansson : Jansson) (thiz : GetProperty) (data : List UInt8) :
    Taken (timaJsonPropertyParse jansson thiz data) ↔ IsH264 jansson data := by
  unfold Taken timaJsonPropertyParse IsH264
  cases jansson.loads data with
  | none => simp
  | some root =>
      cases haudio : jsonObjectGet root "audioCodeType" with
      | none => simp [haudio]
      | some audio => cases hvideo : jsonObjectGet root "videoCodeType" <;> simp [haudio, hvideo]

/-- Without a property string nothing is copied, and the reply is not taken. -/
theorem jsonParseProperty_missing (jansson : Jansson) (thiz : GetProperty)
    (h0 : thiz.codec.videoType ≠ 98) (hno : ∀ property, ¬ PropertyString root property) :
    ∃ ret, jsonParseProperty jansson root thiz = some (ret, thiz) ∧ ¬ Taken (ret, thiz) := by
  unfold jsonParseProperty
  cases hobj : jsonObjectGet root "property" with
  | none => exact ⟨false, rfl, fun h => h0 h.2⟩
  | some object =>
      cases hstr : jsonStringValue object with
      | none => exact ⟨true, by simp [hstr], fun h => h0 h.2⟩
      | some property => exact absurd (by simp [PropertyString, hobj, hstr]) (hno property)

theorem jsonParseProperty_string (hp : PropertyString root property) :
    jsonParseProperty jansson root thiz = (CString.strcpy maxLen property).map fun copy =>
      timaJsonPropertyParse jansson { thiz with rsp := { thiz.rsp with property := copy } }
        property := by
  obtain ⟨object, hobj, hstr⟩ := Option.bind_eq_some_iff.mp hp
  unfold jsonParseProperty
  simp only [hobj, hstr]
  cases CString.strcpy maxLen property <;> rfl

/-- Without a play address the text is refused before anything is copied. -/
theorem jsonParse_missing (hno : ∀ root uri, ¬ PlayAddress jansson text root uri) :
    timaGetPropertyJsonParse jansson thiz (some text) = some (false, thiz) := by
  unfold timaGetPropertyJsonParse
  cases hroot : jansson.loads text with
  | none => simp [hroot]
  | some root =>
      cases huri : (jsonObjectGet root "playAddress").bind jsonStringValue with
      | none => simp [hroot, huri]
      | some uri =>
          have hshort : uri.length < 2 := by
            by_contra hcon
            exact hno root uri ⟨hroot, huri, Nat.not_lt.mp hcon⟩
          simp [hroot, huri, hshort]

theorem jsonParse_playAddress (h : PlayAddress jansson text root uri) :
    timaGetPropertyJsonParse jansson thiz (some text) = (CString.strcpy maxLen uri).bind fun copy =>
      jsonParseProperty jansson root { thiz with rsp := { thiz.rsp with uri := copy } } := by
  have h2 := Nat.not_lt.mpr h.two_le
  simp only [timaGetPropertyJsonParse, Option.bind_some, h.root_eq, h.uri_eq, h2, if_false]
  cases CString.strcpy maxLen uri <;> rfl

/-- The verdict on a text whose strings fit. -/
theorem jsonParse_fits (h0 : thiz.codec.videoType ≠ 98) (hfit : CopiesFit jansson text) :
    ∃ parsed, timaGetPropertyJsonParse jansson thiz (some text) = some parsed ∧
      parsed.2.req = thiz.req ∧
      (Taken parsed ∧ Accepts jansson text parsed.2.rsp ∨
        ¬ Taken parsed ∧ ∀ rsp, ¬ Accepts jansson text rsp) := by
  by_cases hplay : ∃ root uri, PlayAddress jansson text root uri
  · obtain ⟨root, uri, hplay⟩ := hplay
    obtain ⟨huri, hprops⟩ := hfit root uri hplay
    rw [jsonParse_playAddress hplay, CString.strcpy_of_lt huri, Option.bind_some]
    by_cases hprop : ∃ property, PropertyString root property
    · obtain ⟨property, hprop⟩ := hprop
      rw [jsonParseProperty_string hprop, CString.strcpy_of_lt (hprops property hprop),
        Option.map_some]
      obtain ⟨hreq, hrsp⟩ := timaJsonPropertyParse_keeps jansson
        { thiz with rsp := { uri := uri, property := property } } property
      refine ⟨_, rfl, hreq, ?_⟩
      rw [taken_propertyParse_iff, hrsp]
      by_cases hcodec : IsH264 jansson property
      · exact Or.inl ⟨hcodec, root, hplay, hprop, hcodec⟩
      · refine Or.inr ⟨hcodec, ?_⟩
        rintro rsp ⟨root', hplay', hprop', hcodec'⟩
        obtain ⟨rfl, -⟩ := hplay.unique hplay'
        rw [PropertyString, hprop] at hprop'
        exact hcodec (Option.some.inj hprop' ▸ hcodec')
    · obtain ⟨ret, hparse, hnot⟩ := jsonParseProperty_missing jansson
        { thiz with rsp := { thiz.rsp with uri := uri } } h0 (not_exists.mp hprop)
      refine ⟨_, hparse, rfl, Or.inr ⟨hnot, ?_⟩⟩
      rintro rsp ⟨root', hplay', hprop', -⟩
      obtain ⟨rfl, -⟩ := hplay.unique hplay'
      exact hprop ⟨_, hprop'⟩
  · refine ⟨_, jsonParse_missing fun root uri h => hplay ⟨root, uri, h⟩, rfl,
      Or.inr ⟨fun h => h0 h.2, ?_⟩⟩
    rintro rsp ⟨root, h, -⟩
    exact hplay ⟨root, _, h⟩

/-- A text with a string that does not fit is written past its array. -/
theorem jsonParse_overflow (h : ¬ CopiesFit jansson text) :
    timaGetPropertyJsonParse jansson thiz (some text) = none := by
  by_contra hsome
  refine h fun root uri hplay => ?_
  rw [jsonParse_playAddress hplay] at hsome
  by_cases huri : uri.length < maxLen
  · refine ⟨huri, fun property hprop => ?_⟩
    by_contra hlong
    rw [CString.strcpy_of_lt huri, Option.bind_some, jsonParseProperty_string hprop,
      CString.strcpy_of_le (Nat.not_lt.mp hlong)] at hsome
    exact hsome rfl
  · rw [CString.strcpy_of_le (Nat.not_lt.mp huri)] at hsome
    exact absurd rfl hsome

/-! ## The callback -/

/-- The message a text calls for: success with what a good reply holds, and failure
without one. -/
def Verdict (jansson : Jansson) (text : Option (List UInt8)) (msg : NodeMsg) : Prop :=
  (∃ t rsp, text = some t ∧ Accepts jansson t rsp ∧ msg = .success rsp) ∨
    msg = .fail ∧ ∀ t rsp, text = some t → ¬ Accepts jansson t rsp

variable {rsp : TimaHttpRsp} {q : Query}

/-- A callback on a node that is there answers once, deletes the node once, and
answers what the text calls for. -/
theorem callback_spec (hn : q.node = some thiz) (hcb : thiz.req.pfncb = true)
    (h0 : thiz.codec.videoType ≠ 98)
    (hfit : rsp.status = 200 → ∀ text, rsp.data = some text → CopiesFit jansson text) :
    ∃ msg, timaGetPropertyCallback jansson rsp q = some
        { node := none, answers := q.answers ++ [msg], deletes := q.deletes + 1 } ∧
      Verdict jansson (if rsp.status = 200 then rsp.data else none) msg := by
  unfold timaGetPropertyCallback
  by_cases h200 : rsp.status = 200
  · cases hdata : rsp.data with
    | none =>
        refine ⟨.fail, ?_, Or.inr ⟨rfl, fun t _ ht => ?_⟩⟩
        · simp [hn, h200, timaGetPropertyJsonParse, hcb, timaGetPropertyDelete]
        · rw [if_pos h200] at ht
          cases ht
    | some text =>
        obtain ⟨parsed, hparse, hreq, hv⟩ := jsonParse_fits h0 (hfit h200 text hdata)
        rcases hv with ⟨htaken, hacc⟩ | ⟨htaken, hno⟩
        · refine ⟨.success parsed.2.rsp, ?_, Or.inl ⟨text, _, if_pos h200, hacc, rfl⟩⟩
          obtain ⟨hret, hvideo⟩ := htaken
          simp [hn, h200, hparse, hreq, hcb, hret, hvideo, timaGetPropertyDelete]
        · refine ⟨.fail, ?_, Or.inr ⟨rfl, fun t rsp ht => ?_⟩⟩
          · have hret : (parsed.1 && decide (parsed.2.codec.videoType = 98)) = false := by
              rw [← Bool.not_eq_true, Bool.and_eq_true, decide_eq_true_iff]
              exact htaken
            simp [hn, h200, hparse, hreq, hcb, hret, timaGetPropertyDelete]
          · rw [if_pos h200] at ht
            cases ht
            exact hno rsp
  · refine ⟨.fail, ?_, Or.inr ⟨rfl, fun t _ ht => ?_⟩⟩
    · simp [hn, h200, hcb, timaGetPropertyDelete]
    · rw [if_neg h200] at ht
      cases ht

theorem callback_overflow (h200 : rsp.status = 200) (hdata : rsp.data = some text)
    (h : ¬ CopiesFit jansson text) : timaGetPropertyCallback jansson rsp q = none := by
  unfold timaGetPropertyCallback
  cases q.node with
  | none => rfl
  | some thiz => simp only [h200, if_true, hdata, jsonParse_overflow h, Option.map_none]

end VmpSa
