import VmpSa.Stream.Step

/-!
# The cursor and the data

Whether `nalu_read` keeps its cursor within the data, and what that means for
the offset that reaches `tima_buffer_align`, where it is subtracted from
`buffer_used` without a check.

It does unless the first start code it finds is a four-byte code that ends the
data.  A channel that never sees its data end with such a code never wraps.
-/

namespace VmpSa

/-- The read from `offset` ends within the data, and so does the NALU it
returns, which holds no start code. -/
def CursorSafe (buffer : List UInt8) (size offset : Nat) : Prop :=
  offset + (naluRead buffer size offset).1 ≤ size ∧
    (0 < (naluRead buffer size offset).1 → ∃ nalu, (naluRead buffer size offset).2 = some nalu ∧
      offset + nalu.naluLen ≤ size ∧ ¬ [0, 0, 1] <:+: naluBytes buffer nalu)

/-- The first start code from `offset` on is a four-byte one that ends the data. -/
def EndsOnFirstCode (data : List UInt8) (offset : Nat) : Prop :=
  EndsWithCode (data.drop offset) ∧
    ∀ p, offset ≤ p → p + 4 < data.length → findStartCode (data.drop p) = 0

variable {data t u : List UInt8} {offset : Nat}

theorem at_endCode : startCode.At [0, 0, 0, 1] := by decide

theorem cut_of_endsOnFirstCode (h : EndsOnFirstCode data offset) :
    ∃ t, startCode.cut (data.drop offset) = some (t, [0, 0, 0, 1]) := by
  obtain ⟨⟨t, ht⟩, hfirst⟩ := h
  refine ⟨t, ?_⟩
  have hlen := congrArg List.length ht
  rw [List.length_append, List.length_drop] at hlen
  have hdrop : (data.drop offset).drop t.length = [0, 0, 0, 1] := by rw [← ht, List.drop_left]
  have hleast : ∀ q, q < t.length → ¬ startCode.At ((data.drop offset).drop q) := by
    rintro q hq ⟨-, hne⟩
    rw [startCode_len, List.drop_drop] at hne
    refine hne (hfirst (offset + q) (Nat.le_add_right _ _) ?_)
    simp only [List.length_cons, List.length_nil] at hlen
    omega
  have hcut := Delimiter.cut_eq_some_of_least (by rw [hdrop]; exact at_endCode) hleast
  rwa [hdrop, ← ht, List.take_left, ht] at hcut

theorem endsOnFirstCode_of_cut (h : startCode.cut (data.drop offset) = some (t, [0, 0, 0, 1])) :
    EndsOnFirstCode data offset := by
  obtain ⟨hx, -⟩ := Delimiter.cut_some h
  have hlen := congrArg List.length hx
  rw [List.length_append, List.length_drop] at hlen
  refine ⟨⟨t, hx.symm⟩, fun p hp hlt => ?_⟩
  by_contra hne
  simp only [List.length_cons, List.length_nil] at hlen
  refine Delimiter.cut_first h (p - offset) (by omega) ⟨?_, ?_⟩
  · rw [List.length_drop, List.length_drop, startCode_window]
    omega
  · rwa [startCode_len, List.drop_drop, Nat.add_sub_cancel' hp]

/-- A token holds no start code. -/
theorem no_code_in_token {x : List UInt8} (h : startCode.cut x = some (t, u)) :
    ¬ [0, 0, 1] <:+: t := by
  rintro ⟨a, b, hab⟩
  obtain ⟨hx, hu⟩ := Delimiter.cut_some h
  have hu4 : 4 ≤ u.length := hu.1
  have hlen := congrArg List.length hab
  simp only [List.length_append, List.length_cons, List.length_nil] at hlen
  have hdrop : x.drop a.length = [0, 0, 1] ++ (b ++ u) := by
    rw [hx, ← hab, List.append_assoc, List.append_assoc, List.drop_left]
  refine Delimiter.cut_first h a.length (by omega) ⟨?_, ?_⟩
  · rw [hdrop, startCode_window]
    simp only [List.length_append, List.length_cons, List.length_nil]
    omega
  · rw [hdrop, startCode_len, findStartCode_append_code (Or.inl rfl)]
    decide

/-- The read keeps within the data unless the first code ends it. -/
theorem cursorSafe_iff (data rest : List UInt8) {offset : Nat} (hle : offset ≤ data.length) :
    CursorSafe (data ++ rest) data.length offset ↔ ¬ EndsOnFirstCode data offset := by
  have hin : data.length ≤ (data ++ rest).length := by
    rw [List.length_append]
    exact Nat.le_add_right _ _
  have hfrom : dataFrom (data ++ rest) data.length offset = data.drop offset := by
    rw [dataFrom, List.take_left]
  cases hc : startCode.cut (data.drop offset) with
  | none =>
      have hr := naluRead_none hin (by rw [hfrom, hc])
      refine ⟨fun _ hends => ?_, fun _ => ?_⟩
      · obtain ⟨t, ht⟩ := cut_of_endsOnFirstCode hends
        rw [hc] at ht
        cases ht
      · rw [CursorSafe, hr]
        exact ⟨hle, fun h0 => absurd h0 (Nat.lt_irrefl 0)⟩
  | some c =>
      obtain ⟨t, u⟩ := c
      have hc' : startCode.cut (dataFrom (data ++ rest) data.length offset) = some (t, u) := by
        rw [hfrom, hc]
      obtain ⟨hx, hu⟩ := Delimiter.cut_some hc
      have hlen := congrArg List.length hx
      rw [List.length_append, List.length_drop] at hlen
      have hu4 : 4 ≤ u.length := hu.1
      by_cases hnil : startCode.behind u = []
      · -- the cursor is moved past the end
        have hucode := eq_of_behind_nil hu hnil
        refine ⟨fun hsafe => ?_, fun hno => ?_⟩
        · have hend := hsafe.1
          rw [naluRead_at_end hin hc' hnil] at hend
          rw [hucode] at hlen
          simp only [List.length_cons, List.length_nil] at hlen hend
          omega
        · exact absurd (endsOnFirstCode_of_cut (by rw [hc, hucode])) hno
      · refine ⟨fun _ hends => ?_, fun _ => ?_⟩
        · obtain ⟨t', ht'⟩ := cut_of_endsOnFirstCode hends
          rw [hc] at ht'
          cases ht'
          exact hnil (by decide)
        · have hfour := findStartCode_le u
          rw [CursorSafe, naluRead_inside hin hc' hnil]
          refine ⟨by simp only; omega, fun _ => ⟨_, rfl, by simp only; omega, ?_⟩⟩
          have hbytes : naluBytes (data ++ rest)
              { naluLen := t.length, naluType := naluTypeOf t, naluData := offset } = t :=
            naluBytes_eq (by rw [hfrom, hx]) rfl
          rw [hbytes]
          exact no_code_in_token hc

/-! ## The offset that reaches the align -/

variable {node node' : StreamNode} {x : List UInt8} {call : Call}

/-- The data the call sees does not end with a four-byte start code. -/
def Clear (node : StreamNode) (call : Call) : Prop := ¬ EndsWithCode (dataSeen node call)

/-- A call on a started channel that has got to its end or to a failure has an
offset within the pending bytes. -/
theorem scan_within (hp : Pending node x) (hs : node.channel.started = true)
    (hc : Clear node call) {e : ScanEnd}
    (he : h264StreamScan call.alloc node call.body.bytes = some e) :
    ∃ node₁ y, Pending node₁ y ∧ node₁.channel.started = true ∧
      e.Within node₁.channel y.length := by
  obtain ⟨node₁, happ, hscan⟩ := Option.bind_eq_some_iff.mp he
  obtain ⟨y, hp₁, hseen, -, b, hb⟩ := append_pending hp happ
  have hs₁ : node₁.channel.started = true := by rw [hb, withBuffer_started, hs]
  refine ⟨node₁, y, hp₁, hs₁, ?_⟩
  rw [channelScan, if_pos hs₁, show timaBufferUsed node₁.channel.buffer = y.length from
    hp₁.holds.used] at hscan
  exact naluLoop_inside hp₁.holds.inUse (hseen ▸ hc) (Nat.zero_le _) hscan

/-- A started channel stays started and well formed, whatever the allocator does. -/
theorem feed_pending (hp : Pending node x) (hs : node.channel.started = true)
    (hc : Clear node call) (h : feed node call = some node') :
    node'.channel.started = true ∧ ∃ y, Pending node' y := by
  obtain ⟨⟨ret, node₂⟩, hproc, rfl⟩ := Option.map_eq_some_iff.mp h
  obtain ⟨e, he, hal⟩ := Option.bind_eq_some_iff.mp hproc
  obtain ⟨node₁, y, hp₁, hs₁, hw⟩ := scan_within hp hs hc he
  cases e with
  | failed node₃ =>
      cases hal
      exact ⟨by rw [hw, hs₁], y, hp₁.of_channel hw⟩
  | scanned node₃ pos =>
      obtain ⟨b, hb, hp₃⟩ := align_pending (hp₁.of_channel hw.1) hw.2
      rw [hb] at hal
      cases hal
      exact ⟨by rw [withBuffer_started, hw.1, hs₁], _, hp₃⟩

/-- The read keeps its cursor within the data exactly when the first start code
it meets does not end the data.  On a started channel that never sees its data
end with such a code, every offset handed to `tima_buffer_align` is at most
`buffer_used`. -/
theorem cursor_within_data (data rest : List UInt8) (offset : Nat) (hle : offset ≤ data.length)
    (calls : List Call) (call : Call) :
    (CursorSafe (data ++ rest) data.length offset ↔ ¬ EndsOnFirstCode data offset) ∧
    ∀ (node : StreamNode) (x : List UInt8), Pending node x → node.channel.started = true →
      System.Along feed Clear node (calls ++ [call]) →
      ∀ node₁, System.run feed node calls = some node₁ →
      ∀ node₂ pos, h264StreamScan call.alloc node₁ call.body.bytes = some (.scanned node₂ pos) →
        pos ≤ node₂.channel.buffer.bufferUsed := by
  refine ⟨cursorSafe_iff data rest hle, ?_⟩
  intro node x hp hs halong node₁ hrun node₂ pos hscan
  obtain ⟨hs₁, y, hp₁⟩ := System.run_keeps (P := Clear)
    (fun _ node => node.channel.started = true ∧ ∃ y, Pending node y)
    (fun _ _ _ _ hi hc h => feed_pending hi.2.choose_spec hi.1 hc h)
    ⟨hs, x, hp⟩ halong.left hrun
  obtain ⟨node₃, z, hp₃, -, hw⟩ := scan_within hp₁ hs₁ (halong.right hrun).head hscan
  rw [hw.1, hp₃.holds.used]
  exact hw.2

theorem cursor_within_data_small :
    CursorSafe ([0x41, 0, 0, 1, 0x42] ++ [0]) 5 0 ∧
      ∃ node₂ pos, h264StreamScan smallCall.alloc startedNode smallCall.body.bytes =
          some (.scanned node₂ pos) ∧ pos ≤ node₂.channel.buffer.bufferUsed := by
  obtain ⟨b, happ, hp₁, hseen⟩ := append_granted smallCall pending_startedNode
    (by decide) (fun _ => rfl)
  obtain ⟨node₂, -, -, hloop⟩ := naluLoop_spec
    (s := { pos := 0, node := startedNode.withBuffer b, packs := [], nodes := [] })
    hp₁.holds.inUse (by decide) (by decide) (started_startedNode.header.forBytes _ _)
    (fun _ h => by cases h) (Nat.zero_le _)
  have hscan : h264StreamScan smallCall.alloc startedNode smallCall.body.bytes =
      some (.scanned node₂ 4) := by
    rw [h264StreamScan, happ, Option.bind_some, channelScan, if_pos (by rfl),
      show timaBufferUsed (startedNode.withBuffer b).channel.buffer = _ from hp₁.holds.used]
    exact hloop.trans (by rw [if_pos (served_of_granted (fun _ h => by cases h) _)]; rfl)
  obtain ⟨hsafe, hrun⟩ :=
    cursor_within_data [0x41, 0, 0, 1, 0x42] [0] 0 (Nat.zero_le _) [] smallCall
  refine ⟨hsafe.mpr ?_, node₂, _, hscan,
    hrun startedNode [] pending_startedNode rfl ?_ _ rfl _ _ hscan⟩
  · exact fun h => absurd h.1 (by decide)
  · rw [List.nil_append, System.along_singleton, Clear, hseen]
    decide

/-- A start code and nothing behind it: the read returns eight of four bytes. -/
theorem lone_code_passes_end :
    naluRead ([0, 0, 0, 1] ++ []) 4 0 = (8, some { naluLen := 4, naluType := 0, naluData := 0 }) ∧
      ¬ CursorSafe ([0, 0, 0, 1] ++ []) 4 0 := by
  have hr : naluRead ([0, 0, 0, 1] ++ []) 4 0 =
      (8, some { naluLen := 4, naluType := 0, naluData := 0 }) :=
    naluRead_at_end (t := []) (u := [0, 0, 0, 1]) (by decide) (by decide) (by decide)
  refine ⟨hr, fun hsafe => ?_⟩
  have hend := hsafe.1
  rw [hr] at hend
  exact absurd hend (by decide)

end VmpSa
