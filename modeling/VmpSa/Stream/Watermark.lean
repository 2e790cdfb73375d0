import VmpSa.Stream.Headers

/-!
# The watermark of the socket

`stream_nalu_wmcnt` and `stream_set_wartermark` of `bll/bll_h264_stream.c`.  The
sizes of the first NALUs are added up in `wm_count`, and when they are large on
the average the socket is switched to reading in batches.  `wmark` is zero until
that is decided, then one or minus one, and two once the socket is switched.

The counter `wm_time` is incremented in the condition that ends the sampling.  So
four sizes are added up, and in the branch that decides, the same counter divides
their sum by five.  `Fair` says which sums lead to the same decision as the mean
of the four (`fair_iff`).

`h264_stream_proc` reports the size of each NALU it reads (`feed_reports`).  So the
watermark of a node goes through a run of such reports and inputs (`run_reports`).
-/

namespace VmpSa

/-! ## The code -/

/-- `stream_set_wartermark`. -/
def streamSetWartermark (node : StreamNode) : StreamNode :=
  if node.wmark = 1 then { node with wmark := 2 } else node

/-- What happens to the watermark of a node. -/
inductive WmarkAction where
  /-- A size is reported to `stream_nalu_wmcnt`. -/
  | nalu (size : Nat)
  /-- `stream_input_handler` calls `stream_set_wartermark`. -/
  | input
deriving Repr, DecidableEq

/-- The node after that. -/
def wmarkStep (node : StreamNode) : WmarkAction → Option StreamNode
  | .nalu size => some (streamNaluWmcnt node size)
  | .input => some (streamSetWartermark node)

/-! ## The decision -/

/-- The sizes reported. -/
def reported (as : List WmarkAction) : List Nat :=
  as.filterMap fun
    | .nalu size => some size
    | .input => none

/-- The integer mean. -/
def meanSize (sizes : List Nat) : Nat := sizes.sum / sizes.length

/-- The watermark that an action is to leave, given the actions before it: once four
sizes are accumulated, the next report decides by their mean; a decision for batches
is carried out by the next input; nothing else changes it. -/
def wmarkAfter (before : List WmarkAction) (wmark : Int) : WmarkAction → Int
  | .nalu _ =>
      if wmark = 0 ∧ 4 ≤ (reported before).length then
        if 8 * 2 ^ 10 < meanSize (reported before) then 1 else -1
      else wmark
  | .input => if wmark = 1 then 2 else wmark

/-- Every action of the run leaves the watermark it is to leave. -/
def FollowsMean (as : List WmarkAction) : Prop :=
  ∀ before a after, as = before ++ a :: after → ∀ s s',
    System.run wmarkStep StreamNode.init before = some s → wmarkStep s a = some s' →
      s'.wmark = wmarkAfter before s.wmark a

/-- The sum of four sizes exceeds the bound after division by five when it does so after
division by four. -/
def Fair (sum : Nat) : Prop := sum < 4 * 8193 ∨ 5 * 8193 ≤ sum % 2 ^ 64

instance (sum : Nat) : Decidable (Fair sum) := inferInstanceAs (Decidable (_ ∨ _))

theorem fair_iff (sum : Nat) :
    Fair sum ↔ (8 * 2 ^ 10 < sum % 2 ^ 64 / 5 ↔ 8 * 2 ^ 10 < sum / 4) := by
  unfold Fair
  omega

/-- Two decisions are the same. -/
theorem decision_eq_iff (p q : Prop) [Decidable p] [Decidable q] :
    (if p then (1 : Int) else -1) = (if q then 1 else -1) ↔ (p ↔ q) := by
  by_cases hp : p
  · by_cases hq : q <;> simp [hp, hq]
  · by_cases hq : q <;> simp [hp, hq]

/-! ## One action -/

/-- The watermark while `sizes` have been reported: the counters while it is open, and
that it is settled after the fifth report. -/
structure Sampled (sizes : List Nat) (s : StreamNode) : Prop where
  sampling : sizes.length ≤ 4 →
    s.wmark = 0 ∧ s.wmTime = sizes.length ∧ s.wmCount = sizes.sum % 2 ^ 64
  settled : 4 < sizes.length → s.wmark ≠ 0

variable {s : StreamNode} {sizes : List Nat}

theorem sampled_init : Sampled [] StreamNode.init where
  sampling := fun _ => ⟨rfl, rfl, rfl⟩
  settled := nofun

/-- A report while the sizes are sampled. -/
theorem wmcnt_sampling (h : Sampled sizes s) (hlt : sizes.length < 4) (size : Nat) :
    streamNaluWmcnt s size =
      { s with wmTime := s.wmTime + 1, wmCount := (s.wmCount + size) % 2 ^ 64 } := by
  obtain ⟨hmark, htime, -⟩ := h.sampling (by omega)
  rw [streamNaluWmcnt, if_neg (by simp [hmark]), if_pos (by omega)]

/-- The fifth report. -/
theorem wmark_decided (h : Sampled sizes s) (h4 : sizes.length = 4) (size : Nat) :
    (streamNaluWmcnt s size).wmark = if 8 * 2 ^ 10 < sizes.sum % 2 ^ 64 / 5 then 1 else -1 := by
  obtain ⟨hmark, htime, hcount⟩ := h.sampling (by omega)
  simp [streamNaluWmcnt, hmark, htime, hcount, h4]

theorem wmcnt_settled (h : s.wmark ≠ 0) (size : Nat) : streamNaluWmcnt s size = s := by
  rw [streamNaluWmcnt, if_pos h]

theorem Sampled.nalu (h : Sampled sizes s) (size : Nat) :
    Sampled (sizes ++ [size]) (streamNaluWmcnt s size) := by
  have hlen : (sizes ++ [size]).length = sizes.length + 1 := by simp
  rcases Nat.lt_trichotomy sizes.length 4 with hlt | heq | hgt
  · obtain ⟨hmark, htime, hcount⟩ := h.sampling (by omega)
    refine ⟨?_, fun hgt => by omega⟩
    intro _
    rw [wmcnt_sampling h hlt, hlen, List.sum_append, List.sum_singleton]
    refine ⟨hmark, ?_, ?_⟩
    · simp only [htime]
      omega
    · simp only [hcount]
      omega
  · refine ⟨fun hle => by omega, ?_⟩
    intro _
    rw [wmark_decided h heq]
    split <;> decide
  · have hmark := h.settled hgt
    rw [wmcnt_settled hmark]
    exact ⟨fun hle => by omega, fun _ => hmark⟩

theorem Sampled.input (h : Sampled sizes s) : Sampled sizes (streamSetWartermark s) := by
  unfold streamSetWartermark
  split
  next hone =>
    refine ⟨?_, fun _ => by simp⟩
    intro hle
    obtain ⟨hmark, -⟩ := h.sampling hle
    omega
  next => exact h

/-! ## Whole runs -/

theorem reported_append (as bs : List WmarkAction) :
    reported (as ++ bs) = reported as ++ reported bs := by
  simp [reported]

/-- The watermark of a node after a run. -/
theorem run_sampled (as : List WmarkAction) :
    ∃ s, System.run wmarkStep StreamNode.init as = some s ∧ Sampled (reported as) s := by
  refine System.run_reaches (fun as s => Sampled (reported as) s) ?_ sampled_init
    (System.along_true as)
  intro hist s a hi _
  cases a with
  | nalu size =>
      refine ⟨_, rfl, ?_⟩
      rw [reported_append]
      exact hi.nalu size
  | input =>
      refine ⟨_, rfl, ?_⟩
      rw [reported_append, show reported [.input] = [] from rfl, List.append_nil]
      exact hi.input

/-- The decision is the one to be made exactly when the sum is fair. -/
theorem wmark_decided_iff {before : List WmarkAction} (h : Sampled (reported before) s)
    (h4 : (reported before).length = 4) (size : Nat) :
    (streamNaluWmcnt s size).wmark = wmarkAfter before s.wmark (.nalu size) ↔
      Fair (reported before).sum := by
  obtain ⟨hmark, -⟩ := h.sampling (by omega)
  have hafter : wmarkAfter before s.wmark (.nalu size) =
      if 8 * 2 ^ 10 < (reported before).sum / 4 then 1 else -1 := by
    simp only [wmarkAfter, hmark, h4, meanSize, Nat.le_refl, and_self, if_true]
  rw [wmark_decided h h4, hafter, fair_iff, decision_eq_iff]

/-- What an action leaves and what it is to leave differ in the decision alone. -/
theorem wmarkStep_follows {before : List WmarkAction} {s' : StreamNode} {a : WmarkAction}
    (h : Sampled (reported before) s) (hs : wmarkStep s a = some s')
    (hfair : (reported before).length = 4 → (∃ size, a = .nalu size) →
      Fair (reported before).sum) : s'.wmark = wmarkAfter before s.wmark a := by
  cases a with
  | input =>
      cases hs
      simp only [streamSetWartermark, wmarkAfter]
      split
      · rfl
      · rfl
  | nalu size =>
      cases hs
      rcases Nat.lt_trichotomy (reported before).length 4 with hlt | heq | hgt
      · rw [wmcnt_sampling h hlt, wmarkAfter, if_neg (by omega)]
      · exact (wmark_decided_iff h heq size).mpr (hfair heq ⟨size, rfl⟩)
      · have hmark := h.settled hgt
        rw [wmcnt_settled hmark, wmarkAfter, if_neg (by simp [hmark])]

/-- The report that decides in a run with more than four. -/
theorem exists_decision : ∀ {as : List WmarkAction} {n : Nat}, n < (reported as).length →
    ∃ before size after, as = before ++ .nalu size :: after ∧ (reported before).length = n ∧
      reported before = (reported as).take n := by
  intro as
  induction as with
  | nil =>
      intro n hn
      cases hn
  | cons a as ih =>
      intro n hn
      cases a with
      | input =>
          obtain ⟨before, size, after, has, hlen, htake⟩ := ih (n := n) hn
          refine ⟨.input :: before, size, after, by rw [has, List.cons_append], hlen, htake⟩
      | nalu size₀ =>
          cases n with
          | zero => exact ⟨[], size₀, as, rfl, rfl, rfl⟩
          | succ n =>
              have hn' : n < (reported as).length := by simpa [reported] using hn
              obtain ⟨before, size, after, has, hlen, htake⟩ := ih hn'
              refine ⟨.nalu size₀ :: before, size, after, by rw [has, List.cons_append], ?_, ?_⟩
              · simpa [reported] using hlen
              · simpa [reported] using htake

/-- In a run on a fresh node the watermark follows the mean of the sizes accumulated,
exactly when no decision is made or the sum of the four sizes is a fair one. -/
theorem wmark_follows_mean_iff (as : List WmarkAction) :
    FollowsMean as ↔ (reported as).length ≤ 4 ∨ Fair ((reported as).take 4).sum := by
  constructor
  · intro h
    by_cases hlen : (reported as).length ≤ 4
    · exact Or.inl hlen
    · obtain ⟨before, size, after, has, hbefore, htake⟩ := exists_decision (Nat.not_le.mp hlen)
      obtain ⟨s, hrun, hs⟩ := run_sampled before
      have hlaw := h before (.nalu size) after has s _ hrun rfl
      rw [← htake]
      exact Or.inr ((wmark_decided_iff hs hbefore size).mp hlaw)
  · intro h before a after has s s' hrun hstep
    obtain ⟨s₁, hrun₁, hs₁⟩ := run_sampled before
    rw [hrun] at hrun₁
    cases hrun₁
    refine wmarkStep_follows hs₁ hstep ?_
    rintro hfour ⟨size, rfl⟩
    have hreported : reported as = reported before ++ size :: reported after := by
      rw [has, reported_append]
      rfl
    rcases h with hle | hfair
    · rw [hreported, List.length_append, List.length_cons] at hle
      omega
    · rwa [hreported, List.take_left' hfour] at hfair

/-- Four sizes of 9000 bytes: their mean is above 8192, and the node decides against
batches. -/
theorem wmark_misses_mean : ¬ ∀ as : List WmarkAction, FollowsMean as := by
  intro h
  have hlaw := h [.nalu 9000, .nalu 9000, .nalu 9000, .nalu 9000, .nalu 9000]
    [.nalu 9000, .nalu 9000, .nalu 9000, .nalu 9000] (.nalu 9000) [] rfl _ _ rfl rfl
  cases hlaw

/-! ## Who reports -/

/-- Two nodes with the same watermark fields. -/
structure SameWmark (n m : StreamNode) : Prop where
  wmark : n.wmark = m.wmark
  wmTime : n.wmTime = m.wmTime
  wmCount : n.wmCount = m.wmCount

theorem SameWmark.trans {n m k : StreamNode} (h : SameWmark n m) (h' : SameWmark m k) :
    SameWmark n k :=
  ⟨h.wmark.trans h'.wmark, h.wmTime.trans h'.wmTime, h.wmCount.trans h'.wmCount⟩

theorem SameWmark.nalu {n m : StreamNode} (h : SameWmark n m) (size : Nat) :
    SameWmark (streamNaluWmcnt n size) (streamNaluWmcnt m size) := by
  obtain ⟨hmark, htime, hcount⟩ := h
  simp only [streamNaluWmcnt, hmark, htime, hcount]
  split
  · exact ⟨hmark, htime, hcount⟩
  · split
    · exact ⟨rfl, rfl, rfl⟩
    · exact ⟨rfl, rfl, rfl⟩

/-- Between two nodes nothing but some reports happened to the watermark. -/
def Reports (node node' : StreamNode) : Prop :=
  ∃ sizes : List Nat, SameWmark node' (sizes.foldl streamNaluWmcnt node)

variable {node node' : StreamNode}

theorem Reports.of_same (h : SameWmark node' node) : Reports node node' := ⟨[], h⟩

theorem Reports.same {node'' : StreamNode} (h : Reports node node') (hs : SameWmark node'' node') :
    Reports node node'' := by
  obtain ⟨sizes, hsizes⟩ := h
  exact ⟨sizes, hs.trans hsizes⟩

theorem Reports.nalu (h : Reports node node') (size : Nat) :
    Reports node (streamNaluWmcnt node' size) := by
  obtain ⟨sizes, hsizes⟩ := h
  refine ⟨sizes ++ [size], ?_⟩
  rw [List.foldl_append]
  exact hsizes.nalu size

theorem queuePacket_wmark {pack : Bool → Option (Option RtmpPacket)} {s s' : ScanState}
    (h : queuePacket pack s = some (some s')) : SameWmark s'.node s.node := by
  unfold queuePacket at h
  split at h
  · cases h
  · cases h
  next pkt _ =>
    obtain ⟨node, hnode, heq⟩ := Option.map_eq_some_iff.mp h
    cases heq
    cases hp : pktNodeCreate (nextAnswer s.nodes) pkt 0 s.node.channel.id 0 with
    | none =>
        rw [hp] at hnode
        cases hnode
    | some n =>
        rw [hp] at hnode
        cases hnode
        exact ⟨rfl, rfl, rfl⟩

/-- A pass of the scan goes on or ends with a node that such reports lead to. -/
def ReportsPass (node : StreamNode) : Loop.Pass ScanState (Option ScanEnd) → Prop
  | .again s => Reports node s.node
  | .leave none => True
  | .leave (some (.failed node')) => Reports node node'
  | .leave (some (.scanned node' _)) => Reports node node'

theorem packNalu_reports (data : List UInt8) (nalu : H264Nalu) {s : ScanState}
    (h : Reports node s.node) : ReportsPass node (packNalu data nalu s) := by
  unfold packNalu
  split
  · trivial
  · exact h
  next s₁ hs₁ =>
    have h₁ : Reports node s₁.node := by
      split at hs₁
      · exact h.same (queuePacket_wmark hs₁)
      · cases hs₁
        exact h
    split
    · exact h₁
    · split
      · trivial
      · exact h₁
      next s₂ hs₂ => exact h₁.same (queuePacket_wmark hs₂)

theorem naluLoop_reports (data : List UInt8) (length : Nat) {s : ScanState} {e : ScanEnd}
    (h : Reports node s.node) (he : naluLoop data length s = some e) :
    ReportsPass node (.leave (some e)) := by
  have hpass : ∀ s : ScanState, Reports node s.node →
      ReportsPass node (naluPass data length s) := by
    intro s hs
    unfold naluPass
    split
    · exact hs
    next len nalu _ => exact packNalu_reports data nalu (hs.nalu nalu.naluLen)
  rw [← he]
  refine Loop.exec_rule (naluPass_decreases data length) (fun s => Reports node s.node)
    (fun r => ReportsPass node (.leave r)) ?_ ?_ s h
  · intro s₁ s₂ h₁ hs₂
    have hnext := hpass s₁ h₁
    rwa [hs₂] at hnext
  · intro s₁ r h₁ hr
    have hlast := hpass s₁ h₁
    rwa [hr] at hlast

theorem channelScan_reports {alloc : Alloc} {e : ScanEnd} (h : Reports node node')
    (he : channelScan alloc node' = some e) : ReportsPass node (.leave (some e)) := by
  simp only [channelScan] at he
  split at he
  · exact naluLoop_reports _ _ h he
  · split at he
    · cases he
    · split at he
      · cases he
        exact h.same ⟨rfl, rfl, rfl⟩
      · split at he
        · cases he
        · cases he
          exact h.same ⟨rfl, rfl, rfl⟩
        next s₁ hs₁ =>
          obtain ⟨hmark, htime, hcount⟩ := queuePacket_wmark hs₁
          exact naluLoop_reports _ _ (h.same ⟨hmark, htime, hcount⟩) he

/-- A call of `h264_stream_proc` does nothing to the watermark but report sizes. -/
theorem feed_reports {call : Call} (h : feed node call = some node') : Reports node node' := by
  obtain ⟨b, e, ret, -, hscan, halign⟩ := feed_parts h
  have happended : Reports node (node.withBuffer b) := Reports.of_same ⟨rfl, rfl, rfl⟩
  have hreports := channelScan_reports happended hscan
  cases e with
  | failed node₁ =>
      cases halign
      exact hreports
  | scanned node₁ pos =>
      obtain ⟨buffer, -, heq⟩ := Option.map_eq_some_iff.mp halign
      cases heq
      exact Reports.same hreports ⟨rfl, rfl, rfl⟩

/-- What the input handler does with a node. -/
inductive NodeAction where
  /-- A body is handed to `h264_stream_proc`. -/
  | body (call : Call)
  /-- `stream_set_wartermark` is called. -/
  | input

/-- The node after that. -/
def nodeStep (node : StreamNode) : NodeAction → Option StreamNode
  | .body call => feed node call
  | .input => some (streamSetWartermark node)

theorem SameWmark.input {n m : StreamNode} (h : SameWmark n m) :
    SameWmark (streamSetWartermark n) (streamSetWartermark m) := by
  obtain ⟨hmark, htime, hcount⟩ := h
  simp only [streamSetWartermark, hmark]
  split
  · exact ⟨rfl, htime, hcount⟩
  · exact ⟨hmark, htime, hcount⟩

theorem SameWmark.foldl {n m : StreamNode} (h : SameWmark n m) (sizes : List Nat) :
    SameWmark (sizes.foldl streamNaluWmcnt n) (sizes.foldl streamNaluWmcnt m) := by
  induction sizes generalizing n m with
  | nil => exact h
  | cons size sizes ih => exact ih (h.nalu size)

theorem run_nalus (sizes : List Nat) (node : StreamNode) :
    System.run wmarkStep node (sizes.map .nalu) = some (sizes.foldl streamNaluWmcnt node) := by
  induction sizes generalizing node with
  | nil => rfl
  | cons size sizes ih =>
      have hstep : wmarkStep node (.nalu size) = some (streamNaluWmcnt node size) := rfl
      rw [List.map_cons, System.run_cons hstep, ih]
      rfl

/-- A run of the handler takes the watermark through some run of reports and inputs. -/
theorem run_reports {as : List NodeAction} (h : System.run nodeStep node as = some node') :
    ∃ ws m, System.run wmarkStep node ws = some m ∧ SameWmark node' m := by
  refine System.run_inv (fun node' => ∃ ws m, System.run wmarkStep node ws = some m ∧
    SameWmark node' m) ?_ ⟨[], node, rfl, rfl, rfl, rfl⟩ h
  rintro node₁ action node₂ ⟨ws, m, hrun, hsame⟩ hstep
  cases action with
  | body call =>
      obtain ⟨sizes, hsizes⟩ := feed_reports hstep
      refine ⟨ws ++ sizes.map .nalu, sizes.foldl streamNaluWmcnt m, ?_,
        hsizes.trans (hsame.foldl sizes)⟩
      rw [System.run_append hrun, run_nalus]
  | input =>
      cases hstep
      have hinput : wmarkStep m .input = some (streamSetWartermark m) := rfl
      refine ⟨ws ++ [.input], streamSetWartermark m, ?_, hsame.input⟩
      rw [System.run_append hrun, System.run_cons hinput, System.run_nil]

end VmpSa
