import VmpSa.Event.Chains

/-!
# The input buffer of a connection

The functions of `common/libevent/buffer.c` that the server calls on an `evbuffer`, or has
`libevent` call: `evbuffer_add`, `evbuffer_read`, `evbuffer_copyout`, `evbuffer_drain`,
`evbuffer_remove` and `evbuffer_freeze`.

An `evbuffer` has its chains in a list, of which `first`, `last` and `last_with_datap` are
three places.  `last_with_datap` points to a link, `first` or the `next` of a chain, and
stands here for the place of the chain behind that link.  A write to a link cuts off what
was linked there.

What an `evbuffer` is for is a string of bytes that is read at the front and added to at
the end (`Bytes`), and `evbuffer_refines_bytes` says that it is one, whatever calls it has
seen and whichever of their allocations and reads have failed.
-/

namespace VmpSa.Event

/-! ## The model -/

/-- `struct evbuffer`.  The sum of the lengths of the chains does not wrap, as the chains
lie in one memory. -/
structure Evbuffer where
  chains : List Chain
  last : Option Nat
  lastWithDatap : Nat
  totalLen : Nat
  freezeStart : Bool
  freezeEnd : Bool
deriving Repr, DecidableEq

/-- `EV_SIZE_MAX` -/
def evSizeMax : Nat := 18446744073709551615

/-- `EVBUFFER_CHAIN_MAX_AUTO_SIZE` -/
def evbufferChainMaxAutoSize : Nat := 4096

/-- `EVBUFFER_MAX_READ` -/
def evbufferMaxRead : Nat := 4096

/-- `NUM_READ_IOVEC` -/
def numReadIovec : Nat := 4

def evbufferNew : Evbuffer where
  chains := []
  last := none
  lastWithDatap := 0
  totalLen := 0
  freezeStart := false
  freezeEnd := false

/-- `evbuffer_get_length` -/
def evbufferGetLength (buf : Evbuffer) : Nat := buf.totalLen

/-- `evbuffer_freeze` and, with `false`, `evbuffer_unfreeze` -/
def evbufferFreeze (buf : Evbuffer) (start on : Bool) : Evbuffer :=
  if start then { buf with freezeStart := on } else { buf with freezeEnd := on }

/-- `evbuffer_free_trailing_empty_chains`: the place of the link that is cut. -/
def freeTrailingEmptyChains (buf : Evbuffer) : Option Nat :=
  let ch := buf.lastWithDatap +
    ((buf.chains.drop buf.lastWithDatap).takeWhile fun c => c.off ≠ 0).length
  if (buf.chains.drop ch).all fun c => c.off = 0 then some ch else none

/-- `evbuffer_chain_insert` -/
def evbufferChainInsert (buf : Evbuffer) (chain : Chain) : Option Evbuffer :=
  match buf.chains[buf.lastWithDatap]? with
  | none =>
      if buf.lastWithDatap = 0 ∧ buf.chains = [] then
        some { buf with
          chains := [chain]
          last := some 0
          totalLen := buf.totalLen + chain.off }
      else none
  | some _ =>
      (freeTrailingEmptyChains buf).map fun chp =>
        { buf with
          chains := buf.chains.take chp ++ [chain]
          lastWithDatap := if chain.off ≠ 0 then chp else buf.lastWithDatap
          last := some chp
          totalLen := buf.totalLen + chain.off }

/-- `evbuffer_add` behind the choice of `chain`, which is in the place `i`. -/
def evbufferAddAt (buf : Evbuffer) (i : Nat) (data : List UInt8) (malloc : Bool) :
    Option (Int × Evbuffer) :=
  match buf.chains[i]? with
  | none => none
  | some chain =>
      let remain := chain.spaceLen
      if data.length ≤ remain then
        (chain.add data).map fun chain =>
          (0, { buf with
            chains := buf.chains.set i chain
            totalLen := buf.totalLen + data.length })
      else if chain.shouldRealign data.length then
        (chain.align).bind fun chain =>
        (chain.add data).map fun chain =>
          (0, { buf with
            chains := buf.chains.set i chain
            totalLen := buf.totalLen + data.length })
      else
        let toAlloc := chain.buffer.length
        let toAlloc := if toAlloc ≤ evbufferChainMaxAutoSize / 2 then 2 * toAlloc else toAlloc
        let toAlloc := if toAlloc < data.length then data.length else toAlloc
        match evbufferChainNew malloc toAlloc with
        | none => some (-1, buf)
        | some tmp =>
            (chain.add (data.take remain)).bind fun chain =>
            (tmp.add (data.drop remain)).bind fun tmp =>
            (evbufferChainInsert { buf with
              chains := buf.chains.set i chain
              totalLen := buf.totalLen + remain } tmp).map fun buf => (0, buf)

/-- `evbuffer_add` -/
def evbufferAdd (buf : Evbuffer) (data : List UInt8) (malloc : Bool) : Option (Int × Evbuffer) :=
  if buf.freezeEnd then some (-1, buf)
  else if data.length > evSizeMax - buf.totalLen then some (-1, buf)
  else
    match (if buf.lastWithDatap < buf.chains.length then some buf.lastWithDatap else buf.last) with
    | some i => evbufferAddAt buf i data malloc
    | none =>
        match evbufferChainNew malloc data.length with
        | none => some (-1, buf)
        | some chain =>
            (evbufferChainInsert buf chain).bind fun buf =>
            buf.last.bind fun i => evbufferAddAt buf i data malloc

/-- `evbuffer_copyout`: the result and the bytes copied. -/
def evbufferCopyout (buf : Evbuffer) (datlen : Nat) : Option (Int × List UInt8) :=
  let datlen := min datlen buf.totalLen
  if datlen = 0 then some (0, [])
  else if buf.freezeStart then some (-1, [])
  else (copyChains buf.chains datlen).map fun x => ((datlen : Int), x)

/-- `evbuffer_drain` -/
def evbufferDrain (buf : Evbuffer) (len : Nat) : Option (Int × Evbuffer) :=
  if buf.totalLen = 0 then some (0, buf)
  else if buf.freezeStart then some (-1, buf)
  else if buf.totalLen ≤ len then
    some (0, { buf with chains := [], last := none, lastWithDatap := 0, totalLen := 0 })
  else
    (dropChains buf.chains 0 buf.lastWithDatap len).map fun r =>
      -- the chains in front of the place `r.2.1` are freed
      (0, { buf with
        chains := r.1
        last := buf.last.map fun i => i - r.2.1
        lastWithDatap := r.2.2 - r.2.1
        totalLen := buf.totalLen - len })

/-- `evbuffer_remove`: the result, the bytes copied and the buffer. -/
def evbufferRemove (buf : Evbuffer) (datlen : Nat) : Option (Int × List UInt8 × Evbuffer) :=
  (evbufferCopyout buf datlen).bind fun r =>
    if r.1 > 0 then
      (evbufferDrain buf r.1.toNat).map fun d =>
        if d.1 < 0 then (-1, r.2, d.2) else (CInt.ofSize r.1.toNat, r.2, d.2)
    else some (r.1, r.2, buf)

/-- The last part of `evbuffer_expand_fast_`: the empty chains are freed. -/
def evbufferReplaceEmpty (buf : Evbuffer) (datlen : Nat) (malloc : Bool) :
    Option (Int × Evbuffer) :=
  match buf.chains[buf.lastWithDatap]? with
  | none => none
  | some chain =>
      let rmvAll : Bool := chain.off = 0
      let avail := if rmvAll then 0 else chain.spaceLen
      if (rmvAll ∧ buf.lastWithDatap ≠ 0) ∨
          ¬ ((buf.chains.drop (buf.lastWithDatap + 1)).all fun c => c.off = 0) ∨ datlen < avail then
        none
      else
        match evbufferChainNew malloc (datlen - avail) with
        | none =>
            if rmvAll then
              some (-1, { buf with chains := [], last := none, lastWithDatap := 0, totalLen := 0 })
            else
              some (-1, { buf with
                chains := buf.chains.take (buf.lastWithDatap + 1)
                last := some buf.lastWithDatap })
        | some tmp =>
            if rmvAll then
              some (0, { buf with chains := [tmp], last := some 0, lastWithDatap := 0 })
            else
              some (0, { buf with
                chains := buf.chains.take (buf.lastWithDatap + 1) ++ [tmp]
                last := some (buf.lastWithDatap + 1) })

/-- `evbuffer_expand_fast_` -/
def evbufferExpandFast (buf : Evbuffer) (datlen n : Nat) (malloc : Bool) :
    Option (Int × Evbuffer) :=
  match buf.last with
  | none =>
      match evbufferChainNew malloc datlen with
      | none => some (-1, buf)
      | some chain => (evbufferChainInsert buf chain).map fun buf => (0, buf)
  | some last =>
      (survey datlen n true (buf.chains.drop buf.lastWithDatap) 0 0).bind fun s =>
        let buf := { buf with chains := buf.chains.take buf.lastWithDatap ++ s.chains }
        if s.enough then some (0, buf)
        else if s.used < n then
          match evbufferChainNew malloc (datlen - s.avail) with
          | none => some (-1, buf)
          | some tmp =>
              some (0, { buf with
                chains := buf.chains.take (last + 1) ++ [tmp]
                last := some (last + 1) })
        else evbufferReplaceEmpty buf datlen malloc

/-- `evbuffer_read` behind the expansion.  `socket` is what `readv` finds, with no result
when it fails. -/
def evbufferReadInto (buf : Evbuffer) (howmuch : Nat) (socket : Option (List UInt8)) :
    Option (Int × Evbuffer) :=
  match buf.chains[buf.lastWithDatap]? with
  | none => none
  | some chain =>
      let chainp := if chain.spaceLen = 0 then buf.lastWithDatap + 1 else buf.lastWithDatap
      (setupVecs numReadIovec (buf.chains.drop chainp) howmuch).bind fun vecs =>
        match socket with
        | none => some (-1, buf)
        | some data =>
            let x := data.take vecs.sum
            if x = [] then some (0, buf)
            else
              (scatter vecs (buf.chains.drop chainp) x).bind fun chains =>
              (commit vecs.length chains x.length chainp).map fun r =>
                ((x.length : Int), { buf with
                  chains := buf.chains.take chainp ++ r.1
                  lastWithDatap := r.2.getD buf.lastWithDatap
                  totalLen := buf.totalLen + x.length })

/-- How many bytes `evbuffer_read` makes room for, given what `FIONREAD` says. -/
def readSize (readable howmuch : Int) : Nat :=
  let n := if readable ≤ 0 ∨ readable > evbufferMaxRead then (evbufferMaxRead : Int) else readable
  (if howmuch < 0 ∨ howmuch > n then n else howmuch).toNat

/-- `evbuffer_read` -/
def evbufferRead (buf : Evbuffer) (readable howmuch : Int) (socket : Option (List UInt8))
    (malloc : Bool) : Option (Int × Evbuffer) :=
  if buf.freezeEnd then some (-1, buf)
  else
    (evbufferExpandFast buf (readSize readable howmuch) numReadIovec malloc).bind fun r =>
      if r.1 = -1 then some (-1, r.2)
      else evbufferReadInto r.2 (readSize readable howmuch) socket

/-- A call. -/
inductive EvbufferCall where
  | add (data : List UInt8) (malloc : Bool)
  | read (readable howmuch : Int) (socket : Option (List UInt8)) (malloc : Bool)
  | copyout (datlen : Nat)
  | remove (datlen : Nat)
  | drain (len : Nat)
  | freeze (start on : Bool)

/-- What a call returns, with the bytes it copies out. -/
abbrev Answer := Int × List UInt8

def Evbuffer.call (buf : Evbuffer) : EvbufferCall → Option (Answer × Evbuffer)
  | .add data malloc => (evbufferAdd buf data malloc).map fun r => ((r.1, []), r.2)
  | .read readable howmuch socket malloc =>
      (evbufferRead buf readable howmuch socket malloc).map fun r => ((r.1, []), r.2)
  | .copyout datlen => (evbufferCopyout buf datlen).map fun r => (r, buf)
  | .remove datlen => (evbufferRemove buf datlen).map fun r => ((r.1, r.2.1), r.2.2)
  | .drain len => (evbufferDrain buf len).map fun r => ((r.1, []), r.2)
  | .freeze start on => some ((0, []), evbufferFreeze buf start on)

/-- The calls one after the other, with all their answers. -/
def Evbuffer.calls (buf : Evbuffer) : List EvbufferCall → Option (List Answer × Evbuffer)
  | [] => some ([], buf)
  | c :: cs =>
      (buf.call c).bind fun r =>
      (r.2.calls cs).map fun rs => (r.1 :: rs.1, rs.2)

/-! ## A string of bytes -/

/-- What an `evbuffer` is for. -/
structure Bytes where
  contents : List UInt8
  freezeStart : Bool
  freezeEnd : Bool

def Bytes.empty : Bytes where
  contents := []
  freezeStart := false
  freezeEnd := false

namespace Bytes

/-- With some bytes more. -/
def append (s : Bytes) (x : List UInt8) : Bytes := { s with contents := s.contents ++ x }

/-- The first bytes. -/
def copyout (s : Bytes) (n : Nat) : Answer :=
  if s.contents.take n = [] then (0, [])
  else if s.freezeStart then (-1, [])
  else ((s.contents.take n).length, s.contents.take n)

/-- Without the first bytes, unless the front is frozen. -/
def drop (s : Bytes) (n : Nat) : Bytes :=
  if s.freezeStart then s else { s with contents := s.contents.drop n }

def freeze (s : Bytes) (start on : Bool) : Bytes :=
  if start then { s with freezeStart := on } else { s with freezeEnd := on }

/-- What a call may answer and leave.  A call that adds bytes may fail when the end is
frozen, when the allocator refuses, when the read fails, or when there is no such
allocation; then nothing has changed. -/
def Allows (s : Bytes) : EvbufferCall → Answer → Bytes → Prop
  | .add data malloc, r, s' =>
      s.freezeEnd = false ∧ r = (0, []) ∧ s' = s.append data ∨
        (s.freezeEnd = true ∨ malloc = false ∨
          evbufferChainMax - evbufferChainSize < data.length ∨
          evSizeMax < s.contents.length + data.length) ∧ r = (-1, []) ∧ s' = s
  | .read readable howmuch socket malloc, r, s' =>
      (s.freezeEnd = false ∧ ∃ data, socket = some data ∧
        r = (((data.take (readSize readable howmuch)).length : Int), []) ∧
        s' = s.append (data.take (readSize readable howmuch))) ∨
        (s.freezeEnd = true ∨ malloc = false ∨ socket = none) ∧ r = (-1, []) ∧ s' = s
  | .copyout datlen, r, s' => r = s.copyout datlen ∧ s' = s
  | .remove datlen, r, s' =>
      r = (if 0 < (s.copyout datlen).1 then CInt.ofSize (s.copyout datlen).2.length
        else (s.copyout datlen).1, (s.copyout datlen).2) ∧ s' = s.drop datlen
  | .drain len, r, s' =>
      r = (if s.contents ≠ [] ∧ s.freezeStart then -1 else 0, []) ∧ s' = s.drop len
  | .freeze start on, r, s' => r = (0, []) ∧ s' = s.freeze start on

/-- The calls one after the other. -/
def AllowsAll (s : Bytes) : List EvbufferCall → List Answer → Bytes → Prop
  | [], [], s' => s' = s
  | c :: cs, r :: rs, s' => ∃ s₁, s.Allows c r s₁ ∧ s₁.AllowsAll cs rs s'
  | _, _, _ => False

end Bytes

/-! ## Soundness -/

/-- The buffer has chains, and `c` is the one of `last_with_datap`.  Behind it there is no
data, and it is empty itself only when it is the first one. -/
structure Evbuffer.At (buf : Evbuffer) (front : List Chain) (c : Chain) (back : List Chain) :
    Prop where
  chains : buf.chains = front ++ c :: back
  last : buf.last = some (front.length + back.length)
  lastWithDatap : buf.lastWithDatap = front.length
  back_empty : ∀ d ∈ back, d.off = 0
  first : c.off = 0 → front = []

/-- What every call keeps. -/
structure Evbuffer.Sound (buf : Evbuffer) : Prop where
  placed : buf.chains = [] ∧ buf.last = none ∧ buf.lastWithDatap = 0 ∨
    ∃ front c back, buf.At front c back
  fits : ∀ c ∈ buf.chains, c.Fits
  total : buf.totalLen = (dataOf buf.chains).length

/-- The buffer holds the string of bytes. -/
structure Evbuffer.Holds (buf : Evbuffer) (s : Bytes) : Prop where
  sound : buf.Sound
  contents : dataOf buf.chains = s.contents
  freezeStart : buf.freezeStart = s.freezeStart
  freezeEnd : buf.freezeEnd = s.freezeEnd

variable {buf buf' : Evbuffer} {s : Bytes} {c c' chain : Chain} {front back : List Chain}
  {data x : List UInt8} {malloc : Bool} {n datlen : Nat}

theorem holds_new : evbufferNew.Holds .empty where
  sound := ⟨.inl ⟨rfl, rfl, rfl⟩, fun _ h => absurd h List.not_mem_nil, rfl⟩
  contents := rfl
  freezeStart := rfl
  freezeEnd := rfl

theorem getElem?_middle (front : List Chain) (c : Chain) (back : List Chain) :
    (front ++ c :: back)[front.length]? = some c := by
  simp

theorem set_middle (front : List Chain) (c c' : Chain) (back : List Chain) :
    (front ++ c :: back).set front.length c' = front ++ c' :: back := by
  simp

theorem takeWhile_empty {cs : List Chain} (h : ∀ d ∈ cs, d.off = 0) :
    (cs.takeWhile fun c => c.off ≠ 0) = [] := by
  cases cs with
  | nil => rfl
  | cons c cs => simp [h c List.mem_cons_self]

/-- The data ends with the chain of `last_with_datap`. -/
theorem Evbuffer.At.dataOf_eq (h : buf.At front c back) :
    dataOf buf.chains = dataOf front ++ c.data := by
  rw [h.chains, dataOf_append, dataOf_cons, dataOf_of_empty h.back_empty, List.append_nil]

theorem Evbuffer.At.fits (h : buf.At front c back) (hsound : buf.Sound) :
    (∀ d ∈ front, d.Fits) ∧ c.Fits ∧ ∀ d ∈ back, d.Fits := by
  have hfits := hsound.fits
  rw [h.chains] at hfits
  exact ⟨fun d hd => hfits d (List.mem_append_left _ hd),
    hfits c (List.mem_append_right _ List.mem_cons_self),
    fun d hd => hfits d (List.mem_append_right _ (List.mem_cons_of_mem c hd))⟩

/-- A buffer with chains is sound when these are. -/
theorem Evbuffer.At.sound (h : buf.At front c back) (hfront : ∀ d ∈ front, d.Fits) (hc : c.Fits)
    (hback : ∀ d ∈ back, d.Fits) (htotal : buf.totalLen = (dataOf front ++ c.data).length) :
    buf.Sound := by
  refine ⟨.inr ⟨front, c, back, h⟩, ?_, by rw [htotal, h.dataOf_eq]⟩
  rw [h.chains]
  intro d hd
  rcases List.mem_append.mp hd with hd | hd
  · exact hfront d hd
  · rcases List.mem_cons.mp hd with rfl | hd
    · exact hc
    · exact hback d hd

/-- The chain of `last_with_datap` may get more data. -/
theorem Evbuffer.At.set (h : buf.At front c back) (hsound : buf.Sound) (hc : c'.Fits)
    (hdata : c'.data = c.data ++ x) {buf' : Evbuffer}
    (hbuf : buf' = { buf with
      chains := buf.chains.set front.length c'
      totalLen := buf.totalLen + x.length }) :
    buf'.At front c' back ∧ buf'.Sound ∧ dataOf buf'.chains = dataOf buf.chains ++ x := by
  obtain ⟨hfitsFront, hfitsC, hfitsBack⟩ := h.fits hsound
  have hat : buf'.At front c' back := by
    subst hbuf
    refine ⟨by rw [h.chains, set_middle], h.last, h.lastWithDatap, h.back_empty, fun h0 => ?_⟩
    have hnil := Chain.data_of_empty h0
    rw [hdata] at hnil
    rw [List.append_eq_nil_iff] at hnil
    exact h.first (by rw [← hfitsC.length_data, hnil.1, List.length_nil])
  have hall : dataOf buf'.chains = dataOf buf.chains ++ x := by
    rw [hat.dataOf_eq, h.dataOf_eq, hdata, List.append_assoc]
  have htotal : buf'.totalLen = buf.totalLen + x.length := by rw [hbuf]
  refine ⟨hat, hat.sound hfitsFront hc hfitsBack ?_, hall⟩
  rw [htotal, hsound.total, ← hat.dataOf_eq, hall, List.length_append]

/-! ## Adding -/

/-- The chains behind the data are cut off. -/
theorem Evbuffer.At.freeTrailingEmptyChains (h : buf.At front c back) :
    freeTrailingEmptyChains buf =
      some (if c.off = 0 then front.length else front.length + 1) := by
  have hback := h.back_empty
  have hall : (back.all fun c => c.off = 0) = true := by simpa using hback
  rw [Event.freeTrailingEmptyChains, h.chains, h.lastWithDatap, List.drop_left]
  by_cases hoff : c.off = 0
  · simp [hoff, hall]
  · have htake : ((c :: back).takeWhile fun c => c.off ≠ 0) = [c] := by
      rw [List.takeWhile_cons_of_pos (by simpa using hoff), takeWhile_empty hback]
    rw [htake, if_neg hoff, List.length_singleton, ← List.drop_drop, List.drop_left]
    simp only [List.drop_succ_cons, List.drop_zero, hall, if_true]

/-- What a call that adds `x` does to the buffer. -/
structure Evbuffer.Grows (buf buf' : Evbuffer) (x : List UInt8) : Prop where
  sound : buf'.Sound
  data : dataOf buf'.chains = dataOf buf.chains ++ x
  freezeStart : buf'.freezeStart = buf.freezeStart
  freezeEnd : buf'.freezeEnd = buf.freezeEnd

theorem Evbuffer.Grows.holds (h : buf.Grows buf' x) (hs : buf.Holds s) :
    buf'.Holds (s.append x) where
  sound := h.sound
  contents := by rw [h.data, hs.contents, Bytes.append]
  freezeStart := h.freezeStart.trans hs.freezeStart
  freezeEnd := h.freezeEnd.trans hs.freezeEnd

theorem Evbuffer.Grows.trans {buf'' : Evbuffer} {y : List UInt8} (h : buf.Grows buf' x)
    (h' : buf'.Grows buf'' y) : buf.Grows buf'' (x ++ y) where
  sound := h'.sound
  data := by rw [h'.data, h.data, List.append_assoc]
  freezeStart := h'.freezeStart.trans h.freezeStart
  freezeEnd := h'.freezeEnd.trans h.freezeEnd

/-- The first chain of a buffer. -/
theorem Evbuffer.Sound.insert_empty (h : buf.Sound) (hcs : buf.chains = [])
    (hlwd : buf.lastWithDatap = 0) (hc : chain.Fits) :
    ∃ buf', evbufferChainInsert buf chain = some buf' ∧ buf'.At [] chain [] ∧
      buf.Grows buf' chain.data := by
  have htotal := h.total
  rw [hcs, dataOf_nil, List.length_nil] at htotal
  have hinsert : evbufferChainInsert buf chain = some
      { buf with chains := [chain], last := some 0, totalLen := buf.totalLen + chain.off } := by
    simp [evbufferChainInsert, hcs, hlwd]
  have hat : ({ buf with chains := [chain], last := some 0, totalLen := buf.totalLen + chain.off } :
      Evbuffer).At [] chain [] :=
    ⟨rfl, rfl, hlwd, fun d hd => absurd hd List.not_mem_nil, fun _ => rfl⟩
  refine ⟨_, hinsert, hat, hat.sound (fun d hd => absurd hd List.not_mem_nil) hc
    (fun d hd => absurd hd List.not_mem_nil) ?_, ?_, rfl, rfl⟩
  · simp [htotal, hc.length_data]
  · simp [hcs]

/-- A chain is put behind the data. -/
theorem Evbuffer.Sound.insert (h : buf.Sound) (hc : chain.Fits) :
    ∃ buf', evbufferChainInsert buf chain = some buf' ∧ buf.Grows buf' chain.data := by
  have hlen := hc.length_data
  have hnone : ∀ d ∈ ([] : List Chain), d.Fits := fun d hd => absurd hd List.not_mem_nil
  have hnone' : ∀ d ∈ ([] : List Chain), d.off = 0 := fun d hd => absurd hd List.not_mem_nil
  rcases h.placed with ⟨hcs, -, hlwd⟩ | ⟨front, c, back, hat⟩
  · obtain ⟨buf', hinsert, -, hgrows⟩ := h.insert_empty hcs hlwd hc
    exact ⟨buf', hinsert, hgrows⟩
  · obtain ⟨hfitsFront, hfitsC, -⟩ := hat.fits h
    have htotal := h.total
    have hinsert : evbufferChainInsert buf chain = (freeTrailingEmptyChains buf).map fun chp =>
        { buf with
          chains := buf.chains.take chp ++ [chain]
          lastWithDatap := if chain.off ≠ 0 then chp else buf.lastWithDatap
          last := some chp
          totalLen := buf.totalLen + chain.off } := by
      rw [evbufferChainInsert, hat.chains, hat.lastWithDatap, getElem?_middle]
    rw [hinsert, hat.freeTrailingEmptyChains, Option.map_some]
    rw [hat.dataOf_eq, List.length_append] at htotal
    by_cases h0 : c.off = 0
    · -- the only chains there are hold no data and go
      have hfront := hat.first h0
      have hempty := Chain.data_of_empty h0
      subst hfront
      have hlwd := hat.lastWithDatap
      rw [hempty, dataOf_nil, List.length_nil, Nat.add_zero] at htotal
      rw [if_pos h0, List.length_nil, List.take_zero, List.nil_append]
      refine ⟨_, rfl, ?_, ?_, rfl, rfl⟩
      · refine (show Evbuffer.At _ [] chain [] from ⟨rfl, rfl, ?_, hnone', fun _ => rfl⟩).sound
          hnone hc hnone ?_
        · simp only [hlwd, List.length_nil, ite_self]
        · simp [htotal, hlen]
      · simp [hat.dataOf_eq, hempty]
    · have htake : buf.chains.take (front.length + 1) = front ++ [c] := by
        rw [hat.chains, List.take_length_add_append, List.take_succ_cons, List.take_zero]
      rw [if_neg h0, htake]
      refine ⟨_, rfl, ?_, by simp [hat.dataOf_eq], rfl, rfl⟩
      by_cases hnew : chain.off = 0
      · refine (show Evbuffer.At _ front c [chain] from
          ⟨by simp, by simp, ?_, List.forall_mem_singleton.mpr hnew, hat.first⟩).sound hfitsFront
          hfitsC (List.forall_mem_singleton.mpr hc) ?_
        · simp only [hnew, ne_eq, not_true, if_false, hat.lastWithDatap]
        · simp only [htotal, hnew, Nat.add_zero, List.length_append]
      · refine (show Evbuffer.At _ (front ++ [c]) chain [] from
          ⟨by simp, by simp, ?_, hnone', fun h => absurd h hnew⟩).sound
          (List.forall_mem_append.mpr ⟨hfitsFront, List.forall_mem_singleton.mpr hfitsC⟩)
          hc hnone ?_
        · simp only [hnew, ne_eq, not_false_iff, if_true, List.length_append, List.length_singleton]
        · simp [htotal, hlen, Nat.add_assoc]

theorem ite_lt_eq_max (t n : Nat) : (if t < n then n else t) = max t n := by
  split <;> omega

theorem autoSize_le {t : Nat} (h : t ≤ evbufferChainMax - evbufferChainSize) :
    (if t ≤ evbufferChainMaxAutoSize / 2 then 2 * t else t) ≤
      evbufferChainMax - evbufferChainSize := by
  split
  next hauto =>
    simp only [evbufferChainMax, evbufferChainSize, evbufferChainMaxAutoSize] at hauto ⊢
    omega
  · exact h

/-- All the bytes are added, or none. -/
theorem Evbuffer.At.addAt (h : buf.At front c back) (hsound : buf.Sound) (data : List UInt8)
    (malloc : Bool) :
    (∃ buf', evbufferAddAt buf front.length data malloc = some (0, buf') ∧ buf.Grows buf' data) ∨
      evbufferAddAt buf front.length data malloc = some (-1, buf) ∧
        (malloc = false ∨ evbufferChainMax - evbufferChainSize < data.length) := by
  obtain ⟨-, hc, -⟩ := h.fits hsound
  have hget : buf.chains[front.length]? = some c := by rw [h.chains, getElem?_middle]
  rw [evbufferAddAt, hget]
  simp only
  by_cases hroom : data.length ≤ c.spaceLen
  · obtain ⟨c', hadd, hc', hdata, -⟩ := hc.add hroom
    obtain ⟨-, hsound', hall⟩ := h.set hsound hc' hdata rfl
    refine .inl ⟨_, ?_, ⟨hsound', hall, rfl, rfl⟩⟩
    rw [if_pos hroom, hadd, Option.map_some]
  · rw [if_neg hroom]
    by_cases hre : c.shouldRealign data.length = true
    · obtain ⟨c₁, halign, hc₁, hdata₁, -, hspace₁⟩ := hc.align
      have hfree : data.length ≤ c₁.spaceLen := by
        rw [hspace₁]
        simp only [Chain.shouldRealign, decide_eq_true_eq] at hre
        exact hre.1
      obtain ⟨c', hadd, hc', hdata, -⟩ := hc₁.add hfree
      rw [hdata₁] at hdata
      obtain ⟨-, hsound', hall⟩ := h.set hsound hc' hdata rfl
      refine .inl ⟨_, ?_, ⟨hsound', hall, rfl, rfl⟩⟩
      rw [if_pos hre, halign, Option.bind_some, hadd, Option.map_some]
    · rw [if_neg hre]
      have hsize := hc.size
      split
      next hnew =>
        refine .inr ⟨rfl, ?_⟩
        rcases evbufferChainNew_none hnew with hm | hbig
        · exact .inl hm
        · right
          have hauto := autoSize_le hsize
          rw [ite_lt_eq_max] at hbig
          omega
      next tmp hnew =>
        obtain ⟨htmp, hempty, hspace, hlarge⟩ := evbufferChainNew_some hnew
        have hlarge' : data.length ≤ tmp.buffer.length := by
          rw [ite_lt_eq_max] at hlarge
          exact Nat.le_trans (Nat.le_max_right _ _) hlarge
        have hspace' : (data.drop c.spaceLen).length ≤ tmp.spaceLen := by
          rw [List.length_drop, hspace]
          omega
        have htake : (data.take c.spaceLen).length = c.spaceLen := by
          rw [List.length_take]
          omega
        obtain ⟨c', hadd, hc', hdata, -⟩ := hc.add (Nat.le_of_eq htake)
        obtain ⟨tmp', hadd', htmp', hdata', -⟩ := htmp.add hspace'
        obtain ⟨-, hsound', hall⟩ := h.set hsound hc' hdata rfl
        obtain ⟨buf', hinsert, hsound'', hall', hstart, hend⟩ := hsound'.insert htmp'
        rw [htake] at hinsert
        refine .inl ⟨buf', ?_, hsound'', ?_, hstart, hend⟩
        · rw [hadd, Option.bind_some, hadd', Option.bind_some, hinsert, Option.map_some]
        · rw [hall', hall, hdata', Chain.data_of_empty hempty, List.nil_append, List.append_assoc,
            List.take_append_drop]

/-- `evbuffer_add` -/
theorem Evbuffer.Holds.add (h : buf.Holds s) (data : List UInt8) (malloc : Bool) :
    ∃ r buf' s', evbufferAdd buf data malloc = some (r, buf') ∧
      s.Allows (.add data malloc) (r, []) s' ∧ buf'.Holds s' := by
  have htotal := h.sound.total
  rw [h.contents] at htotal
  rw [evbufferAdd]
  by_cases hfrozen : buf.freezeEnd = true
  · exact ⟨-1, buf, s, if_pos hfrozen, .inr ⟨.inl (h.freezeEnd ▸ hfrozen), rfl, rfl⟩, h⟩
  have hopen : s.freezeEnd = false := by
    rw [← h.freezeEnd]
    simpa using hfrozen
  rw [if_neg hfrozen]
  by_cases hlong : data.length > evSizeMax - buf.totalLen
  · refine ⟨-1, buf, s, if_pos hlong, .inr ⟨.inr (.inr (.inr ?_)), rfl, rfl⟩, h⟩
    omega
  rw [if_neg hlong]
  rcases h.sound.placed with ⟨hcs, hlast, hlwd⟩ | ⟨front, c, back, hat⟩
  · -- the first chain
    have hplace : (if buf.lastWithDatap < buf.chains.length then some buf.lastWithDatap
        else buf.last) = none := by
      rw [hcs, hlast, hlwd]
      rfl
    rw [hplace]
    simp only
    split
    next hnew =>
      refine ⟨-1, buf, s, rfl, .inr ⟨?_, rfl, rfl⟩, h⟩
      rcases evbufferChainNew_none hnew with hm | hbig
      · exact .inr (.inl hm)
      · exact .inr (.inr (.inl hbig))
    next chain hnew =>
      obtain ⟨hchain, hempty, -, -⟩ := evbufferChainNew_some hnew
      obtain ⟨buf₁, hinsert, hat₁, hgrows₁⟩ := h.sound.insert_empty hcs hlwd hchain
      rw [Chain.data_of_empty hempty] at hgrows₁
      rw [hinsert, Option.bind_some, hat₁.last, Option.bind_some]
      rcases hat₁.addAt hgrows₁.sound data malloc with ⟨buf₂, hadd, hgrows₂⟩ | ⟨hadd, hwhy⟩
      · exact ⟨0, buf₂, s.append data, hadd, .inl ⟨hopen, rfl, rfl⟩,
          (hgrows₁.trans hgrows₂).holds h⟩
      · refine ⟨-1, buf₁, s, hadd, .inr ⟨?_, rfl, rfl⟩, ?_⟩
        · rcases hwhy with hm | hbig
          · exact .inr (.inl hm)
          · exact .inr (.inr (.inl hbig))
        · have hsame := hgrows₁.holds h
          rwa [Bytes.append, List.append_nil] at hsame
  · have hplace : (if buf.lastWithDatap < buf.chains.length then some buf.lastWithDatap
        else buf.last) = some front.length := by
      rw [hat.lastWithDatap, if_pos (by simp [hat.chains])]
    rw [hplace]
    simp only
    rcases hat.addAt h.sound data malloc with ⟨buf', hadd, hgrows⟩ | ⟨hadd, hwhy⟩
    · exact ⟨0, buf', s.append data, hadd, .inl ⟨hopen, rfl, rfl⟩, hgrows.holds h⟩
    · refine ⟨-1, buf, s, hadd, .inr ⟨?_, rfl, rfl⟩, h⟩
      rcases hwhy with hm | hbig
      · exact .inr (.inl hm)
      · exact .inr (.inr (.inl hbig))

/-! ## Copying and dropping -/

/-- `evbuffer_copyout` -/
theorem Evbuffer.Holds.copyout (h : buf.Holds s) (datlen : Nat) :
    evbufferCopyout buf datlen = some (s.copyout datlen) := by
  have htotal := h.sound.total
  have hcontents := h.contents
  have hlen : min datlen buf.totalLen = (s.contents.take datlen).length := by
    rw [List.length_take, htotal, hcontents]
  have htake : s.contents.take (s.contents.take datlen).length = s.contents.take datlen := by
    rw [List.length_take, ← List.take_take, List.take_length]
  rw [evbufferCopyout, Bytes.copyout, hlen, ← h.freezeStart]
  simp only [List.length_eq_zero_iff]
  by_cases hnil : s.contents.take datlen = []
  · rw [if_pos hnil, if_pos hnil]
  · rw [if_neg hnil, if_neg hnil]
    split
    · rfl
    · rw [copyChains_eq h.sound.fits (by rw [← hlen, htotal]; exact Nat.min_le_right _ _),
        hcontents, htake, Option.map_some]

/-- `evbuffer_drain` -/
theorem Evbuffer.Holds.drain (h : buf.Holds s) (len : Nat) :
    ∃ buf', evbufferDrain buf len =
        some (if s.contents ≠ [] ∧ s.freezeStart then -1 else 0, buf') ∧
      buf'.Holds (s.drop len) := by
  have htotal := h.sound.total
  have hcontents := h.contents
  have hzero : buf.totalLen = 0 ↔ s.contents = [] := by
    rw [htotal, hcontents, List.length_eq_zero_iff]
  rw [evbufferDrain, Bytes.drop]
  by_cases hnil : s.contents = []
  · rw [if_pos (hzero.mpr hnil), if_neg (by simp [hnil])]
    refine ⟨buf, rfl, ?_⟩
    split
    · exact h
    · exact ⟨h.sound, by rw [hcontents, hnil, List.drop_nil], h.freezeStart, h.freezeEnd⟩
  rw [if_neg (mt hzero.mp hnil)]
  by_cases hfrozen : s.freezeStart = true
  · refine ⟨buf, ?_, by rwa [if_pos hfrozen]⟩
    rw [if_pos (h.freezeStart.trans hfrozen), if_pos ⟨hnil, hfrozen⟩]
  have hanswer : (if s.contents ≠ [] ∧ s.freezeStart then (-1 : Int) else 0) = 0 :=
    if_neg fun hboth => hfrozen hboth.2
  rw [if_neg (h.freezeStart ▸ hfrozen), hanswer, if_neg hfrozen]
  by_cases hall : buf.totalLen ≤ len
  · rw [if_pos hall]
    refine ⟨_, rfl, ⟨⟨.inl ⟨rfl, rfl, rfl⟩, fun d hd => absurd hd List.not_mem_nil, rfl⟩, ?_,
      h.freezeStart, h.freezeEnd⟩⟩
    rw [htotal, hcontents] at hall
    exact (List.drop_eq_nil_of_le hall).symm
  · rw [if_neg hall]
    rcases h.sound.placed with ⟨hcs, -, -⟩ | ⟨front, c, back, hat⟩
    · rw [hcs] at hcontents
      exact absurd hcontents.symm hnil
    · have hfits := h.sound.fits
      have hdata : c.off ≠ 0 := by
        intro h0
        have hempty := hat.dataOf_eq
        rw [hat.first h0, Chain.data_of_empty h0, hcontents] at hempty
        exact hnil hempty
      rw [hat.chains] at hfits htotal hcontents
      obtain ⟨front', c', j, lwd, hdrop, hplace, hsum, hoff, hfits', hrest⟩ :=
        dropChains_spec (j := 0) (n := len) hfits hat.back_empty hdata
          (.inl (Nat.zero_add front.length).symm) (by rw [← htotal]; exact Nat.lt_of_not_le hall)
      rw [hat.chains, hat.lastWithDatap, hdrop, Option.map_some]
      have hat' : ({ buf with
          chains := front' ++ c' :: back
          last := buf.last.map fun i => i - j
          lastWithDatap := lwd - j
          totalLen := buf.totalLen - len } : Evbuffer).At front' c' back := by
        refine ⟨rfl, ?_, hplace, hat.back_empty, fun h0 => absurd h0 hoff⟩
        simp only [hat.last, Option.map_some, Option.some.injEq]
        omega
      refine ⟨_, rfl, ⟨⟨.inr ⟨front', c', back, hat'⟩, hfits', ?_⟩, ?_, h.freezeStart, h.freezeEnd⟩⟩
      · rw [hrest, List.length_drop, htotal]
      · rw [hrest, hcontents]

/-- `evbuffer_remove` -/
theorem Evbuffer.Holds.remove (h : buf.Holds s) (datlen : Nat) :
    ∃ buf', evbufferRemove buf datlen =
        some (if 0 < (s.copyout datlen).1 then CInt.ofSize (s.copyout datlen).2.length
          else (s.copyout datlen).1, (s.copyout datlen).2, buf') ∧
      buf'.Holds (s.drop datlen) := by
  rw [evbufferRemove, h.copyout datlen, Option.bind_some]
  by_cases hpos : 0 < (s.copyout datlen).1
  · -- bytes have been copied, and these are dropped
    have hsome : s.contents.take datlen ≠ [] ∧ s.freezeStart = false := by
      rw [Bytes.copyout] at hpos
      split at hpos
      · exact absurd hpos (by simp)
      next hne =>
        split at hpos
        · exact absurd hpos (by simp)
        next hopen => exact ⟨hne, by simpa using hopen⟩
    have hcopy : s.copyout datlen =
        (((s.contents.take datlen).length : Int), s.contents.take datlen) := by
      rw [Bytes.copyout, if_neg hsome.1, if_neg (by simp [hsome.2])]
    obtain ⟨buf', hdrain, hholds⟩ := h.drain (s.contents.take datlen).length
    rw [if_neg (by simp [hsome.2])] at hdrain
    rw [hcopy] at hpos ⊢
    simp only [Int.toNat_natCast] at hpos ⊢
    rw [if_pos hpos, if_pos hpos, hdrain, Option.map_some]
    refine ⟨buf', rfl, ?_⟩
    have hdrop : s.drop (s.contents.take datlen).length = s.drop datlen := by
      simp only [Bytes.drop, hsome.2, List.length_take, Bool.false_eq_true, if_false]
      rw [Nat.min_def]
      split
      · rfl
      next hlt =>
        rw [List.drop_length, List.drop_eq_nil_of_le (Nat.le_of_not_le hlt)]
    rwa [← hdrop]
  · rw [if_neg hpos, if_neg hpos]
    refine ⟨buf, rfl, ?_⟩
    have hnone : s.contents.take datlen = [] ∨ s.freezeStart = true := by
      by_contra hno
      rw [not_or] at hno
      rw [Bytes.copyout, if_neg hno.1, if_neg hno.2] at hpos
      have hlen := List.length_pos_iff.mpr hno.1
      simp only at hpos
      omega
    rw [Bytes.drop]
    split
    · exact h
    next hopen =>
      have hnil := hnone.resolve_right hopen
      have hsame : s.contents.drop datlen = s.contents := by
        rcases List.take_eq_nil_iff.mp hnil with h0 | h0
        · rw [h0, List.drop_zero]
        · rw [h0, List.drop_nil]
      exact ⟨h.sound, by rw [h.contents, hsame], h.freezeStart, h.freezeEnd⟩

/-! ## Reading from a socket -/

theorem length_withRoom_le (c : Chain) (cs : List Chain) :
    (withRoom (c :: cs)).length ≤ cs.length + 1 := by
  rw [withRoom]
  split
  · exact Nat.le_succ _
  · exact Nat.le_refl _

theorem withRoom_append (c : Chain) (cs cs' : List Chain) :
    withRoom (c :: (cs ++ cs')) = withRoom (c :: cs) ++ cs' := by
  rw [withRoom, withRoom]
  split <;> rfl

theorem spaceOf_take_withRoom {cs : List Chain} (h : (withRoom cs).length ≤ n) :
    spaceOf ((withRoom cs).take n) = spaceOf cs := by
  rw [List.take_of_length_le h, spaceOf_withRoom]

theorem Evbuffer.Sound.same (h : buf.Sound) : buf.Grows buf [] :=
  ⟨h, (List.append_nil _).symm, rfl, rfl⟩

/-- The chains of a buffer may change as long as the data stays. -/
theorem Evbuffer.At.grows_nil (h : buf.At front c back) (hsound : buf.Sound)
    {front' back' : List Chain} (h' : buf'.At front' c' back')
    (hfits : (∀ d ∈ front', d.Fits) ∧ c'.Fits ∧ ∀ d ∈ back', d.Fits)
    (hdata : dataOf front' ++ c'.data = dataOf front ++ c.data)
    (htotal : buf'.totalLen = buf.totalLen) (hstart : buf'.freezeStart = buf.freezeStart)
    (hend : buf'.freezeEnd = buf.freezeEnd) : buf.Grows buf' [] where
  sound := h'.sound hfits.1 hfits.2.1 hfits.2.2 (by
    rw [htotal, hsound.total, h.dataOf_eq, hdata])
  data := by rw [h'.dataOf_eq, h.dataOf_eq, hdata, List.append_nil]
  freezeStart := hstart
  freezeEnd := hend

/-- There is room for the bytes: `buf'` holds what `buf` holds, and the first chains with
room can take `datlen` bytes. -/
def Evbuffer.Expanded (buf buf' : Evbuffer) (datlen : Nat) : Prop :=
  buf.Grows buf' [] ∧ ∃ front c back, buf'.At front c back ∧
    datlen ≤ spaceOf ((withRoom (c :: back)).take numReadIovec)

/-- A chain for at most 4096 bytes is refused by the allocator only. -/
theorem evbufferChainNew_refused (h : evbufferChainNew malloc n = none)
    (hn : n ≤ evbufferMaxRead) : malloc = false := by
  rcases evbufferChainNew_none h with hm | hbig
  · exact hm
  · simp only [evbufferChainMax, evbufferChainSize, evbufferMaxRead] at hbig hn
    omega

/-- No chain behind the last one with data holds any. -/
theorem Evbuffer.At.back_all (h : buf.At front c back) :
    ((buf.chains.drop (buf.lastWithDatap + 1)).all fun c => c.off = 0) = true := by
  rw [h.chains, h.lastWithDatap, ← List.drop_drop, List.drop_left, List.drop_succ_cons,
    List.drop_zero]
  simpa using h.back_empty

/-- When there is no data, all the chains go and one that is large enough takes their
place. -/
theorem Evbuffer.At.replaceAll (h : buf.At front c back) (hsound : buf.Sound) (hoff : c.off = 0)
    (hlen : datlen ≤ evbufferMaxRead) (malloc : Bool) :
    ∃ r buf', evbufferReplaceEmpty buf datlen malloc = some (r, buf') ∧
      (r = 0 ∧ buf.Expanded buf' datlen ∨ r = -1 ∧ malloc = false ∧ buf.Grows buf' []) := by
  have hnone : ∀ d ∈ ([] : List Chain), d.Fits := fun d hd => absurd hd List.not_mem_nil
  have hnone' : ∀ d ∈ ([] : List Chain), d.off = 0 := fun d hd => absurd hd List.not_mem_nil
  have hback := h.back_all
  have hfront := h.first hoff
  have hempty := h.dataOf_eq
  rw [hfront, Chain.data_of_empty hoff, dataOf_nil, List.append_nil] at hempty
  have htotal := hsound.total
  rw [hempty, List.length_nil] at htotal
  rw [evbufferReplaceEmpty, h.chains, h.lastWithDatap, getElem?_middle]
  rw [h.chains, h.lastWithDatap] at hback
  simp only [hback]
  simp only [hoff, hfront, decide_true, List.length_nil, ne_eq, not_true, and_false, if_true,
    Nat.not_lt_zero, or_false, if_false, Nat.sub_zero]
  split
  next hnew =>
    refine ⟨-1, _, rfl, .inr ⟨rfl, evbufferChainNew_refused hnew hlen, ?_, ?_, rfl, rfl⟩⟩
    · exact ⟨.inl ⟨rfl, rfl, rfl⟩, hnone, rfl⟩
    · rw [hempty]
      rfl
  next tmp hnew =>
    obtain ⟨htmp, hoff', hspace, hlarge⟩ := evbufferChainNew_some hnew
    have hat : ({ buf with chains := [tmp], last := some 0, lastWithDatap := 0 } :
        Evbuffer).At [] tmp [] := ⟨rfl, rfl, rfl, hnone', fun _ => rfl⟩
    refine ⟨0, _, rfl, .inl ⟨rfl, h.grows_nil hsound hat ⟨hnone, htmp, hnone⟩ ?_ rfl rfl rfl,
      [], tmp, [], hat, ?_⟩⟩
    · rw [hfront, Chain.data_of_empty hoff, Chain.data_of_empty hoff']
    · rw [spaceOf_take_withRoom (Nat.le_trans (length_withRoom_le tmp []) (by decide)),
        spaceOf_cons, hspace]
      exact Nat.le_trans hlarge (Nat.le_add_right _ _)

/-- Behind data, the empty chains are replaced by one that holds what the last chain
with data has no room for. -/
theorem Evbuffer.At.replaceBehind (h : buf.At front c back) (hsound : buf.Sound)
    (hoff : c.off ≠ 0) (hroom : c.spaceLen ≤ datlen) (hlen : datlen ≤ evbufferMaxRead)
    (malloc : Bool) :
    ∃ r buf', evbufferReplaceEmpty buf datlen malloc = some (r, buf') ∧
      (r = 0 ∧ buf.Expanded buf' datlen ∨ r = -1 ∧ malloc = false ∧ buf.Grows buf' []) := by
  obtain ⟨hfitsFront, hc, -⟩ := h.fits hsound
  have hnone : ∀ d ∈ ([] : List Chain), d.Fits := fun d hd => absurd hd List.not_mem_nil
  have hnone' : ∀ d ∈ ([] : List Chain), d.off = 0 := fun d hd => absurd hd List.not_mem_nil
  have hback := h.back_all
  have htake : (front ++ c :: back).take (front.length + 1) = front ++ [c] := by
    rw [List.take_length_add_append, List.take_succ_cons, List.take_zero]
  rw [evbufferReplaceEmpty, h.chains, h.lastWithDatap, getElem?_middle]
  rw [h.chains, h.lastWithDatap] at hback
  simp only [hback]
  simp only [hoff, decide_false, Bool.false_eq_true, false_and, false_or, not_true, if_false,
    htake]
  rw [if_neg (Nat.not_lt.mpr hroom)]
  split
  next hnew =>
    have hat : ({ buf with chains := front ++ [c], last := some front.length } : Evbuffer).At
        front c [] := ⟨rfl, rfl, h.lastWithDatap, hnone', fun h0 => absurd h0 hoff⟩
    refine ⟨-1, _, rfl, .inr ⟨rfl, evbufferChainNew_refused hnew (by omega), ?_⟩⟩
    have hgrows := h.grows_nil hsound hat ⟨hfitsFront, hc, hnone⟩ rfl rfl rfl rfl
    rwa [h.lastWithDatap] at hgrows
  next tmp hnew =>
    obtain ⟨htmp, hoff', hspace, hlarge⟩ := evbufferChainNew_some hnew
    have hat : ({ buf with
        chains := front ++ [c] ++ [tmp]
        last := some (front.length + 1) } : Evbuffer).At front c [tmp] :=
      ⟨by simp, rfl, h.lastWithDatap, List.forall_mem_singleton.mpr hoff',
        fun h0 => absurd h0 hoff⟩
    have hgrows := h.grows_nil hsound hat
      ⟨hfitsFront, hc, List.forall_mem_singleton.mpr htmp⟩ rfl rfl rfl rfl
    refine ⟨0, _, rfl, .inl ⟨rfl, ?_, front, c, [tmp], ?_, ?_⟩⟩
    · rwa [h.lastWithDatap] at hgrows
    · rwa [h.lastWithDatap] at hat
    · have hcount := length_withRoom_le c [tmp]
      rw [List.length_singleton] at hcount
      rw [spaceOf_take_withRoom (Nat.le_trans hcount (by decide)), spaceOf_cons, spaceOf_cons,
        spaceOf_nil, hspace]
      omega

/-- The empty chains are replaced by one that is large enough. -/
theorem Evbuffer.At.replaceEmpty (h : buf.At front c back) (hsound : buf.Sound)
    (hroom : c.spaceLen ≤ datlen) (hlen : datlen ≤ evbufferMaxRead) (malloc : Bool) :
    ∃ r buf', evbufferReplaceEmpty buf datlen malloc = some (r, buf') ∧
      (r = 0 ∧ buf.Expanded buf' datlen ∨ r = -1 ∧ malloc = false ∧ buf.Grows buf' []) := by
  by_cases hoff : c.off = 0
  · exact h.replaceAll hsound hoff hlen malloc
  · exact h.replaceBehind hsound hoff hroom hlen malloc

/-- A buffer without chains gets one. -/
theorem Evbuffer.Sound.expandFast_new (h : buf.Sound) (hcs : buf.chains = [])
    (hlast : buf.last = none) (hlwd : buf.lastWithDatap = 0) (hlen : datlen ≤ evbufferMaxRead)
    (malloc : Bool) :
    ∃ r buf', evbufferExpandFast buf datlen numReadIovec malloc = some (r, buf') ∧
      (r = 0 ∧ buf.Expanded buf' datlen ∨ r = -1 ∧ malloc = false ∧ buf.Grows buf' []) := by
  rw [evbufferExpandFast, hlast]
  simp only
  split
  next hnew =>
    exact ⟨-1, buf, rfl, .inr ⟨rfl, evbufferChainNew_refused hnew hlen, h.same⟩⟩
  next chain hnew =>
    obtain ⟨hchain, hempty, hspace, hlarge⟩ := evbufferChainNew_some hnew
    obtain ⟨buf', hinsert, hat', hgrows⟩ := h.insert_empty hcs hlwd hchain
    rw [Chain.data_of_empty hempty] at hgrows
    rw [hinsert, Option.map_some]
    refine ⟨0, buf', rfl, .inl ⟨rfl, hgrows, [], chain, [], hat', ?_⟩⟩
    rw [spaceOf_take_withRoom (Nat.le_trans (length_withRoom_le chain []) (by decide)),
      spaceOf_cons, hspace]
    exact Nat.le_trans hlarge (Nat.le_add_right _ _)

/-- A chain is linked behind the last one. -/
theorem Evbuffer.At.link (h : buf.At front c back) (hsound : buf.Sound) {tmp : Chain}
    (htmp : tmp.Fits) (hempty : tmp.off = 0) (hused : (withRoom (c :: back)).length < numReadIovec)
    (hlarge : datlen ≤ spaceOf (c :: back) + tmp.spaceLen) :
    buf.Expanded { buf with
      chains := buf.chains ++ [tmp]
      last := some (front.length + back.length + 1) } datlen := by
  obtain ⟨hfitsFront, hc, hfitsBack⟩ := h.fits hsound
  have hat : ({ buf with
      chains := buf.chains ++ [tmp]
      last := some (front.length + back.length + 1) } : Evbuffer).At front c (back ++ [tmp]) := by
    refine ⟨by simp [h.chains], ?_, h.lastWithDatap, ?_, h.first⟩
    · simp [Nat.add_assoc]
    · exact List.forall_mem_append.mpr ⟨h.back_empty, List.forall_mem_singleton.mpr hempty⟩
  have hgrows := h.grows_nil hsound hat ⟨hfitsFront, hc,
    List.forall_mem_append.mpr ⟨hfitsBack, List.forall_mem_singleton.mpr htmp⟩⟩ rfl rfl rfl rfl
  refine ⟨hgrows, front, c, back ++ [tmp], hat, ?_⟩
  rw [spaceOf_take_withRoom, ← List.cons_append, spaceOf_append, spaceOf_cons tmp, spaceOf_nil]
  · exact hlarge
  · rw [withRoom_append, List.length_append, List.length_singleton]
    exact hused

/-- `evbuffer_expand_fast_` -/
theorem Evbuffer.Sound.expandFast (h : buf.Sound) (hlen : datlen ≤ evbufferMaxRead)
    (malloc : Bool) :
    ∃ r buf', evbufferExpandFast buf datlen numReadIovec malloc = some (r, buf') ∧
      (r = 0 ∧ buf.Expanded buf' datlen ∨ r = -1 ∧ malloc = false ∧ buf.Grows buf' []) := by
  rcases h.placed with ⟨hcs, hlast, hlwd⟩ | ⟨front, c, back, hat⟩
  · exact h.expandFast_new hcs hlast hlwd hlen malloc
  obtain ⟨hfitsFront, hc, hfitsBack⟩ := hat.fits h
  have htwo : 2 ≤ numReadIovec := by decide
  obtain ⟨s, c', back', hsurvey, hchains, hc', hdata, hoff, hall, hcount, hyes, hno⟩ :=
    survey_spec datlen hc hfitsBack hat.back_empty htwo
  have hdrop : buf.chains.drop buf.lastWithDatap = c :: back := by
    rw [hat.chains, hat.lastWithDatap, List.drop_left]
  have htake : buf.chains.take buf.lastWithDatap = front := by
    rw [hat.chains, hat.lastWithDatap, List.take_left]
  -- the survey may have moved the data of the first chain to its front
  obtain ⟨buf₁, hbuf₁⟩ : ∃ b : Evbuffer, b = { buf with chains := front ++ c' :: back' } :=
    ⟨_, rfl⟩
  have hat₁ : buf₁.At front c' back' := by
    rw [hbuf₁]
    exact ⟨rfl, by rw [hcount]; exact hat.last, hat.lastWithDatap, fun d hd => (hall d hd).2,
      fun h0 => hat.first (hoff ▸ h0)⟩
  have hwhole : buf₁.chains.take (front.length + back.length + 1) = buf₁.chains := by
    rw [hat₁.chains]
    refine List.take_of_length_le ?_
    simp only [List.length_append, List.length_cons]
    omega
  have hstep : evbufferExpandFast buf datlen numReadIovec malloc =
      if s.enough then some (0, buf₁)
      else if s.used < numReadIovec then
        match evbufferChainNew malloc (datlen - s.avail) with
        | none => some (-1, buf₁)
        | some tmp =>
            some (0, { buf₁ with
              chains := buf₁.chains ++ [tmp]
              last := some (front.length + back'.length + 1) })
      else evbufferReplaceEmpty buf₁ datlen malloc := by
    rw [← hwhole, evbufferExpandFast, hdrop, hsurvey, htake, hcount]
    simp only [hat.last, Option.bind_some, hchains, hbuf₁]
  have hgrows₁ : buf.Grows buf₁ [] := by
    refine hat.grows_nil h hat₁ ⟨hfitsFront, hc', fun d hd => (hall d hd).1⟩ (by rw [hdata]) ?_ ?_
      ?_ <;> rw [hbuf₁]
  have hexpanded : ∀ {buf'}, buf₁.Expanded buf' datlen → buf.Expanded buf' datlen :=
    fun hb => ⟨hgrows₁.trans hb.1, hb.2⟩
  rw [hstep]
  by_cases henough : s.enough = true
  · rw [if_pos henough]
    exact ⟨0, buf₁, rfl, .inl ⟨rfl, hgrows₁, front, c', back', hat₁, hyes henough⟩⟩
  obtain ⟨hshort, hfirst, hrest⟩ := hno (by simpa using henough)
  rw [if_neg henough]
  by_cases hused : s.used < numReadIovec
  · obtain ⟨havail, hcounted⟩ := hrest hused
    rw [if_pos hused]
    split
    next hnew =>
      exact ⟨-1, buf₁, rfl, .inr ⟨rfl, evbufferChainNew_refused hnew (by omega), hgrows₁⟩⟩
    next tmp hnew =>
      obtain ⟨htmp, hempty, hspace, hlarge⟩ := evbufferChainNew_some hnew
      exact ⟨0, _, rfl, .inl ⟨rfl, hexpanded
        (hat₁.link hgrows₁.sound htmp hempty (by omega) (by omega))⟩⟩
  · rw [if_neg hused]
    obtain ⟨r, buf', hreplace, hcase⟩ :=
      hat₁.replaceEmpty hgrows₁.sound (Nat.le_trans hfirst (Nat.le_of_lt hshort)) hlen malloc
    refine ⟨r, buf', hreplace, ?_⟩
    rcases hcase with ⟨hr, hb⟩ | ⟨hr, hm, hgrows₂⟩
    · exact .inl ⟨hr, hexpanded hb⟩
    · exact .inr ⟨hr, hm, hgrows₁.trans hgrows₂⟩

/-- The chains a read begins at. -/
theorem Evbuffer.At.drop_chainp (h : buf.At front c back) :
    buf.chains.drop (if c.spaceLen = 0 then front.length + 1 else front.length) =
      withRoom (c :: back) := by
  rw [h.chains, withRoom]
  split
  · rw [← List.drop_drop, List.drop_left]
    rfl
  · rw [List.drop_left]

theorem withRoom_empty (h : ∀ d ∈ back, d.off = 0) :
    ∀ d ∈ (withRoom (c :: back)).tail, d.off = 0 := by
  rw [withRoom]
  split
  · exact fun d hd => h d (List.mem_of_mem_tail hd)
  · exact h

/-- With the chains that have room replaced by committed ones, the buffer has grown by
the bytes committed. -/
theorem Evbuffer.At.committed {k : Nat} {pre post : List Chain} {d : Chain} {x : List UInt8}
    (h : buf.At front c back) (hsound : buf.Sound) (hk : k ≤ front.length + 1)
    (hdrop : buf.chains.drop k = withRoom (c :: back)) (hoff : d.off ≠ 0)
    (hpost : ∀ e ∈ post, e.off = 0) (hall : ∀ e ∈ pre ++ d :: post, e.Fits)
    (hcount : pre.length + post.length + 1 = (withRoom (c :: back)).length)
    (hdata : dataOf (pre ++ d :: post) = dataOf (withRoom (c :: back)) ++ x) :
    buf.Grows
      { buf with
        chains := buf.chains.take k ++ (pre ++ d :: post)
        lastWithDatap := k + pre.length
        totalLen := buf.totalLen + x.length } x := by
  have hlen : k + (withRoom (c :: back)).length = front.length + back.length + 1 := by
    rw [← hdrop, List.length_drop, h.chains, List.length_append, List.length_cons]
    omega
  have htake : (buf.chains.take k).length = k := by
    rw [List.length_take, h.chains, List.length_append, List.length_cons]
    omega
  have hat : ({ buf with
      chains := buf.chains.take k ++ (pre ++ d :: post)
      lastWithDatap := k + pre.length
      totalLen := buf.totalLen + x.length } : Evbuffer).At (buf.chains.take k ++ pre) d post := by
    refine ⟨(List.append_assoc _ _ _).symm, ?_, ?_, hpost, fun h0 => absurd h0 hoff⟩
    · rw [h.last, List.length_append, htake]
      congr 1
      omega
    · rw [List.length_append, htake]
  have hdata' : dataOf (buf.chains.take k ++ (pre ++ d :: post)) = dataOf buf.chains ++ x := by
    rw [dataOf_append, hdata, ← hdrop, ← List.append_assoc, ← dataOf_append,
      List.take_append_drop]
  refine ⟨⟨.inr ⟨_, _, _, hat⟩, ?_, ?_⟩, hdata', rfl, rfl⟩
  · exact List.forall_mem_append.mpr ⟨fun e he => hsound.fits e (List.mem_of_mem_take he), hall⟩
  · simp only [hdata', List.length_append, hsound.total]

/-- What is read stands behind the data. -/
theorem Evbuffer.At.readInto (h : buf.At front c back) (hsound : buf.Sound)
    (hroom : datlen ≤ spaceOf ((withRoom (c :: back)).take numReadIovec))
    (socket : Option (List UInt8)) :
    socket = none ∧ evbufferReadInto buf datlen socket = some (-1, buf) ∨
      ∃ data buf', socket = some data ∧
        evbufferReadInto buf datlen socket = some (((data.take datlen).length : Int), buf') ∧
        buf.Grows buf' (data.take datlen) := by
  obtain ⟨vecs, hvecs, hsum⟩ := setupVecs_eq hroom
  obtain ⟨k, hk⟩ : ∃ k, k = if c.spaceLen = 0 then front.length + 1 else front.length := ⟨_, rfl⟩
  have hdrop : buf.chains.drop k = withRoom (c :: back) := by rw [hk, h.drop_chainp]
  have hget : buf.chains[buf.lastWithDatap]? = some c := by
    rw [h.chains, h.lastWithDatap, getElem?_middle]
  have hread : evbufferReadInto buf datlen socket =
      match socket with
      | none => some (-1, buf)
      | some data =>
          if data.take datlen = [] then some (0, buf)
          else
            (scatter vecs (withRoom (c :: back)) (data.take datlen)).bind fun chains =>
            (commit vecs.length chains (data.take datlen).length k).map fun r =>
              (((data.take datlen).length : Int), { buf with
                chains := buf.chains.take k ++ r.1
                lastWithDatap := r.2.getD buf.lastWithDatap
                totalLen := buf.totalLen + (data.take datlen).length }) := by
    rw [evbufferReadInto, hget]
    simp only [h.lastWithDatap, ← hk, hdrop, hvecs, Option.bind_some, hsum]
  rw [hread]
  cases socket with
  | none => exact .inl ⟨rfl, rfl⟩
  | some data =>
      refine .inr ⟨data, ?_⟩
      simp only
      by_cases hnil : data.take datlen = []
      · refine ⟨buf, trivial, by rw [if_pos hnil, hnil]; rfl, ?_⟩
        rw [hnil]
        exact hsound.same
      · have hmem : ∀ d ∈ withRoom (c :: back), d.Fits := fun d hd =>
          hsound.fits d (List.mem_of_mem_drop (hdrop ▸ hd))
        obtain ⟨cs₁, hscatter, hcommit⟩ := scatter_commit hmem (withRoom_empty h.back_empty) hvecs
          hnil (List.length_take_le datlen data) hroom
        obtain ⟨pre, d, post, heq, hoff, hpost, hall, hcount, hdata⟩ := hcommit k
        have hle : k ≤ front.length + 1 := by
          rw [hk]
          split <;> omega
        rw [if_neg hnil, hscatter, Option.bind_some, heq, Option.map_some]
        exact ⟨_, trivial, rfl, h.committed hsound hle hdrop hoff hpost hall hcount hdata⟩

theorem readSize_le (readable howmuch : Int) : readSize readable howmuch ≤ evbufferMaxRead := by
  have hn : (if readable ≤ 0 ∨ readable > evbufferMaxRead then (evbufferMaxRead : Int)
      else readable) ≤ evbufferMaxRead := by
    split <;> omega
  rw [readSize]
  split <;> omega

theorem readSize_le_howmuch (readable : Int) {howmuch : Int} (h : 0 ≤ howmuch) :
    readSize readable howmuch ≤ howmuch.toNat := by
  rw [readSize]
  split <;> omega

/-- `evbuffer_read` -/
theorem Evbuffer.Holds.read (h : buf.Holds s) (readable howmuch : Int)
    (socket : Option (List UInt8)) (malloc : Bool) :
    ∃ r buf' s', evbufferRead buf readable howmuch socket malloc = some (r, buf') ∧
      s.Allows (.read readable howmuch socket malloc) (r, []) s' ∧ buf'.Holds s' := by
  have hsame : ∀ {b : Evbuffer}, buf.Grows b [] → b.Holds s := by
    intro b hb
    have hholds := hb.holds h
    rwa [Bytes.append, List.append_nil] at hholds
  rw [evbufferRead]
  by_cases hfrozen : buf.freezeEnd = true
  · exact ⟨-1, buf, s, if_pos hfrozen, .inr ⟨.inl (h.freezeEnd ▸ hfrozen), rfl, rfl⟩, h⟩
  have hopen : s.freezeEnd = false := by
    rw [← h.freezeEnd]
    simpa using hfrozen
  rw [if_neg hfrozen]
  obtain ⟨r, buf₁, hexpand, hcase⟩ := h.sound.expandFast (readSize_le readable howmuch) malloc
  rw [hexpand, Option.bind_some]
  rcases hcase with ⟨rfl, hgrows₁, front, c, back, hat, hroom⟩ | ⟨rfl, hm, hgrows₁⟩
  · rw [if_neg (by simp)]
    rcases hat.readInto hgrows₁.sound hroom socket with ⟨hsocket, hread⟩ |
      ⟨data, buf₂, hsocket, hread, hgrows₂⟩
    · exact ⟨-1, buf₁, s, hread, .inr ⟨.inr (.inr hsocket), rfl, rfl⟩, hsame hgrows₁⟩
    · exact ⟨_, buf₂, _, hread, .inl ⟨hopen, data, hsocket, rfl, rfl⟩,
        (hgrows₁.trans hgrows₂).holds h⟩
  · exact ⟨-1, buf₁, s, rfl, .inr ⟨.inr (.inl hm), rfl, rfl⟩, hsame hgrows₁⟩

/-! ## All the calls -/

/-- Freezing an end changes nothing else. -/
theorem Evbuffer.Sound.freeze (h : buf.Sound) (start on : Bool) :
    (evbufferFreeze buf start on).Sound := by
  cases start with
  | false =>
      refine ⟨h.placed.imp_right fun ⟨front, c, back, hat⟩ => ⟨front, c, back, ?_⟩, h.fits, h.total⟩
      exact ⟨hat.chains, hat.last, hat.lastWithDatap, hat.back_empty, hat.first⟩
  | true =>
      refine ⟨h.placed.imp_right fun ⟨front, c, back, hat⟩ => ⟨front, c, back, ?_⟩, h.fits, h.total⟩
      exact ⟨hat.chains, hat.last, hat.lastWithDatap, hat.back_empty, hat.first⟩

theorem Evbuffer.Holds.freeze (h : buf.Holds s) (start on : Bool) :
    (evbufferFreeze buf start on).Holds (s.freeze start on) := by
  cases start with
  | false => exact ⟨h.sound.freeze false on, h.contents, h.freezeStart, rfl⟩
  | true => exact ⟨h.sound.freeze true on, h.contents, rfl, h.freezeEnd⟩

/-- One call. -/
theorem Evbuffer.Holds.call (h : buf.Holds s) (c : EvbufferCall) :
    ∃ r buf' s', buf.call c = some (r, buf') ∧ s.Allows c r s' ∧ buf'.Holds s' := by
  cases c with
  | add data malloc =>
      obtain ⟨r, buf', s', hcall, hallows, hholds⟩ := h.add data malloc
      exact ⟨(r, []), buf', s', by rw [Evbuffer.call, hcall, Option.map_some], hallows, hholds⟩
  | read readable howmuch socket malloc =>
      obtain ⟨r, buf', s', hcall, hallows, hholds⟩ := h.read readable howmuch socket malloc
      exact ⟨(r, []), buf', s', by rw [Evbuffer.call, hcall, Option.map_some], hallows, hholds⟩
  | copyout datlen =>
      exact ⟨s.copyout datlen, buf, s, by rw [Evbuffer.call, h.copyout, Option.map_some],
        ⟨rfl, rfl⟩, h⟩
  | remove datlen =>
      obtain ⟨buf', hcall, hholds⟩ := h.remove datlen
      exact ⟨_, buf', s.drop datlen, by rw [Evbuffer.call, hcall, Option.map_some], ⟨rfl, rfl⟩,
        hholds⟩
  | drain len =>
      obtain ⟨buf', hcall, hholds⟩ := h.drain len
      exact ⟨_, buf', s.drop len, by rw [Evbuffer.call, hcall, Option.map_some], ⟨rfl, rfl⟩,
        hholds⟩
  | freeze start on =>
      exact ⟨(0, []), evbufferFreeze buf start on, s.freeze start on, rfl, ⟨rfl, rfl⟩,
        h.freeze start on⟩

/-- All of them. -/
theorem Evbuffer.Holds.calls (h : buf.Holds s) (cs : List EvbufferCall) :
    ∃ rs buf' s', buf.calls cs = some (rs, buf') ∧ s.AllowsAll cs rs s' ∧ buf'.Holds s' := by
  induction cs generalizing buf s with
  | nil => exact ⟨[], buf, s, rfl, rfl, h⟩
  | cons c cs ih =>
      obtain ⟨r, buf₁, s₁, hcall, hallows, h₁⟩ := h.call c
      obtain ⟨rs, buf', s', hcalls, hall, h'⟩ := ih h₁
      refine ⟨r :: rs, buf', s', ?_, ⟨s₁, hallows, hall⟩, h'⟩
      rw [Evbuffer.calls, hcall, Option.bind_some, hcalls, Option.map_some]

/-- An `evbuffer` is a string of bytes: whatever the calls, none of them reads or writes
outside a chain, and each answers as a string of bytes may. -/
theorem evbuffer_refines_bytes (cs : List EvbufferCall) :
    ∃ rs buf s, evbufferNew.calls cs = some (rs, buf) ∧ Bytes.empty.AllowsAll cs rs s ∧
      buf.Holds s ∧ evbufferGetLength buf = s.contents.length := by
  obtain ⟨rs, buf, s, hcalls, hall, h⟩ := holds_new.calls cs
  exact ⟨rs, buf, s, hcalls, hall, h, by rw [evbufferGetLength, h.sound.total, h.contents]⟩

end VmpSa.Event
