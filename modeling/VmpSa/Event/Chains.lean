import Mathlib.Algebra.Order.Ring.Nat
import VmpSa.Lib.Loop
import VmpSa.Lib.Memory

/-!
# The chains of an input buffer

An `evbuffer` of `common/libevent/buffer.c` keeps its bytes in a list of chains.  A
chain is one allocation: `misalign` bytes that are used up, `off` bytes of data, and
room.  The walks over the chains are here: copying bytes out, dropping bytes at the
front, finding room for bytes that come from a socket, and adding these.

No chain is pinned or immutable: such chains come from files, from references to other
memory and from overlapped reads, which the program does not use.  A read or a write
outside the memory of a chain, a missing chain and an assertion that fails have no
result.  What `mm_malloc` leaves in a block is taken to be zero; only bytes that have
been written are ever copied out (`Chain.data`).
-/

namespace VmpSa.Event

/-! ## One chain -/

/-- `struct evbuffer_chain`.  The length of `buffer` is `buffer_len`. -/
structure Chain where
  buffer : List UInt8
  misalign : Nat
  off : Nat
deriving Repr, DecidableEq

/-- `EVBUFFER_CHAIN_MAX` and `EV_SSIZE_MAX` -/
def evbufferChainMax : Nat := 9223372036854775807

/-- `EVBUFFER_CHAIN_SIZE`, the size of the structure on a 64-bit target -/
def evbufferChainSize : Nat := 48

def minBufferSize : Nat := 1024

/-- `CHAIN_SPACE_LEN` -/
def Chain.spaceLen (c : Chain) : Nat := c.buffer.length - (c.misalign + c.off)

/-- One pass of the loop that doubles `to_alloc`; the state counts the passes. -/
def toAllocPass (size n : Nat) : Loop.Pass Nat Nat :=
  if minBufferSize * 2 ^ n < size then .again (n + 1) else .leave (minBufferSize * 2 ^ n)

theorem toAllocPass_decreases (size : Nat) :
    Loop.Decreases (toAllocPass size) (fun n => size - minBufferSize * 2 ^ n) := by
  intro n n' h
  rw [toAllocPass] at h
  split at h
  next hlt =>
    cases h
    have hpos : 0 < minBufferSize * 2 ^ n := Nat.mul_pos (by decide) (Nat.two_pow_pos n)
    have hdouble : minBufferSize * 2 ^ (n + 1) = minBufferSize * 2 ^ n * 2 := by
      rw [Nat.pow_succ, Nat.mul_assoc]
    simp only [hdouble]
    omega
  · cases h

/-- The size `evbuffer_chain_new` asks for. -/
def toAlloc (size : Nat) : Nat :=
  if size < evbufferChainMax / 2 then
    Loop.exec (toAllocPass size) (fun n => size - minBufferSize * 2 ^ n)
      (toAllocPass_decreases size) 0
  else size

def evbufferChainNew (malloc : Bool) (size : Nat) : Option Chain :=
  if size > evbufferChainMax - evbufferChainSize then none
  else if malloc then
    some
      { buffer := List.replicate (toAlloc (size + evbufferChainSize) - evbufferChainSize) 0
        misalign := 0
        off := 0 }
  else none

/-- `memcpy` to the end of the data. -/
def Chain.add (c : Chain) (x : List UInt8) : Option Chain :=
  (Block.write c.buffer (c.misalign + c.off) x).map fun buffer =>
    { c with buffer := buffer, off := c.off + x.length }

/-- `evbuffer_chain_should_realign`; 2048 is `MAX_TO_REALIGN_IN_EXPAND`. -/
def Chain.shouldRealign (c : Chain) (datlen : Nat) : Bool :=
  datlen ≤ c.buffer.length - c.off ∧ c.off < c.buffer.length / 2 ∧ c.off ≤ 2048

/-- `evbuffer_chain_align` -/
def Chain.align (c : Chain) : Option Chain :=
  (Block.move c.buffer 0 c.misalign c.off).map fun buffer =>
    { c with buffer := buffer, misalign := 0 }

/-! ## Walks over the chains -/

/-- The loop of `evbuffer_copyout_from`. -/
def copyChains : List Chain → Nat → Option (List UInt8)
  | [], datlen => if datlen = 0 then some [] else none
  | chain :: chains, datlen =>
      if datlen = 0 then some []
      else if chain.off ≤ datlen then
        (Block.read chain.buffer chain.misalign chain.off).bind fun x =>
        (copyChains chains (datlen - chain.off)).map fun y => x ++ y
      else Block.read chain.buffer chain.misalign datlen

/-- The loop of `evbuffer_drain`, at the chain in the place `j`.  `last` is the place of the
link `last_with_datap` points to: 0 for `first`, and `i + 1` for `next` of the chain in
the place `i`. -/
def dropChains : List Chain → (j last remaining : Nat) → Option (List Chain × Nat × Nat)
  | [], _, _, _ => none
  | chain :: chains, j, last, remaining =>
      if chain.off ≤ remaining then
        let last := if last = j then 0 else last
        let last := if last = j + 1 then 0 else last
        dropChains chains (j + 1) last (remaining - chain.off)
      else
        some ({ chain with
          misalign := chain.misalign + remaining
          off := chain.off - remaining } :: chains, j, last)

/-- How the first loop of `evbuffer_expand_fast_` ends. -/
structure Survey where
  chains : List Chain
  avail : Nat
  used : Nat
  /-- `avail >= datlen` -/
  enough : Bool

/-- The loop, from `*last_with_datap` on. -/
def survey (datlen n : Nat) : (front : Bool) → List Chain → (avail used : Nat) → Option Survey
  | _, [], avail, used => some { chains := [], avail := avail, used := used, enough := false }
  | front, chain :: chains, avail, used =>
      let space := chain.spaceLen
      if chain.off ≠ 0 ∧ front = false then none
      else
        let chain := if chain.off ≠ 0 then chain else { chain with misalign := 0 }
        let avail := if chain.off ≠ 0 then avail + space else avail + chain.buffer.length
        let used := if chain.off ≠ 0 ∧ space = 0 then used else used + 1
        if datlen ≤ avail then
          some { chains := chain :: chains, avail := avail, used := used, enough := true }
        else if used = n then
          some { chains := chain :: chains, avail := avail, used := used, enough := false }
        else
          (survey datlen n false chains avail used).map fun s =>
            { s with chains := chain :: s.chains }

/-- `evbuffer_read_setup_vecs_`: the lengths of the pieces. -/
def setupVecs : (n : Nat) → List Chain → (left : Nat) → Option (List Nat)
  | 0, _, _ => some []
  | _ + 1, [], left => if left = 0 then some [] else none
  | n + 1, chain :: chains, left =>
      if left = 0 then some []
      else
        let avail := min chain.spaceLen left
        (setupVecs n chains (left - avail)).map fun vecs => avail :: vecs

/-- What `readv` writes into the pieces. -/
def scatter : List Nat → List Chain → List UInt8 → Option (List Chain)
  | [], chains, _ => some chains
  | _ :: _, [], _ => none
  | len :: vecs, chain :: chains, x =>
      (Block.write chain.buffer (chain.misalign + chain.off) (x.take len)).bind fun buffer =>
      (scatter vecs chains (x.drop len)).map fun chains =>
        { chain with buffer := buffer } :: chains

/-- The loop at the end of `evbuffer_read`, over the chains from the link in the place
`chainp` on.  The last result is the new place of `last_with_datap`, if it is set. -/
def commit : (nvecs : Nat) → List Chain → (remaining chainp : Nat) →
    Option (List Chain × Option Nat)
  | 0, chains, _, _ => some (chains, none)
  | _ + 1, [], _, _ => none
  | nvecs + 1, chain :: chains, remaining, chainp =>
      let space := chain.spaceLen
      if space < remaining then
        (commit nvecs chains (remaining - space) (chainp + 1)).map fun r =>
          ({ chain with off := chain.off + space } :: r.1, r.2)
      else some ({ chain with off := chain.off + remaining } :: chains, some chainp)

/-! ## The data -/

/-- The bytes of data in a chain. -/
def Chain.data (c : Chain) : List UInt8 := (c.buffer.drop c.misalign).take c.off

/-- The data of some chains. -/
def dataOf (cs : List Chain) : List UInt8 := cs.flatMap Chain.data

/-- The data lies within the memory of the chain, and the chain is not larger than any
allocation. -/
structure Chain.Fits (c : Chain) : Prop where
  inside : c.misalign + c.off ≤ c.buffer.length
  size : c.buffer.length ≤ evbufferChainMax - evbufferChainSize

variable {c c' : Chain} {cs cs' : List Chain} {x : List UInt8} {n datlen size : Nat} {malloc : Bool}

@[simp] theorem dataOf_nil : dataOf [] = [] := rfl

@[simp] theorem dataOf_cons (c : Chain) (cs : List Chain) :
    dataOf (c :: cs) = c.data ++ dataOf cs :=
  rfl

@[simp] theorem dataOf_append (cs cs' : List Chain) :
    dataOf (cs ++ cs') = dataOf cs ++ dataOf cs' := List.flatMap_append

theorem Chain.Fits.length_data (h : c.Fits) : c.data.length = c.off := by
  have hinside := h.inside
  rw [Chain.data, List.length_take, List.length_drop]
  omega

theorem Chain.data_of_empty (h : c.off = 0) : c.data = [] := by
  rw [Chain.data, h, List.take_zero]

theorem dataOf_of_empty (h : ∀ c ∈ cs, c.off = 0) : dataOf cs = [] := by
  induction cs with
  | nil => rfl
  | cons c cs ih =>
      rw [dataOf_cons, Chain.data_of_empty (h c List.mem_cons_self),
        ih fun d hd => h d (List.mem_cons_of_mem c hd), List.nil_append]

/-! ## One chain: what the operations do -/

/-- The memory of a chain in its three parts. -/
theorem Chain.Fits.buffer_eq (h : c.Fits) :
    ∃ used room, used.length = c.misalign ∧ room.length = c.spaceLen ∧
      c.buffer = used ++ (c.data ++ room) := by
  have hinside := h.inside
  refine ⟨c.buffer.take c.misalign, (c.buffer.drop c.misalign).drop c.off, ?_, ?_, ?_⟩
  · rw [List.length_take]
    omega
  · rw [List.length_drop, List.length_drop, Chain.spaceLen]
    omega
  · rw [Chain.data, List.take_append_drop, List.take_append_drop]

/-- Bytes for which there is room are written behind the data. -/
theorem Chain.Fits.write (h : c.Fits) (hx : x.length ≤ c.spaceLen) :
    ∃ buffer, Block.write c.buffer (c.misalign + c.off) x = some buffer ∧
      buffer.length = c.buffer.length ∧
      ({ c with buffer := buffer, off := c.off + x.length } : Chain).Fits ∧
      ({ c with buffer := buffer, off := c.off + x.length } : Chain).data = c.data ++ x := by
  obtain ⟨used, room, hused, hroom, hbuffer⟩ := h.buffer_eq
  have hoff := h.length_data
  have hplace : c.misalign + c.off = (used ++ c.data).length := by
    rw [List.length_append, hused, hoff]
  have hwrite : Block.write c.buffer (c.misalign + c.off) x =
      some (used ++ c.data ++ (x ++ room.drop x.length)) := by
    rw [hplace, hbuffer, ← List.append_assoc]
    exact Block.write_append (by omega)
  have hlen := Block.length_of_write hwrite
  have hsize := h.size
  refine ⟨_, hwrite, hlen, ⟨?_, by rw [hlen]; exact hsize⟩, ?_⟩
  · simp only [List.length_append, List.length_drop]
    omega
  · have hsplit : used ++ c.data ++ (x ++ room.drop x.length) =
        used ++ ((c.data ++ x) ++ room.drop x.length) := by
      simp only [List.append_assoc]
    rw [hsplit, Chain.data, List.drop_left' hused,
      List.take_left' (by rw [List.length_append, hoff])]

theorem Chain.Fits.add (h : c.Fits) (hx : x.length ≤ c.spaceLen) :
    ∃ c', c.add x = some c' ∧ c'.Fits ∧ c'.data = c.data ++ x ∧ c'.off = c.off + x.length := by
  obtain ⟨buffer, hwrite, -, hfits, hdata⟩ := h.write hx
  exact ⟨_, by rw [Chain.add, hwrite, Option.map_some], hfits, hdata, rfl⟩

theorem Chain.Fits.align (h : c.Fits) :
    ∃ c', c.align = some c' ∧ c'.Fits ∧ c'.data = c.data ∧ c'.off = c.off ∧
      c'.spaceLen = c.buffer.length - c.off := by
  obtain ⟨used, room, hused, hroom, hbuffer⟩ := h.buffer_eq
  have hoff := h.length_data
  have hinside := h.inside
  have hread : Block.read c.buffer c.misalign c.off = some c.data := by
    rw [hbuffer, ← hused, ← hoff]
    exact Block.read_append
  have hwrite : Block.write c.buffer 0 c.data =
      some (c.data ++ c.buffer.drop c.data.length) := by
    rw [Block.write_of_le (by omega), Nat.zero_add, List.take_zero, List.nil_append]
  have hlen := Block.length_of_write hwrite
  have halign : c.align = some
      { c with buffer := c.data ++ c.buffer.drop c.data.length, misalign := 0 } := by
    rw [Chain.align, Block.move, hread, Option.bind_some, hwrite, Option.map_some]
  refine ⟨_, halign, ⟨?_, by rw [hlen]; exact h.size⟩, ?_, rfl, ?_⟩
  · simp only [hlen]
    omega
  · rw [Chain.data, List.drop_zero, List.take_left' hoff]
  · simp only [Chain.spaceLen, hlen]
    omega

/-- An empty chain begins again at the front of its memory. -/
theorem Chain.Fits.restart (h : c.Fits) :
    ({ c with misalign := 0, off := 0 } : Chain).Fits ∧
      ({ c with misalign := 0, off := 0 } : Chain).spaceLen = c.buffer.length := by
  refine ⟨⟨Nat.zero_le _, h.size⟩, ?_⟩
  simp [Chain.spaceLen]

theorem le_toAlloc (size : Nat) : size ≤ toAlloc size := by
  rw [toAlloc]
  split
  · refine Loop.exec_rule (toAllocPass_decreases size) (fun _ => True) (fun r => size ≤ r)
      (fun _ _ _ _ => trivial) (fun n r _ hr => ?_) 0 trivial
    rw [toAllocPass] at hr
    split at hr
    · cases hr
    · cases hr
      omega
  · exact Nat.le_refl size

/-- The loop stops before it has doubled twice too often. -/
theorem toAlloc_le (h : size ≤ evbufferChainMax) : toAlloc size ≤ evbufferChainMax := by
  rw [toAlloc]
  split
  next hlt =>
    refine Loop.exec_rule (toAllocPass_decreases size)
      (fun n => n = 0 ∨ minBufferSize * 2 ^ n < 2 * size) (fun r => r ≤ evbufferChainMax)
      (fun n n' hn hs => ?_) (fun n r hn hr => ?_) 0 (.inl rfl)
    · rw [toAllocPass] at hs
      split at hs
      next hmore =>
        cases hs
        right
        rw [Nat.pow_succ, ← Nat.mul_assoc]
        omega
      · cases hs
    · rw [toAllocPass] at hr
      split at hr
      · cases hr
      · cases hr
        rcases hn with rfl | hn
        · simp [minBufferSize, evbufferChainMax]
        · have hhalf : 2 * (evbufferChainMax / 2) ≤ evbufferChainMax := Nat.mul_div_le _ _
          omega
  · exact h

/-- A new chain is empty and has the room that was asked for. -/
theorem evbufferChainNew_some (h : evbufferChainNew malloc size = some c) :
    c.Fits ∧ c.off = 0 ∧ c.spaceLen = c.buffer.length ∧ size ≤ c.buffer.length := by
  rw [evbufferChainNew] at h
  split at h
  · cases h
  next hmax =>
    split at h
    · cases h
      have hle := le_toAlloc (size + evbufferChainSize)
      have hsize : size + evbufferChainSize ≤ evbufferChainMax := by
        simp only [evbufferChainMax, evbufferChainSize] at hmax ⊢
        omega
      have hupper := toAlloc_le hsize
      refine ⟨⟨?_, ?_⟩, rfl, ?_, ?_⟩
      · simp
      · rw [List.length_replicate]
        omega
      · simp [Chain.spaceLen]
      · rw [List.length_replicate]
        omega
    · cases h

/-- It is refused by the allocator, or when it is larger than any allocation. -/
theorem evbufferChainNew_none (h : evbufferChainNew malloc size = none) :
    malloc = false ∨ evbufferChainMax - evbufferChainSize < size := by
  rw [evbufferChainNew] at h
  split at h
  next hmax => exact .inr hmax
  · split at h
    · cases h
    next hm => exact .inl (Bool.not_eq_true _ ▸ hm)

/-! ## The walks: what they do -/

/-- The beginning of the data is copied out. -/
theorem copyChains_eq (hfit : ∀ c ∈ cs, c.Fits) (hn : n ≤ (dataOf cs).length) :
    copyChains cs n = some ((dataOf cs).take n) := by
  induction cs generalizing n with
  | nil =>
      rw [dataOf_nil, List.length_nil] at hn
      rw [copyChains, if_pos (by omega), dataOf_nil, List.take_nil]
  | cons c cs ih =>
      have hc := hfit c List.mem_cons_self
      have hoff := hc.length_data
      have hinside := hc.inside
      rw [dataOf_cons, List.length_append] at hn
      rw [copyChains, dataOf_cons]
      split
      next h0 => rw [h0, List.take_zero]
      · split
        next hle =>
          have hread : Block.read c.buffer c.misalign c.off = some c.data := by
            rw [Block.read, if_pos hinside, Chain.data]
          have htail : copyChains cs (n - c.off) = some ((dataOf cs).take (n - c.off)) :=
            ih (fun d hd => hfit d (List.mem_cons_of_mem c hd)) (by omega)
          rw [hread, Option.bind_some, htail, Option.map_some, List.take_append, hoff,
            List.take_of_length_le (show c.data.length ≤ n by omega)]
        next hlt =>
          rw [Block.read, if_pos (by omega), List.take_append_of_le_length (by omega), Chain.data,
            List.take_take, Nat.min_eq_left (by omega)]

/-- Dropping the first bytes of a chain. -/
theorem Chain.Fits.drop (h : c.Fits) (hn : n ≤ c.off) :
    ({ c with misalign := c.misalign + n, off := c.off - n } : Chain).Fits ∧
      ({ c with misalign := c.misalign + n, off := c.off - n } : Chain).data = c.data.drop n := by
  have hinside := h.inside
  refine ⟨⟨?_, h.size⟩, ?_⟩
  · simp only
    omega
  · simp only [Chain.data, List.drop_take, List.drop_drop]

/-- The beginning of the data is dropped, and `last_with_datap` stays at its chain. -/
theorem dropChains_spec {front back : List Chain} {j last : Nat}
    (hfit : ∀ d ∈ front ++ c :: back, d.Fits) (hback : ∀ d ∈ back, d.off = 0)
    (hoff : c.off ≠ 0) (hlast : last = j + front.length ∨ front = [] ∧ last = 0)
    (hn : n < (dataOf (front ++ c :: back)).length) :
    ∃ front' c' j' last', dropChains (front ++ c :: back) j last n =
        some (front' ++ c' :: back, j', last') ∧ last' - j' = front'.length ∧
      j' + front'.length = j + front.length ∧ c'.off ≠ 0 ∧
      (∀ d ∈ front' ++ c' :: back, d.Fits) ∧
      dataOf (front' ++ c' :: back) = (dataOf (front ++ c :: back)).drop n := by
  induction front generalizing j last n with
  | nil =>
      have hc := hfit c List.mem_cons_self
      have hlen := hc.length_data
      rw [List.nil_append, dataOf_cons, dataOf_of_empty hback, List.append_nil, hlen] at hn
      obtain ⟨hfits, hdata⟩ := hc.drop (Nat.le_of_lt hn)
      refine ⟨[], { c with misalign := c.misalign + n, off := c.off - n }, j, last, ?_, ?_, rfl,
        ?_, ?_, ?_⟩
      · rw [List.nil_append, dropChains, if_neg (by omega)]
        rfl
      · rcases hlast with rfl | ⟨-, rfl⟩ <;> simp
      · simp only
        omega
      · exact List.forall_mem_cons.mpr ⟨hfits, fun d hd => hfit d (List.mem_cons_of_mem c hd)⟩
      · simp only [List.nil_append, dataOf_cons, hdata, dataOf_of_empty hback, List.append_nil]
  | cons e front ih =>
      have he := hfit e List.mem_cons_self
      have hlen := he.length_data
      have hfit' : ∀ d ∈ front ++ c :: back, d.Fits := fun d hd =>
        hfit d (List.mem_cons_of_mem e hd)
      have hlast : last = j + (front.length + 1) := hlast.resolve_right fun h => by cases h.1
      rw [List.cons_append, dataOf_cons, List.length_append] at hn
      rw [List.cons_append, dropChains]
      by_cases hle : e.off ≤ n
      · -- the chain is freed; the link that leads on is `last_with_datap` or not
        have hlink : (if (if last = j then 0 else last) = j + 1 then 0
            else if last = j then 0 else last) = j + 1 + front.length ∨
            front = [] ∧ (if (if last = j then 0 else last) = j + 1 then 0
            else if last = j then 0 else last) = 0 := by
          rw [if_neg (show last ≠ j by omega)]
          cases front with
          | nil => exact .inr ⟨rfl, if_pos (by rw [hlast]; rfl)⟩
          | cons f front =>
              rw [List.length_cons] at hlast
              rw [if_neg (by omega), hlast, List.length_cons]
              exact .inl (by omega)
        obtain ⟨front', c', j', last', hdrop, hplace, hsum, hoff', hfits, hdata⟩ :=
          ih hfit' hlink (show n - e.off < _ by omega)
        refine ⟨front', c', j', last', ?_, hplace, ?_, hoff', hfits, ?_⟩
        · rw [if_pos hle]
          exact hdrop
        · rw [hsum, List.length_cons]
          omega
        · rw [hdata, dataOf_cons, List.drop_append,
            List.drop_eq_nil_of_le (show e.data.length ≤ n by omega), hlen, List.nil_append]
      · obtain ⟨hfits, hdata⟩ := he.drop (show n ≤ e.off by omega)
        refine ⟨{ e with misalign := e.misalign + n, off := e.off - n } :: front, c, j, last,
          ?_, ?_,
          rfl, hoff, ?_, ?_⟩
        · rw [if_neg hle]
          rfl
        · rw [hlast, List.length_cons]
          omega
        · exact List.forall_mem_cons.mpr ⟨hfits, hfit'⟩
        · rw [List.cons_append, dataOf_cons, dataOf_cons, hdata,
            List.drop_append_of_le_length (by omega)]

/-! ## Room for bytes from a socket -/

/-- The room in some chains. -/
def spaceOf (cs : List Chain) : Nat := (cs.map Chain.spaceLen).sum

@[simp] theorem spaceOf_nil : spaceOf [] = 0 := rfl

@[simp] theorem spaceOf_cons (c : Chain) (cs : List Chain) :
    spaceOf (c :: cs) = c.spaceLen + spaceOf cs := rfl

@[simp] theorem spaceOf_append (cs cs' : List Chain) :
    spaceOf (cs ++ cs') = spaceOf cs + spaceOf cs' := by
  simp [spaceOf]

/-- The chains from the first one on that has room. -/
def withRoom : List Chain → List Chain
  | [] => []
  | c :: cs => if c.spaceLen = 0 then cs else c :: cs

theorem spaceOf_withRoom (cs : List Chain) : spaceOf (withRoom cs) = spaceOf cs := by
  cases cs with
  | nil => rfl
  | cons c cs =>
      rw [withRoom]
      split
      next h => rw [spaceOf_cons, h, Nat.zero_add]
      · rfl

/-- The loop behind its first round, over empty chains. -/
theorem survey_back {back : List Chain} {avail used : Nat} (hfit : ∀ d ∈ back, d.Fits)
    (hback : ∀ d ∈ back, d.off = 0) (havail : avail < datlen) (hused : used < n) :
    ∃ s, survey datlen n false back avail used = some s ∧
      (∀ d ∈ s.chains, d.Fits ∧ d.off = 0) ∧ s.chains.length = back.length ∧ avail ≤ s.avail ∧
      (s.enough = true → ∃ m, used + m ≤ n ∧ datlen ≤ avail + spaceOf (s.chains.take m)) ∧
      (s.enough = false → s.avail < datlen ∧
        (s.used < n → s.avail = avail + spaceOf s.chains ∧ s.used = used + s.chains.length)) := by
  induction back generalizing avail used with
  | nil =>
      refine ⟨{ chains := [], avail := avail, used := used, enough := false }, rfl, ?_, rfl,
        Nat.le_refl avail, fun h => absurd h (by simp), fun _ => ⟨havail, fun _ => ⟨rfl, rfl⟩⟩⟩
      intro d hd
      cases hd
  | cons c back ih =>
      have hoff := hback c List.mem_cons_self
      obtain ⟨hc, hspace⟩ := (hfit c List.mem_cons_self).restart
      have hfit' : ∀ d ∈ back, d.Fits := fun d hd => hfit d (List.mem_cons_of_mem c hd)
      have hback' : ∀ d ∈ back, d.off = 0 := fun d hd => hback d (List.mem_cons_of_mem c hd)
      simp only [survey, hoff, ne_eq, not_true, false_and, if_false]
      have hall' : ∀ d ∈ { c with misalign := 0, off := 0 } :: back, d.Fits ∧ d.off = 0 :=
        List.forall_mem_cons.mpr ⟨⟨hc, rfl⟩, fun d hd => ⟨hfit' d hd, hback' d hd⟩⟩
      by_cases henough : datlen ≤ avail + c.buffer.length
      · rw [if_pos henough]
        refine ⟨_, rfl, hall', rfl, Nat.le_add_right _ _, fun _ => ⟨1, hused, ?_⟩,
          fun h => absurd h (by simp)⟩
        simp only [List.take_succ_cons, List.take_zero, spaceOf_cons, spaceOf_nil, hspace]
        omega
      · rw [if_neg henough]
        by_cases hfull : used + 1 = n
        · rw [if_pos hfull]
          refine ⟨_, rfl, hall', rfl, Nat.le_add_right _ _, fun h => absurd h (by simp),
            fun _ => ⟨Nat.lt_of_not_le henough, fun h => ?_⟩⟩
          simp only at h
          omega
        · rw [if_neg hfull]
          obtain ⟨s, hs, hall, hlen, hle, hyes, hno⟩ :=
            ih hfit' hback' (show avail + c.buffer.length < datlen by omega)
              (show used + 1 < n by omega)
          rw [hs, Option.map_some]
          refine ⟨_, rfl, List.forall_mem_cons.mpr ⟨⟨hc, rfl⟩, hall⟩, ?_, ?_, fun h => ?_,
            fun h => ?_⟩
          · simp only [List.length_cons, hlen]
          · simp only
            omega
          · obtain ⟨m, hm, hroom⟩ := hyes h
            refine ⟨m + 1, by omega, ?_⟩
            simp only [List.take_succ_cons, spaceOf_cons, hspace]
            omega
          · obtain ⟨hlt, hrest⟩ := hno h
            refine ⟨hlt, fun hu => ?_⟩
            obtain ⟨ha, hu'⟩ := hrest hu
            simp only [spaceOf_cons, hspace, List.length_cons] at ha hu' ⊢
            omega

theorem spaceOf_take_le (cs : List Chain) {m k : Nat} (h : m ≤ k) :
    spaceOf (cs.take m) ≤ spaceOf (cs.take k) := by
  obtain ⟨t, ht⟩ := List.take_prefix_take_left h (l := cs)
  rw [← ht, spaceOf_append]
  exact Nat.le_add_right _ _

/-- The first round of the loop. -/
theorem survey_cons (back : List Chain) (hc : c.Fits) :
    ∃ c' used, survey datlen n true (c :: back) 0 0 =
        (if datlen ≤ c'.spaceLen then
          some { chains := c' :: back, avail := c'.spaceLen, used := used, enough := true }
        else if used = n then
          some { chains := c' :: back, avail := c'.spaceLen, used := used, enough := false }
        else
          (survey datlen n false back c'.spaceLen used).map fun s =>
            { s with chains := c' :: s.chains }) ∧
      c'.Fits ∧ c'.data = c.data ∧ c'.off = c.off ∧ used ≤ 1 ∧ (c'.spaceLen ≠ 0 → used = 1) := by
  by_cases hoff : c.off = 0
  · obtain ⟨hfits, hspace⟩ := hc.restart
    refine ⟨{ c with misalign := 0, off := 0 }, 1, ?_, hfits, ?_, hoff.symm, Nat.le_refl 1,
      fun _ => rfl⟩
    · rw [hspace]
      simp [survey, hoff]
    · rw [Chain.data_of_empty rfl, Chain.data_of_empty hoff]
  · refine ⟨c, if c.spaceLen = 0 then 0 else 1, ?_, hc, rfl, rfl, ?_, fun h => if_neg h⟩
    · simp [survey, hoff]
    · split
      · exact Nat.zero_le 1
      · exact Nat.le_refl 1

/-- What the loop finds: enough room in the first chains that have some, or all the room
there is in less than `n` of them. -/
theorem survey_spec {back : List Chain} (datlen : Nat) (hc : c.Fits) (hfit : ∀ d ∈ back, d.Fits)
    (hback : ∀ d ∈ back, d.off = 0) (hn : 2 ≤ n) :
    ∃ s c' back', survey datlen n true (c :: back) 0 0 = some s ∧ s.chains = c' :: back' ∧
      c'.Fits ∧ c'.data = c.data ∧ c'.off = c.off ∧ (∀ d ∈ back', d.Fits ∧ d.off = 0) ∧
      back'.length = back.length ∧
      (s.enough = true → datlen ≤ spaceOf ((withRoom (c' :: back')).take n)) ∧
      (s.enough = false → s.avail < datlen ∧ c'.spaceLen ≤ s.avail ∧
        (s.used < n → s.avail = spaceOf (c' :: back') ∧
          (withRoom (c' :: back')).length ≤ s.used)) := by
  obtain ⟨c', used, hstep, hc', hdata, hoff, hused, hspace⟩ := survey_cons back hc
  rw [hstep]
  by_cases henough : datlen ≤ c'.spaceLen
  · refine ⟨_, c', back, if_pos henough, rfl, hc', hdata, hoff,
      fun d hd => ⟨hfit d hd, hback d hd⟩, rfl, fun _ => ?_, fun h => absurd h (by simp)⟩
    rw [withRoom]
    split
    · omega
    · rw [show n = n - 1 + 1 by omega, List.take_succ_cons, spaceOf_cons]
      omega
  · obtain ⟨s, hs, hall, hlen, hle, hyes, hno⟩ :=
      survey_back hfit hback (Nat.lt_of_not_le henough) (show used < n by omega)
    rw [if_neg henough, if_neg (by omega), hs, Option.map_some]
    refine ⟨_, c', s.chains, rfl, rfl, hc', hdata, hoff, hall, hlen, fun h => ?_, fun h => ?_⟩
    · obtain ⟨m, hm, hroom⟩ := hyes h
      rw [withRoom]
      split
      next h0 =>
        have hmono := spaceOf_take_le s.chains (show m ≤ n by omega)
        omega
      next h0 =>
        have hone := hspace h0
        have hmono := spaceOf_take_le s.chains (show m ≤ n - 1 by omega)
        rw [show n = n - 1 + 1 by omega, List.take_succ_cons, spaceOf_cons]
        omega
    · obtain ⟨hlt, hrest⟩ := hno h
      refine ⟨hlt, hle, fun hu => ?_⟩
      obtain ⟨havail, hu'⟩ := hrest hu
      refine ⟨by rw [spaceOf_cons, ← havail], ?_⟩
      rw [withRoom]
      simp only
      split
      · omega
      next h0 =>
        have hone := hspace h0
        rw [List.length_cons]
        omega

/-! ## Bytes from a socket -/

/-- The pieces take just the room that is asked for. -/
theorem setupVecs_eq {left : Nat} (hleft : left ≤ spaceOf (cs.take n)) :
    ∃ vecs, setupVecs n cs left = some vecs ∧ vecs.sum = left := by
  induction n generalizing cs left with
  | zero =>
      rw [List.take_zero, spaceOf_nil] at hleft
      exact ⟨[], rfl, by simp; omega⟩
  | succ n ih =>
      cases cs with
      | nil =>
          rw [List.take_nil, spaceOf_nil] at hleft
          exact ⟨[], by rw [setupVecs, if_pos (by omega)], by simp; omega⟩
      | cons c cs =>
          rw [List.take_succ_cons, spaceOf_cons] at hleft
          rw [setupVecs]
          split
          next h0 => exact ⟨[], rfl, h0.symm⟩
          · obtain ⟨vecs, hvecs, hsum⟩ :=
              ih (show left - min c.spaceLen left ≤ spaceOf (cs.take n) by omega)
            refine ⟨min c.spaceLen left :: vecs, by simp only [hvecs, Option.map_some], ?_⟩
            rw [List.sum_cons, hsum]
            omega

/-- Nothing is written when nothing is read. -/
theorem scatter_nil {vecs : List Nat} {left : Nat} (hfit : ∀ c ∈ cs, c.Fits)
    (hvecs : setupVecs n cs left = some vecs) : scatter vecs cs [] = some cs := by
  induction n generalizing cs left vecs with
  | zero =>
      cases hvecs
      rfl
  | succ n ih =>
      cases cs with
      | nil =>
          rw [setupVecs] at hvecs
          split at hvecs
          · cases hvecs
            rfl
          · cases hvecs
      | cons c cs =>
          rw [setupVecs] at hvecs
          split at hvecs
          · cases hvecs
            rfl
          · obtain ⟨vecs, hrest, rfl⟩ := Option.map_eq_some_iff.mp hvecs
            have hinside := (hfit c List.mem_cons_self).inside
            have hwrite : Block.write c.buffer (c.misalign + c.off) [] = some c.buffer := by
              rw [Block.write_of_le hinside, List.append_nil, List.length_nil, Nat.add_zero,
                List.take_append_drop]
            rw [scatter, List.take_nil, hwrite, Option.bind_some, List.drop_nil,
              ih (fun d hd => hfit d (List.mem_cons_of_mem c hd)) hrest, Option.map_some]

/-- What the loop at the end makes of the chains: the bytes stand behind the data, and
`last_with_datap` is at the last chain they have reached. -/
def Committed (nvecs : Nat) (cs₁ cs : List Chain) (x : List UInt8) : Prop :=
  ∀ k, ∃ pre d post,
    commit nvecs cs₁ x.length k = some (pre ++ d :: post, some (k + pre.length)) ∧
      d.off ≠ 0 ∧ (∀ e ∈ post, e.off = 0) ∧ (∀ e ∈ pre ++ d :: post, e.Fits) ∧
      pre.length + post.length + 1 = cs.length ∧
      dataOf (pre ++ d :: post) = dataOf cs ++ x

/-- The chain takes all the bytes. -/
theorem committed_last {buffer : List UInt8} {nvecs : Nat} (hfit : ∀ d ∈ cs, d.Fits)
    (hempty : ∀ d ∈ cs, d.off = 0) (hx : x ≠ []) (hroom : x.length ≤ c.spaceLen)
    (hsame : buffer.length = c.buffer.length)
    (hfits : ({ c with buffer := buffer, off := c.off + x.length } : Chain).Fits)
    (hdata : ({ c with buffer := buffer, off := c.off + x.length } : Chain).data = c.data ++ x) :
    Committed (nvecs + 1) ({ c with buffer := buffer } :: cs) (c :: cs) x := by
  intro k
  have hpos := List.length_pos_iff.mpr hx
  have hspace : ({ c with buffer := buffer } : Chain).spaceLen = c.spaceLen := by
    simp only [Chain.spaceLen, hsame]
  refine ⟨[], { c with buffer := buffer, off := c.off + x.length }, cs, ?_, ?_, hempty,
    List.forall_mem_cons.mpr ⟨hfits, hfit⟩, ?_, ?_⟩
  · rw [commit]
    simp only [hspace]
    rw [if_neg (by omega)]
    rfl
  · simp only
    omega
  · simp
  · rw [List.nil_append, dataOf_cons, hdata, dataOf_cons, dataOf_of_empty hempty,
      List.append_nil, List.append_nil]

/-- It is filled, and the rest goes to the chains behind it. -/
theorem Committed.cons {cs₁ : List Chain} {buffer : List UInt8} {nvecs : Nat}
    (h : Committed nvecs cs₁ cs (x.drop c.spaceLen)) (hempty : ∀ d ∈ cs, d.off = 0)
    (hroom : c.spaceLen < x.length) (hsame : buffer.length = c.buffer.length)
    (hfits : ({ c with buffer := buffer, off := c.off + c.spaceLen } : Chain).Fits)
    (hdata : ({ c with buffer := buffer, off := c.off + c.spaceLen } : Chain).data =
      c.data ++ x.take c.spaceLen) :
    Committed (nvecs + 1) ({ c with buffer := buffer } :: cs₁) (c :: cs) x := by
  intro k
  obtain ⟨pre, d, post, heq, hoff, hpost, hall, hcount, hdata'⟩ := h (k + 1)
  have hspace : ({ c with buffer := buffer } : Chain).spaceLen = c.spaceLen := by
    simp only [Chain.spaceLen, hsame]
  refine ⟨{ c with buffer := buffer, off := c.off + c.spaceLen } :: pre, d, post, ?_, hoff, hpost,
    List.forall_mem_cons.mpr ⟨hfits, hall⟩, ?_, ?_⟩
  · have hleftover : x.length - c.spaceLen = (x.drop c.spaceLen).length := List.length_drop.symm
    rw [commit]
    simp only [hspace]
    rw [if_pos hroom, hleftover, heq, Option.map_some, List.length_cons, Nat.add_assoc,
      Nat.add_comm 1]
    rfl
  · simp only [List.length_cons]
    omega
  · rw [List.cons_append, dataOf_cons, hdata, hdata', dataOf_cons, dataOf_of_empty hempty,
      List.nil_append, List.append_nil, List.append_assoc, List.take_append_drop]

/-- The bytes that have been read are written behind the data and committed.  The induction is
on the chains `readv` may use. -/
theorem scatter_commit {vecs : List Nat} {left : Nat} (hfit : ∀ c ∈ cs, c.Fits)
    (hempty : ∀ c ∈ cs.tail, c.off = 0) (hvecs : setupVecs n cs left = some vecs)
    (hx : x ≠ []) (hlen : x.length ≤ left) (hleft : left ≤ spaceOf (cs.take n)) :
    ∃ cs₁, scatter vecs cs x = some cs₁ ∧ Committed vecs.length cs₁ cs x := by
  induction n generalizing cs left vecs x with
  | zero =>
      rw [List.take_zero, spaceOf_nil] at hleft
      exact absurd (List.length_eq_zero_iff.mp (by omega)) hx
  | succ n ih =>
      have hpos := List.length_pos_iff.mpr hx
      cases cs with
      | nil =>
          rw [List.take_nil, spaceOf_nil] at hleft
          omega
      | cons c cs =>
          have hc := hfit c List.mem_cons_self
          have hfit' : ∀ d ∈ cs, d.Fits := fun d hd => hfit d (List.mem_cons_of_mem c hd)
          rw [List.tail_cons] at hempty
          rw [List.take_succ_cons, spaceOf_cons] at hleft
          rw [setupVecs, if_neg (by omega)] at hvecs
          obtain ⟨vecs, hrest, rfl⟩ := Option.map_eq_some_iff.mp hvecs
          rw [scatter]
          by_cases hroom : x.length ≤ c.spaceLen
          · obtain ⟨buffer, hwrite, hsame, hfits, hdata⟩ := hc.write hroom
            have htake : x.take (min c.spaceLen left) = x := List.take_of_length_le (by omega)
            have hdrop : x.drop (min c.spaceLen left) = [] := List.drop_eq_nil_of_le (by omega)
            rw [htake, hdrop, hwrite, Option.bind_some, scatter_nil hfit' hrest, Option.map_some]
            exact ⟨_, rfl, committed_last hfit' hempty hx hroom hsame hfits hdata⟩
          · have hmin : min c.spaceLen left = c.spaceLen := by omega
            have htake : (x.take c.spaceLen).length = c.spaceLen := by
              rw [List.length_take]
              omega
            obtain ⟨buffer, hwrite, hsame, hfits, hdata⟩ :=
              hc.write (x := x.take c.spaceLen) (by omega)
            have hmore : x.drop c.spaceLen ≠ [] := by
              intro hnil
              have hzero := congrArg List.length hnil
              rw [List.length_drop, List.length_nil] at hzero
              omega
            have hempty' : ∀ d ∈ cs.tail, d.off = 0 := fun d hd =>
              hempty d (List.mem_of_mem_tail hd)
            rw [hmin] at hrest ⊢
            rw [htake] at hfits hdata
            obtain ⟨cs₁, hscatter, hcommit⟩ := ih hfit' hempty' hrest hmore
              (by rw [List.length_drop]; omega) (by omega)
            rw [hwrite, Option.bind_some, hscatter, Option.map_some]
            exact ⟨_, rfl, hcommit.cons hempty (by omega) hsame hfits hdata⟩

end VmpSa.Event
