import Mathlib.Data.UInt
import VmpSa.Lib.System
import VmpSa.Lib.Table

/-!
# The dictionary of the configuration

`common/utils/dictionary.c` keeps string/string pairs in three arrays of one size:
`iniparser` loads the configuration of the server into it.  A key is found by a
search from the front that compares stored hashes first, a new key goes to the first
free slot from slot `n` on, round the end, and a full dictionary doubles its arrays.

A string is the list of its bytes, without the NUL.  `NULL` is `none`.  The three
arrays are one list of entries; what `dictionary_new` returns when it has not got them
all is kept apart (`Created.torn`).

`Dictionary.Sound` is what every call keeps, whichever of its allocations fail.  Then
the hashes and the places of the keys do not matter: `dictionary_refines_store` says
that a dictionary behaves as the store it stands for, a partial map from keys to values
with a count of the slots taken and a capacity, whatever calls it has seen.
-/

namespace VmpSa.Conf

/-- A string, up to its NUL. -/
abbrev Str : Type := List UInt8

/-! ## The model -/

/-- `d->key[i]`, `d->val[i]` and `d->hash[i]`. -/
structure Entry where
  key : Option Str
  val : Option Str
  hash : UInt32
  deriving DecidableEq, Repr

/-- An entry fresh from `calloc`. -/
def Entry.empty : Entry where
  key := none
  val := none
  hash := 0

/-- `dictionary`; `size` is the length of the arrays. -/
structure Dictionary where
  n : Nat
  entries : List Entry
  deriving DecidableEq, Repr

def Dictionary.size (d : Dictionary) : Nat := d.entries.length

/-- `DICTMINSZ` -/
def dictMinSz : Nat := 128

/-- Which allocations of a call succeed: those of `dictionary_grow`, and the copies of
the key and of the value. -/
structure Allocations where
  grow : Bool
  key : Bool
  val : Bool
  deriving DecidableEq, Repr

/-- `(unsigned)key[i]`: `char` is signed. -/
def charToUnsigned (c : UInt8) : UInt32 :=
  if c < 128 then c.toUInt32 else c.toUInt32 ||| (0xFFFFFF00 : UInt32)

/-- The loop body of `dictionary_hash`. -/
def hashChar (hash : UInt32) (c : UInt8) : UInt32 :=
  let hash := hash + charToUnsigned c
  let hash := hash + (hash <<< (10 : UInt32))
  hash ^^^ (hash >>> (6 : UInt32))

/-- `dictionary_hash` -/
def dictionaryHash (key : Str) : UInt32 :=
  let hash := key.foldl hashChar 0
  let hash := hash + (hash <<< (3 : UInt32))
  let hash := hash ^^^ (hash >>> (11 : UInt32))
  hash + (hash <<< (15 : UInt32))

/-- Which allocations of `dictionary_new` succeed: that of the structure, and those of its
arrays. -/
structure NewAllocations where
  dict : Bool
  val : Bool
  key : Bool
  hash : Bool
  deriving DecidableEq, Repr

/-- A dictionary whose arrays are fresh from `calloc`. -/
def Dictionary.fresh (size : Nat) : Dictionary where
  n := 0
  entries := List.replicate (if size < dictMinSz then dictMinSz else size) .empty

/-- What `dictionary_new` returns.  It looks at the allocation of the structure only: an
array may be NULL, and such a dictionary stays without an entry. -/
inductive Created where
  | whole (d : Dictionary)
  | torn (mem : NewAllocations)
  deriving DecidableEq, Repr

/-- `dictionary_new` -/
def dictionaryNew (size : Nat) (mem : NewAllocations) : Option Created :=
  if mem.dict then
    some (if mem.val && mem.key && mem.hash then .whole (.fresh size) else .torn mem)
  else none

/-- The test of the search loops: first the hashes, then the strings. -/
def Entry.holds (e : Entry) (hash : UInt32) (key : Str) : Bool :=
  match e.key with
  | none => false
  | some k => hash = e.hash && key = k

/-- The search loop: the number of the entry with the key. -/
def Dictionary.find (d : Dictionary) (key : Str) : Option Nat :=
  d.entries.findIdx? (Entry.holds · (dictionaryHash key) key)

/-- `dictionary_get`.  The default is whatever the caller tells apart. -/
def dictionaryGet {P : Type} (d : Dictionary) (key : Str) (found : Option Str → P) (default : P) :
    P :=
  match d.find key with
  | none => default
  | some i =>
      match d.entries[i]? with
      | none => default
      | some e => found e.val

/-- `dictionary_grow` when its allocations succeed. -/
def Dictionary.grow (d : Dictionary) : Dictionary :=
  { d with entries := d.entries ++ List.replicate d.size .empty }

/-- `xstrdup`, when the allocation succeeds. -/
def xstrdup (granted : Bool) (s : Str) : Option Str := if granted then some s else none

/-- The loop that looks for an empty slot, from slot `n` on. -/
def Dictionary.probe (d : Dictionary) : Option Nat :=
  Loop.run (Table.probeBody (fun i => (d.entries[i]?.bind Entry.key).isNone) d.size) d.size d.n

/-- The end of `dictionary_set`: a new entry.  `none` when the loop does not end. -/
def Dictionary.insert (d : Dictionary) (key : Str) (val : Option Str) (mem : Allocations) :
    Option (Dictionary × Int) :=
  match d.probe with
  | none => none
  | some i =>
      some
        ({ n := d.n + 1
           entries := d.entries.set i
            { key := xstrdup mem.key key
              val := val.bind (xstrdup mem.val)
              hash := dictionaryHash key } },
          0)

/-- `dictionary_set` for a key that is not there. -/
def Dictionary.add (d : Dictionary) (key : Str) (val : Option Str) (mem : Allocations) :
    Option (Dictionary × Int) :=
  if d.n = d.size then if mem.grow then d.grow.insert key val mem else some (d, -1)
  else d.insert key val mem

/-- The entry with another value. -/
def Entry.rebind (val : Option Str) (e : Entry) : Entry := { e with val := val }

/-- `dictionary_set`: the dictionary and the return value. -/
def dictionarySet (d : Dictionary) (key : Option Str) (val : Option Str) (mem : Allocations) :
    Option (Dictionary × Int) :=
  match key with
  | none => some (d, -1)
  | some key =>
      match if d.n > 0 then d.find key else none with
      | some i =>
          some ({ d with entries := d.entries.modify i (.rebind (val.bind (xstrdup mem.val))) }, 0)
      | none => d.add key val mem

/-- `dictionary_unset` -/
def dictionaryUnset (d : Dictionary) (key : Option Str) : Dictionary :=
  match key with
  | none => d
  | some key =>
      match d.find key with
      | none => d
      | some i => { n := d.n - 1, entries := d.entries.set i .empty }

/-- `dictionary_set` on what `dictionary_new` returned.  A torn dictionary has no entry to
search, and a new one is written to all three arrays: `none` is the access to NULL. -/
def Created.set (c : Created) (key val : Option Str) (mem : Allocations) :
    Option (Created × Int) :=
  match c with
  | .whole d => (dictionarySet d key val mem).map fun r => (.whole r.1, r.2)
  | .torn _ => if key.isNone then some (c, -1) else none

/-- `dictionary_del`, which looks at every key and every value. -/
def Created.del : Created → Option Unit
  | .whole _ => some ()
  | .torn mem => if mem.key && mem.val then some () else none

/-- What `dictionary_get` searches: the keys of a torn dictionary, when it has them, are all
NULL. -/
def Created.searched : Created → Option Dictionary
  | .whole d => some d
  | .torn mem => if mem.key then some (.fresh 0) else none

/-! ## The store -/

/-- What a dictionary is for: a map from keys to values.  `used` and `capacity` tell
when it has to grow, which may fail. -/
structure Store where
  map : Str → Option (Option Str)
  used : Nat
  capacity : Nat

/-- The store after the binding of a key, and the answer.  A key that is not there takes a
slot, also when it cannot be copied and so is not bound. -/
def Store.set (m : Store) (key val : Option Str) (mem : Allocations) : Store × Int :=
  match key with
  | none => (m, -1)
  | some key =>
      let bound := Function.update m.map key (some (val.bind (xstrdup mem.val)))
      if (m.map key).isSome then ({ m with map := bound }, 0)
      else if m.used = m.capacity ∧ mem.grow = false then (m, -1)
      else
        ({ map := if mem.key then bound else m.map
           used := m.used + 1
           capacity := if m.used = m.capacity then m.capacity + m.capacity else m.capacity },
          0)

def Store.unset (m : Store) (key : Option Str) : Store :=
  match key with
  | none => m
  | some key =>
      if (m.map key).isSome then
        { m with map := Function.update m.map key none, used := m.used - 1 }
      else m

namespace Store

variable {m : Store} {key : Str} {mem : Allocations}

theorem set_bound {v : Option Str} (h : m.map key = some v) (val : Option Str) :
    m.set (some key) val mem =
      ({ m with map := Function.update m.map key (some (val.bind (xstrdup mem.val))) }, 0) := by
  simp [set, h]

theorem set_refused (h : m.map key = none) (hfull : m.used = m.capacity)
    (hgrow : mem.grow = false) (val : Option Str) : m.set (some key) val mem = (m, -1) := by
  simp [set, h, hfull, hgrow]

theorem set_new (h : m.map key = none) (hroom : m.used = m.capacity → mem.grow = true)
    (val : Option Str) :
    m.set (some key) val mem =
      ({ map :=
          if mem.key then Function.update m.map key (some (val.bind (xstrdup mem.val))) else m.map
         used := m.used + 1
         capacity := if m.used = m.capacity then m.capacity + m.capacity else m.capacity },
        0) := by
  have hallowed : ¬(m.used = m.capacity ∧ mem.grow = false) := by
    rintro ⟨hfull, hgrow⟩
    rw [hroom hfull] at hgrow
    cases hgrow
  simp only [set, h, Option.isSome_none, Bool.false_eq_true, if_false, if_neg hallowed]

end Store

/-! ## Soundness -/

/-- The slot of the table an entry stands for. -/
def Entry.slot (e : Entry) : Option (Str × Option Str) := e.key.map fun k => (k, e.val)

/-- The table a dictionary stands for. -/
def Dictionary.table (d : Dictionary) : List (Option (Str × Option Str)) :=
  d.entries.map Entry.slot

/-- The store a dictionary stands for. -/
def Dictionary.toStore (d : Dictionary) : Store where
  map := Table.lookup d.table
  used := d.n
  capacity := d.size

/-- `n` is at least the number of keys and at most the size, no key is there twice, and
its hash is stored with it. -/
structure Dictionary.Sound (d : Dictionary) : Prop where
  counted : (Table.keys d.table).length ≤ d.n
  room : d.n ≤ d.size
  nodup : (Table.keys d.table).Nodup
  hashes : ∀ e ∈ d.entries, ∀ k, e.key = some k → e.hash = dictionaryHash k
  pos : 0 < d.size

namespace Dictionary

variable {d : Dictionary} {key k : Str} {val : Option Str} {mem : Allocations} {i : Nat}

theorem length_table (d : Dictionary) : d.table.length = d.size := List.length_map ..

theorem table_getElem? (d : Dictionary) (i : Nat) :
    d.table[i]? = d.entries[i]?.map Entry.slot := List.getElem?_map ..

@[simp] theorem toStore_map (d : Dictionary) : d.toStore.map = Table.lookup d.table := rfl

@[simp] theorem toStore_used (d : Dictionary) : d.toStore.used = d.n := rfl

@[simp] theorem toStore_capacity (d : Dictionary) : d.toStore.capacity = d.size := rfl

/-- Under the invariant the comparison of the hashes decides nothing. -/
theorem Sound.holds_iff (h : d.Sound) {e : Entry} (he : e ∈ d.entries) :
    e.holds (dictionaryHash key) key = true ↔ e.key = some key := by
  unfold Entry.holds
  split
  next hnone => simp [hnone]
  next k hk =>
    have hhash := h.hashes e he k hk
    simp only [hk, hhash, Bool.and_eq_true, decide_eq_true_eq, Option.some.injEq]
    constructor
    · exact fun hboth => hboth.2.symm
    · rintro rfl
      exact ⟨rfl, rfl⟩

/-- The search finds the slot of the key. -/
theorem Sound.find_some (h : d.Sound) (hf : d.find key = some i) :
    ∃ e, d.entries[i]? = some e ∧ e.key = some key ∧ d.table[i]? = some (some (key, e.val)) := by
  obtain ⟨hlt, hholds, -⟩ := List.findIdx?_eq_some_iff_getElem.mp hf
  have hkey := (h.holds_iff (List.getElem_mem hlt)).mp hholds
  refine ⟨d.entries[i], List.getElem?_eq_getElem hlt, hkey, ?_⟩
  rw [table_getElem?, List.getElem?_eq_getElem hlt, Option.map_some, Entry.slot, hkey,
    Option.map_some]

/-- A key of the table is the key of an entry. -/
theorem mem_keys_slots {es : List Entry} (h : key ∈ Table.keys (es.map Entry.slot)) :
    ∃ e ∈ es, e.key = some key := by
  induction es with
  | nil => cases h
  | cons e es ih =>
      rw [List.map_cons] at h
      cases hk : e.key with
      | none =>
          rw [Entry.slot, hk] at h
          obtain ⟨e', he', hkey⟩ := ih h
          exact ⟨e', List.mem_cons_of_mem e he', hkey⟩
      | some k =>
          rw [Entry.slot, hk, Option.map_some, Table.keys, List.mem_cons] at h
          rcases h with rfl | h
          · exact ⟨e, List.mem_cons_self, hk⟩
          · obtain ⟨e', he', hkey⟩ := ih h
            exact ⟨e', List.mem_cons_of_mem e he', hkey⟩

/-- Without a slot found the key is not there. -/
theorem Sound.find_none (h : d.Sound) (hf : d.find key = none) : key ∉ Table.keys d.table := by
  intro hmem
  obtain ⟨e, he, hkey⟩ := mem_keys_slots hmem
  have hno := List.findIdx?_eq_none_iff.mp hf e he
  rw [(h.holds_iff he).mpr hkey] at hno
  cases hno

/-- The entries with a key are the pairs of the map. -/
theorem Sound.mem_iff (h : d.Sound) {v : Option Str} :
    (∃ e ∈ d.entries, e.key = some key ∧ e.val = v) ↔ d.toStore.map key = some v := by
  have hlookup : ∀ e ∈ d.entries, e.key = some key → d.toStore.map key = some e.val := by
    intro e he hkey
    obtain ⟨i, hi⟩ := List.getElem?_of_mem he
    refine Table.lookup_of_getElem? (i := i) h.nodup ?_
    rw [table_getElem?, hi, Option.map_some, Entry.slot, hkey, Option.map_some]
  constructor
  · rintro ⟨e, he, hkey, rfl⟩
    exact hlookup e he hkey
  · intro hv
    have hmem : key ∈ Table.keys d.table := by
      by_contra hnot
      rw [toStore_map, Table.lookup_eq_none_iff.mpr hnot] at hv
      cases hv
    obtain ⟨e, he, hkey⟩ := mem_keys_slots hmem
    refine ⟨e, he, hkey, ?_⟩
    have heq := hlookup e he hkey
    rw [hv] at heq
    exact (Option.some.inj heq).symm

/-- `dictionary_get` reads the map. -/
theorem Sound.get_eq (h : d.Sound) {P : Type} (key : Str) (found : Option Str → P) (default : P) :
    dictionaryGet d key found default = ((d.toStore.map key).map found).getD default := by
  rw [toStore_map]
  unfold dictionaryGet
  cases hf : d.find key with
  | none =>
      rw [Table.lookup_eq_none_iff.mpr (h.find_none hf)]
      rfl
  | some i =>
      obtain ⟨e, he, -, hslot⟩ := h.find_some hf
      rw [Table.lookup_of_getElem? h.nodup hslot]
      dsimp only
      rw [he]
      rfl

/-! ## The calls -/

theorem table_fresh (size : Nat) : (fresh size).table =
    List.replicate (if size < dictMinSz then dictMinSz else size) none := List.map_replicate

theorem sound_fresh (size : Nat) : (fresh size).Sound := by
  refine ⟨?_, Nat.zero_le _, ?_, ?_, ?_⟩
  · rw [table_fresh, Table.keys_replicate_none]
    exact Nat.le_refl 0
  · rw [table_fresh, Table.keys_replicate_none]
    exact List.nodup_nil
  · intro e he k hk
    rw [List.eq_of_mem_replicate he] at hk
    cases hk
  · unfold Dictionary.size fresh dictMinSz
    rw [List.length_replicate]
    split <;> omega

theorem toStore_fresh (size : Nat) : (fresh size).toStore =
    { map := fun _ => none, used := 0, capacity := max size dictMinSz } := by
  unfold toStore
  rw [Store.mk.injEq]
  refine ⟨?_, rfl, ?_⟩
  · funext k
    rw [table_fresh, Table.lookup_replicate_none]
  · unfold Dictionary.size fresh
    rw [List.length_replicate]
    split <;> omega

theorem size_grow (d : Dictionary) : d.grow.size = d.size + d.size := by
  rw [Dictionary.size, grow, List.length_append, List.length_replicate]
  rfl

theorem table_grow (d : Dictionary) :
    d.grow.table = d.table ++ List.replicate d.size none := by
  rw [table, grow, List.map_append, List.map_replicate]
  rfl

theorem keys_grow (d : Dictionary) : Table.keys d.grow.table = Table.keys d.table := by
  rw [table_grow, Table.keys_append, Table.keys_replicate_none, List.append_nil]

theorem lookup_grow (d : Dictionary) : Table.lookup d.grow.table = Table.lookup d.table := by
  funext k
  rw [table_grow, Table.lookup_append, Table.lookup_replicate_none, Option.or_none]

theorem sound_grow (h : d.Sound) : d.grow.Sound := by
  refine ⟨?_, ?_, ?_, ?_, ?_⟩
  · rw [keys_grow]
    exact h.counted
  · rw [size_grow]
    exact Nat.le_trans h.room (Nat.le_add_left ..)
  · rw [keys_grow]
    exact h.nodup
  · intro e he k hk
    rcases List.mem_append.mp he with hold | hnew
    · exact h.hashes e hold k hk
    · rw [List.eq_of_mem_replicate hnew] at hk
      cases hk
  · rw [size_grow]
    exact Nat.add_pos_left h.pos d.size

/-- While there is a free slot the probe ends at one. -/
theorem Sound.probe_some (h : d.Sound) (hlt : d.n < d.size) :
    ∃ i, d.probe = some i ∧ ∃ e, d.entries[i]? = some e ∧ e.key = none := by
  have hroom : (Table.keys d.table).length < d.table.length := by
    rw [length_table]
    exact Nat.lt_of_le_of_lt h.counted hlt
  obtain ⟨j, hj⟩ := Table.exists_free hroom
  have hjlt : j < d.size := by
    rw [← length_table]
    exact (List.getElem?_eq_some_iff.mp hj).1
  have hfree : ((d.entries[j]?.bind Entry.key).isNone) = true := by
    rw [table_getElem?, List.getElem?_eq_getElem hjlt, Option.map_some, Option.some.injEq,
      Entry.slot, Option.map_eq_none_iff] at hj
    rw [List.getElem?_eq_getElem hjlt, Option.bind_some, hj]
    rfl
  obtain ⟨i, hi, hilt, hstop⟩ :
      ∃ i, d.probe = some i ∧ i < d.size ∧ (d.entries[i]?.bind Entry.key).isNone = true :=
    Table.probe_ends hlt hjlt hfree
  refine ⟨i, hi, d.entries[i], List.getElem?_eq_getElem hilt, ?_⟩
  rw [List.getElem?_eq_getElem hilt, Option.bind_some] at hstop
  exact Option.isNone_iff_eq_none.mp hstop

/-- The table after an entry is stored. -/
theorem table_set (d : Dictionary) (n i : Nat) (e : Entry) :
    (⟨n, d.entries.set i e⟩ : Dictionary).table = d.table.set i e.slot := List.map_set

theorem size_set (d : Dictionary) (n i : Nat) (e : Entry) :
    (⟨n, d.entries.set i e⟩ : Dictionary).size = d.size := List.length_set ..

/-- What is stored with hashes that fit keeps them. -/
theorem Sound.hashes_set (h : d.Sound) {e : Entry}
    (he : ∀ k, e.key = some k → e.hash = dictionaryHash k) :
    ∀ e' ∈ d.entries.set i e, ∀ k, e'.key = some k → e'.hash = dictionaryHash k := by
  intro e' hmem
  rcases List.mem_or_eq_of_mem_set hmem with hold | rfl
  · exact h.hashes e' hold
  · exact he

/-- A new entry takes a free slot; its key is bound when it could be copied. -/
theorem Sound.insert_spec (h : d.Sound) (hlt : d.n < d.size) (hk : key ∉ Table.keys d.table)
    (val : Option Str) (mem : Allocations) :
    ∃ d', d.insert key val mem = some (d', 0) ∧ d'.Sound ∧ d'.toStore =
      { map := if mem.key then
          Function.update (Table.lookup d.table) key (some (val.bind (xstrdup mem.val)))
          else Table.lookup d.table
        used := d.n + 1
        capacity := d.size } := by
  obtain ⟨i, hi, e, he, hfree⟩ := h.probe_some hlt
  rw [insert, hi]
  refine ⟨_, rfl, ?_⟩
  have hslot : d.table[i]? = some none := by
    rw [table_getElem?, he, Option.map_some, Entry.slot, hfree, Option.map_none]
  generalize hval : val.bind (xstrdup mem.val) = val'
  cases hcopied : mem.key with
  | true =>
      have hstored : (Entry.mk (xstrdup true key) val' (dictionaryHash key)).slot =
          some (key, val') := rfl
      have hperm := Table.perm_keys_set_free hslot key val'
      refine ⟨⟨?_, ?_, ?_, h.hashes_set ?_, ?_⟩, ?_⟩
      · rw [table_set, hstored, hperm.length_eq]
        exact Nat.succ_le_succ h.counted
      · rw [size_set]
        exact hlt
      · rw [table_set, hstored, hperm.nodup_iff]
        exact List.nodup_cons.mpr ⟨hk, h.nodup⟩
      · rintro k ⟨⟩
        rfl
      · rw [size_set]
        exact h.pos
      · rw [toStore, table_set, hstored, Table.lookup_set_free hslot hk, size_set, if_pos rfl]
  | false =>
      -- the slot stays free, and is counted
      have hsame : d.table.set i none = d.table := by
        obtain ⟨hilt, hnone⟩ := List.getElem?_eq_some_iff.mp hslot
        rw [← hnone, List.set_getElem_self]
      have hstored : (Entry.mk (xstrdup false key) val' (dictionaryHash key)).slot = none := rfl
      refine ⟨⟨?_, ?_, ?_, h.hashes_set ?_, ?_⟩, ?_⟩
      · rw [table_set, hstored, hsame]
        exact Nat.le_succ_of_le h.counted
      · rw [size_set]
        exact hlt
      · rw [table_set, hstored, hsame]
        exact h.nodup
      · rintro k ⟨⟩
      · rw [size_set]
        exact h.pos
      · rw [toStore, table_set, hstored, hsame, size_set]
        rfl

/-- `dictionary_set` with a key that is not there. -/
theorem Sound.add_spec (h : d.Sound) (hk : key ∉ Table.keys d.table) (val : Option Str)
    (mem : Allocations) :
    ∃ d', d.add key val mem = some (d', (d.toStore.set (some key) val mem).2) ∧ d'.Sound ∧
      d'.toStore = (d.toStore.set (some key) val mem).1 := by
  have hnone : d.toStore.map key = none := Table.lookup_eq_none_iff.mpr hk
  unfold add
  split
  next hfull =>
    split
    next hgrow =>
      -- the doubled arrays have room
      have hroom : d.grow.n < d.grow.size := by
        rw [size_grow, grow, hfull]
        exact Nat.lt_add_of_pos_right h.pos
      have hk' : key ∉ Table.keys d.grow.table := by rwa [keys_grow]
      obtain ⟨d', hd', hs, hstore⟩ := (sound_grow h).insert_spec hroom hk' val mem
      rw [lookup_grow, size_grow] at hstore
      rw [Store.set_new hnone (fun _ => hgrow)]
      refine ⟨d', hd', hs, hstore.trans ?_⟩
      rw [toStore_used, toStore_capacity, if_pos hfull]
      rfl
    next hgrow =>
      rw [Store.set_refused hnone hfull (Bool.eq_false_iff.mpr hgrow)]
      exact ⟨d, rfl, h, rfl⟩
  next hroom =>
    have hlt : d.n < d.size := Nat.lt_of_le_of_ne h.room hroom
    obtain ⟨d', hd', hs, hstore⟩ := h.insert_spec hlt hk val mem
    rw [Store.set_new hnone (fun hfull => absurd hfull hroom)]
    refine ⟨d', hd', hs, hstore.trans ?_⟩
    rw [toStore_used, toStore_capacity, if_neg hroom]
    rfl

/-- The value of an entry is replaced. -/
theorem modify_rebind {e : Entry} (he : d.entries[i]? = some e) (val : Option Str) :
    d.entries.modify i (.rebind val) = d.entries.set i { e with val := val } := by
  obtain ⟨hlt, rfl⟩ := List.getElem?_eq_some_iff.mp he
  refine List.ext_getElem? fun j => ?_
  rw [List.getElem?_modify, List.getElem?_set]
  split
  next heq =>
    subst heq
    rw [he]
    rfl
  next => exact Option.map_id'

/-- `dictionary_set` does what the store does. -/
theorem Sound.set_spec (h : d.Sound) (key val : Option Str) (mem : Allocations) :
    ∃ d', dictionarySet d key val mem = some (d', (d.toStore.set key val mem).2) ∧ d'.Sound ∧
      d'.toStore = (d.toStore.set key val mem).1 := by
  cases key with
  | none => exact ⟨d, rfl, h, rfl⟩
  | some key =>
      unfold dictionarySet
      dsimp only
      split
      next i hf =>
        -- the key is there: its value is replaced
        have hfind : d.find key = some i := by
          split at hf
          · exact hf
          · cases hf
        obtain ⟨e, he, hkey, hslot⟩ := h.find_some hfind
        have hbound : d.toStore.map key = some e.val := Table.lookup_of_getElem? h.nodup hslot
        rw [Store.set_bound hbound, modify_rebind he]
        generalize val.bind (xstrdup mem.val) = val'
        have hstored : ({ e with val := val' } : Entry).slot = some (key, val') := by
          rw [Entry.slot, hkey]
          rfl
        refine ⟨_, rfl, ⟨?_, ?_, ?_, h.hashes_set ?_, ?_⟩, ?_⟩
        · rw [table_set, hstored, Table.keys_set_key hslot]
          exact h.counted
        · rw [size_set]
          exact h.room
        · rw [table_set, hstored, Table.keys_set_key hslot]
          exact h.nodup
        · exact h.hashes e (List.mem_of_getElem? he)
        · rw [size_set]
          exact h.pos
        · rw [toStore, table_set, hstored, Table.lookup_set_key h.nodup hslot, size_set]
          rfl
      next hf =>
        refine h.add_spec ?_ val mem
        split at hf
        · exact h.find_none hf
        next hzero =>
          -- an empty dictionary is not searched
          have hnil : Table.keys d.table = [] := by
            have := h.counted
            rw [← List.length_eq_zero_iff]
            omega
          rw [hnil]
          exact List.not_mem_nil

/-- `dictionary_unset` does what the store does. -/
theorem Sound.unset_spec (h : d.Sound) (key : Option Str) :
    (dictionaryUnset d key).Sound ∧ (dictionaryUnset d key).toStore = d.toStore.unset key := by
  cases key with
  | none => exact ⟨h, rfl⟩
  | some key =>
      unfold dictionaryUnset Store.unset
      dsimp only
      split
      next hf =>
        rw [toStore_map, Table.lookup_eq_none_iff.mpr (h.find_none hf)]
        exact ⟨h, rfl⟩
      next i hf =>
        obtain ⟨e, he, hkey, hslot⟩ := h.find_some hf
        have hperm := Table.perm_keys_set_none hslot
        have hcount := hperm.length_eq
        have hnodup := hperm.nodup_iff.mp h.nodup
        have hfreed : (Entry.empty).slot = none := rfl
        rw [toStore_map, Table.lookup_of_getElem? h.nodup hslot, Option.isSome_some, if_pos rfl]
        refine ⟨⟨?_, ?_, ?_, h.hashes_set ?_, ?_⟩, ?_⟩
        · have hcounted := h.counted
          rw [hcount, List.length_cons] at hcounted
          rw [table_set, hfreed]
          exact Nat.le_sub_one_of_lt hcounted
        · rw [size_set]
          exact Nat.le_trans (Nat.sub_le ..) h.room
        · rw [table_set, hfreed]
          exact (List.nodup_cons.mp hnodup).2
        · rintro k ⟨⟩
        · rw [size_set]
          exact h.pos
        · rw [toStore, table_set, hfreed, Table.lookup_set_none h.nodup hslot, size_set]
          rfl

end Dictionary

/-- The store of what `dictionary_new` returned. -/
def Created.toStore : Created → Store
  | .whole d => d.toStore
  | .torn _ => ⟨fun _ => none, 0, dictMinSz⟩

/-- A dictionary with its arrays, and in order. -/
def Created.Sound : Created → Prop
  | .whole d => d.Sound
  | .torn _ => False

namespace Created

variable {c : Created}

theorem Sound.exists_whole (h : c.Sound) : ∃ d, c = .whole d ∧ d.Sound := by
  cases c with
  | whole d => exact ⟨d, rfl, h⟩
  | torn mem => exact h.elim

theorem Sound.set_spec (h : c.Sound) (key val : Option Str) (mem : Allocations) :
    ∃ c', c.set key val mem = some (c', (c.toStore.set key val mem).2) ∧ c'.Sound ∧
      c'.toStore = (c.toStore.set key val mem).1 := by
  obtain ⟨d, rfl, hd⟩ := h.exists_whole
  obtain ⟨d', hset, hs, hstore⟩ := hd.set_spec key val mem
  refine ⟨.whole d', ?_, hs, hstore⟩
  rw [set, hset]
  rfl

theorem Sound.del_eq (h : c.Sound) : c.del = some () := by
  obtain ⟨d, rfl, -⟩ := h.exists_whole
  rfl

end Created

/-! ## Runs of calls -/

/-- A call on a dictionary, and how its allocations go. -/
inductive DictCall where
  | set (key val : Option Str) (mem : Allocations)
  | unset (key : Option Str)

/-- One call: the dictionary after it and what it answers. -/
def DictCall.run (d : Dictionary) : DictCall → Option (Dictionary × Int)
  | .set key val mem => dictionarySet d key val mem
  | .unset key => some (dictionaryUnset d key, 0)

/-- The same call on the store. -/
def DictCall.apply (m : Store) : DictCall → Store × Int
  | .set key val mem => m.set key val mem
  | .unset key => (m.unset key, 0)

/-- The calls in turn, with the answers; `none` when one does not return. -/
def runCalls (d : Dictionary) : List DictCall → Option (Dictionary × List Int)
  | [] => some (d, [])
  | c :: cs =>
      match c.run d with
      | none => none
      | some (d', ret) => (runCalls d' cs).map fun r => (r.1, ret :: r.2)

def applyCalls (m : Store) : List DictCall → Store × List Int
  | [] => (m, [])
  | c :: cs =>
      let r := applyCalls (c.apply m).1 cs
      (r.1, (c.apply m).2 :: r.2)

/-- One call keeps the invariant and does what the store does. -/
theorem Dictionary.Sound.run_call {d : Dictionary} (h : d.Sound) (c : DictCall) :
    ∃ d', c.run d = some (d', (c.apply d.toStore).2) ∧ d'.Sound ∧
      d'.toStore = (c.apply d.toStore).1 := by
  cases c with
  | set key val mem => exact h.set_spec key val mem
  | unset key => exact ⟨_, rfl, h.unset_spec key⟩

theorem Dictionary.Sound.run_calls {d : Dictionary} (h : d.Sound) (cs : List DictCall) :
    ∃ d', runCalls d cs = some (d', (applyCalls d.toStore cs).2) ∧ d'.Sound ∧
      d'.toStore = (applyCalls d.toStore cs).1 := by
  induction cs generalizing d with
  | nil => exact ⟨d, rfl, h, rfl⟩
  | cons c cs ih =>
      obtain ⟨d₁, hrun, hs, hstore⟩ := h.run_call c
      obtain ⟨d₂, hruns, hs', hstore'⟩ := ih hs
      rw [hstore] at hruns hstore'
      refine ⟨d₂, ?_, hs', hstore'⟩
      rw [runCalls, hrun]
      dsimp only
      rw [hruns]
      rfl

/-- The four allocations of a new dictionary succeed. -/
def newGranted : NewAllocations := ⟨true, true, true, true⟩

/-- Whatever calls a new dictionary sees and whichever of their allocations fail, every
call returns, with the answer the store gives, and every key then reads as in the map. -/
theorem dictionary_refines_store (size : Nat) (cs : List DictCall) :
    dictionaryNew size newGranted = some (.whole (.fresh size)) ∧
    ∃ d, runCalls (.fresh size) cs =
        some (d, (applyCalls ⟨fun _ => none, 0, max size dictMinSz⟩ cs).2) ∧
      d.toStore = (applyCalls ⟨fun _ => none, 0, max size dictMinSz⟩ cs).1 ∧
      d.n ≤ d.size ∧
      ∀ (key : Str) (P : Type) (found : Option Str → P) (default : P),
        dictionaryGet d key found default =
          (((applyCalls ⟨fun _ => none, 0, max size dictMinSz⟩ cs).1.map key).map found).getD
            default := by
  obtain ⟨d, hrun, hs, hstore⟩ := (Dictionary.sound_fresh size).run_calls cs
  rw [Dictionary.toStore_fresh] at hrun hstore
  refine ⟨rfl, d, hrun, hstore, hs.room, fun key P found default => ?_⟩
  rw [hs.get_eq, hstore]

/-- A key that is set to `NULL` stays bound: it reads as `NULL`, not as the default. -/
example : (runCalls (.fresh 0) [.set (some [97]) (some [98]) ⟨true, true, true⟩,
    .set (some [97]) none ⟨true, true, true⟩]).map
      (fun r => dictionaryGet r.1 [97] (fun v => some v) none) = some (some none) := by
  decide +kernel

end VmpSa.Conf
