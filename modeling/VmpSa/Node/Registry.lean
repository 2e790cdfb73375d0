import VmpSa.Lib.Loop
import VmpSa.Lib.System
import VmpSa.Lib.Wire
import VmpSa.Node.Vector

/-!
# The registry of node classes

`node_register_class`, `node_unregister_class`, `node_find_class` and
`node_create` of `vmp/src/vmp_node.c` over the growable array.  A `nodedef` is
stored as its 24 bytes; a function pointer is a 64-bit address, and what a call
through it returns comes from outside.

The registry is meant to be an ordered list of definitions: registering
appends, unregistering a class takes out its earliest definition, and a node is
created by the earliest definition of its class.  The result of this module is
that it is, for every sequence of calls.
-/

namespace VmpSa

/-! ## The model -/

/-- `nodedef`, packed. -/
structure Nodedef where
  nflags : UInt32
  nclass : UInt32
  pfnCreate : UInt64
  pfnDelete : UInt64
deriving Repr, DecidableEq

/-- `sizeof(nodedef)` -/
def sizeofNodedef : Nat := 24

namespace Nodedef

/-- The bytes of a definition. -/
def bytes (d : Nodedef) : List UInt8 :=
  Wire.wordLE 4 d.nflags.toNat ++ Wire.wordLE 4 d.nclass.toNat ++
    (Wire.wordLE 8 d.pfnCreate.toNat ++ Wire.wordLE 8 d.pfnDelete.toNat)

/-- The definition with the given bytes. -/
def ofBytes (x : List UInt8) : Nodedef where
  nflags := UInt32.ofNat (Wire.numberLE (x.take 4))
  nclass := UInt32.ofNat (Wire.numberLE ((x.drop 4).take 4))
  pfnCreate := UInt64.ofNat (Wire.numberLE ((x.drop 8).take 8))
  pfnDelete := UInt64.ofNat (Wire.numberLE ((x.drop 16).take 8))

theorem length_bytes (d : Nodedef) : d.bytes.length = sizeofNodedef := by
  simp only [bytes, List.length_append, Wire.length_wordLE, sizeofNodedef]

theorem ofBytes_bytes (d : Nodedef) : ofBytes d.bytes = d := by
  have h4 : ∀ n : UInt32, Wire.numberLE (Wire.wordLE 4 n.toNat) = n.toNat := fun n =>
    Wire.numberLE_wordLE n.toNat_lt
  have h8 : ∀ n : UInt64, Wire.numberLE (Wire.wordLE 8 n.toNat) = n.toNat := fun n =>
    Wire.numberLE_wordLE n.toNat_lt
  have hl4 : ∀ n, (Wire.wordLE 4 n).length = 4 := Wire.length_wordLE 4
  have hl8 : ∀ n, (Wire.wordLE 8 n).length = 8 := Wire.length_wordLE 8
  have hcreate : d.bytes.drop 8 =
      Wire.wordLE 8 d.pfnCreate.toNat ++ Wire.wordLE 8 d.pfnDelete.toNat :=
    List.drop_left' (by rw [List.length_append, hl4, hl4])
  have hdelete : d.bytes.drop 16 = Wire.wordLE 8 d.pfnDelete.toNat := by
    rw [show 16 = 8 + 8 from rfl, ← List.drop_drop, hcreate, List.drop_left' (hl8 _)]
  have hflags : d.bytes.take 4 = Wire.wordLE 4 d.nflags.toNat := by
    rw [bytes, List.append_assoc, List.take_left' (hl4 _)]
  have hclass : (d.bytes.drop 4).take 4 = Wire.wordLE 4 d.nclass.toNat := by
    rw [bytes, List.append_assoc, List.drop_left' (hl4 _), List.take_left' (hl4 _)]
  rw [ofBytes, hflags, hclass, hcreate, hdelete, List.take_left' (hl8 _),
    List.take_of_length_le (by rw [hl8]), h4, h4, h8, h8, UInt32.ofNat_toNat, UInt32.ofNat_toNat,
    UInt64.ofNat_toNat, UInt64.ofNat_toNat]

end Nodedef

/-- `node_init` -/
def nodeInit (malloc : Bool × Bool) : Option CVector := (tmVectorCreate malloc sizeofNodedef 100).2

/-- `node_register_class`; the result of the vector is not looked at. -/
def nodeRegisterClass (malloc : Bool × Bool) (d : Nodedef) (nodeVector : CVector) :
    Option CVector :=
  (tmVectorAddElement malloc nodeVector d.bytes).map Prod.snd

/-- One pass of the loops over the vector: the element is copied out and its class
compared.  The loop is left with the first index and definition of the class. -/
def classPass (nodeVector : CVector) (nclass : UInt32) (i : Nat) :
    Loop.Pass Nat (Option (Option (Nat × Nodedef))) :=
  if i < nodeVector.size then
    match tmVectorGetElement nodeVector i with
    | some (_, some element) =>
        if (Nodedef.ofBytes element).nclass = nclass then
          .leave (some (some (i, Nodedef.ofBytes element)))
        else .again (i + 1)
    | _ => .leave none
  else .leave (some none)

/-- The loop of `node_unregister_class` and of `node_find_class`. -/
def classScan (nodeVector : CVector) (nclass : UInt32) : Option (Option (Nat × Nodedef)) :=
  -- one pass for each element and one that finds the end
  (Loop.run (classPass nodeVector nclass) (nodeVector.size + 1) 0).join

/-- `node_unregister_class` -/
def nodeUnregisterClass (nclass : UInt32) (nodeVector : CVector) : Option CVector :=
  (classScan nodeVector nclass).bind fun found =>
    match found with
    | none => some nodeVector
    | some (i, _) => (tmVectorRemoveElement nodeVector i).map Prod.snd

/-- `node_find_class` -/
def nodeFindClass (nodeVector : CVector) (nclass : UInt32) : Option (Option Nodedef) :=
  (classScan nodeVector nclass).map fun found => found.map Prod.snd

/-- What `node_create` does: the function it invokes, if any, and the node it returns. -/
structure Created (N : Type) where
  invoked : Option UInt64
  node : Option N
deriving Repr, DecidableEq

/-- `node_create`; `call` is what the function at an address returns. -/
def nodeCreate {N : Type} (call : UInt64 → Option N) (nclass : UInt32) (nodeVector : CVector) :
    Option (Created N) :=
  (nodeFindClass nodeVector nclass).map fun found =>
    match found with
    | some d => { invoked := some d.pfnCreate, node := call d.pfnCreate }
    | none => { invoked := none, node := none }

/-- A call on the registry. -/
inductive RegistryCall where
  | register (d : Nodedef)
  | unregister (nclass : UInt32)
deriving Repr, DecidableEq

/-- One call, with the allocator granting. -/
def registryStep (nodeVector : CVector) : RegistryCall → Option CVector
  | .register d => nodeRegisterClass (true, true) d nodeVector
  | .unregister nclass => nodeUnregisterClass nclass nodeVector

/-! ## The registry as a list -/

/-- What a call does to the list of the definitions. -/
def RegistryCall.apply (defs : List Nodedef) : RegistryCall → List Nodedef
  | .register d => defs ++ [d]
  | .unregister nclass => defs.eraseP fun d => d.nclass == nclass

/-- The definitions after a sequence of calls. -/
def registered (calls : List RegistryCall) : List Nodedef := calls.foldl RegistryCall.apply []

/-- What creating a node of a class from a list of definitions means. -/
def createdFrom {N : Type} (call : UInt64 → Option N) (nclass : UInt32) (defs : List Nodedef) :
    Created N :=
  match defs.find? fun d => d.nclass == nclass with
  | some d => { invoked := some d.pfnCreate, node := call d.pfnCreate }
  | none => { invoked := none, node := none }

/-- The definitions stored in the vector. -/
def CVector.defs (v : CVector) : List Nodedef := v.elements.map Nodedef.ofBytes

/-- The vector stores exactly the definitions, in a capacity that came from
doubling below 2^24 entries. -/
structure CVector.Registers (v : CVector) (defs : List Nodedef) : Prop where
  keeps : v.Keeps (defs.map Nodedef.bytes)
  width : v.elementsize = sizeofNodedef
  pos : 0 < v.capacity
  capacity : v.capacity < 2 ^ 25

variable {v : CVector} {defs pre post : List Nodedef} {d : Nodedef}

theorem CVector.Registers.defs_eq (h : v.Registers defs) : v.defs = defs := by
  rw [CVector.defs, h.keeps.elements, List.map_map]
  exact List.map_id'' Nodedef.ofBytes_bytes defs

theorem CVector.Registers.size (h : v.Registers defs) : v.size = defs.length := by
  rw [h.keeps.size, List.length_map]

theorem registers_init : ∃ v, nodeInit (true, true) = some v ∧ v.Registers [] := by
  obtain ⟨v, hv, hkeeps, hwidth, hcap⟩ :=
    CVector.keeps_create sizeofNodedef 100 (by decide) (by decide)
  exact ⟨v, congrArg Prod.snd hv, hkeeps, hwidth, by omega, by omega⟩

/-! ## The calls -/

/-- Registering appends. -/
theorem registers_register (h : v.Registers defs) (hlive : defs.length < 2 ^ 24) (d : Nodedef) :
    ∃ v', nodeRegisterClass (true, true) d v = some v' ∧ v'.Registers (defs ++ [d]) := by
  have hsize := h.size
  have hcap := h.capacity
  have hpos := h.pos
  have hrange : v.capacity ≤ v.size → v.capacity * 2 * v.elementsize < 2 ^ 31 := by
    intro hfull
    rw [h.width, sizeofNodedef]
    omega
  obtain ⟨v', hadd, hkeeps, hwidth, hcap'⟩ := h.keeps.add (x := d.bytes)
    (by rw [d.length_bytes, h.width]) h.pos (by rw [h.width]; decide) hrange
  refine ⟨v', by rw [nodeRegisterClass, hadd]; rfl, by simpa using hkeeps,
    hwidth.trans h.width, ?_, ?_⟩
  · rw [hcap']
    split <;> omega
  · rw [hcap']
    split <;> omega

/-- One pass at a definition. -/
theorem classPass_at (h : v.Registers (pre ++ d :: post)) (nclass : UInt32) :
    classPass v nclass pre.length =
      if d.nclass = nclass then .leave (some (some (pre.length, d)))
      else .again (pre.length + 1) := by
  have hsize := h.size
  rw [List.length_append, List.length_cons] at hsize
  have hkeeps := h.keeps
  rw [List.map_append, List.map_cons] at hkeeps
  have hget := hkeeps.get
  rw [List.length_map] at hget
  rw [classPass, if_pos (by omega), hget]
  simp only [Nodedef.ofBytes_bytes]

/-- The passes over definitions of other classes. -/
theorem run_classPass_skip {nclass : UInt32} (n : Nat) :
    ∀ (pre skipped post : List Nodedef), v.Registers (pre ++ (skipped ++ post)) →
      (∀ e ∈ skipped, e.nclass ≠ nclass) →
      Loop.run (classPass v nclass) (skipped.length + n) pre.length =
        Loop.run (classPass v nclass) n (pre ++ skipped).length
  | pre, [], _, _, _ => by rw [List.length_nil, Nat.zero_add, List.append_nil]
  | pre, e :: skipped, post, h, hskip => by
      obtain ⟨he, hskip'⟩ := List.forall_mem_cons.mp hskip
      have hpass := classPass_at h nclass
      rw [if_neg he] at hpass
      have h' : v.Registers ((pre ++ [e]) ++ (skipped ++ post)) := by simpa using h
      have ih := run_classPass_skip n (pre ++ [e]) skipped post h' hskip'
      rw [List.length_append, List.length_singleton] at ih
      rw [List.length_cons, Nat.add_right_comm, Loop.run_again _ hpass, ih]
      simp

/-- The loop finds the earliest definition of the class. -/
theorem classScan_found (h : v.Registers (pre ++ d :: post)) {nclass : UInt32}
    (hpre : ∀ e ∈ pre, e.nclass ≠ nclass) (hd : d.nclass = nclass) :
    classScan v nclass = some (some (pre.length, d)) := by
  have hsize := h.size
  rw [List.length_append, List.length_cons] at hsize
  have hpass := classPass_at h nclass
  rw [if_pos hd] at hpass
  have hskip := run_classPass_skip (post.length + 1 + 1) [] pre (d :: post) h hpre
  rw [List.nil_append, Loop.run_leave _ hpass] at hskip
  rw [classScan, hsize, Nat.add_assoc]
  exact congrArg Option.join hskip

/-- The loop finds nothing when there is no definition of the class. -/
theorem classScan_none (h : v.Registers defs) {nclass : UInt32}
    (hnone : ∀ e ∈ defs, e.nclass ≠ nclass) : classScan v nclass = some none := by
  have hend : classPass v nclass defs.length = .leave (some none) := by
    rw [classPass, if_neg (by rw [h.size]; exact Nat.lt_irrefl _)]
  have hskip := run_classPass_skip 1 [] defs [] (by simpa using h) hnone
  rw [List.nil_append, Loop.run_leave _ hend] at hskip
  rw [classScan, h.size]
  exact congrArg Option.join hskip

/-- The definitions split at the earliest one of a class, or none is of the class. -/
theorem earliest_cases (defs : List Nodedef) (nclass : UInt32) :
    (∀ e ∈ defs, e.nclass ≠ nclass) ∨
      ∃ pre d post, defs = pre ++ d :: post ∧ d.nclass = nclass ∧
        ∀ e ∈ pre, e.nclass ≠ nclass := by
  cases hfind : defs.find? fun d => d.nclass == nclass with
  | none =>
      refine Or.inl fun e he => ?_
      simpa using List.find?_eq_none.mp hfind e he
  | some d =>
      obtain ⟨hd, pre, post, hsplit, hpre⟩ := List.find?_eq_some_iff_append.mp hfind
      exact Or.inr ⟨pre, d, post, hsplit, by simpa using hd, fun e he => by simpa using hpre e he⟩

/-- Unregistering takes out the earliest definition of the class and nothing else. -/
theorem registers_unregister (h : v.Registers defs) (nclass : UInt32) :
    ∃ v', nodeUnregisterClass nclass v = some v' ∧
      v'.Registers (defs.eraseP fun d => d.nclass == nclass) := by
  rcases earliest_cases defs nclass with hnone | ⟨pre, d, post, rfl, hd, hpre⟩
  · have herase : defs.eraseP (fun d => d.nclass == nclass) = defs :=
      List.eraseP_of_forall_not fun e he => by simpa using hnone e he
    rw [herase]
    exact ⟨v, by rw [nodeUnregisterClass, classScan_none h hnone]; rfl, h⟩
  · have herase : (pre ++ d :: post).eraseP (fun d => d.nclass == nclass) = pre ++ post := by
      rw [List.eraseP_append_right _ (fun e he => by simpa using hpre e he),
        List.eraseP_cons_of_pos (by simpa using hd)]
    have hkeeps := h.keeps
    rw [List.map_append, List.map_cons] at hkeeps
    obtain ⟨v', hremove, hkeeps', hwidth, hcap⟩ := hkeeps.remove
    rw [List.length_map] at hremove
    rw [herase]
    refine ⟨v', ?_, by simpa using hkeeps', hwidth.trans h.width, ?_, ?_⟩
    · rw [nodeUnregisterClass, classScan_found h hpre hd, Option.bind_some]
      exact congrArg (Option.map Prod.snd) hremove
    · rw [hcap]
      exact h.pos
    · rw [hcap]
      exact h.capacity

/-- A node is created by the earliest definition of its class. -/
theorem nodeCreate_eq {N : Type} (h : v.Registers defs) (call : UInt64 → Option N)
    (nclass : UInt32) : nodeCreate call nclass v = some (createdFrom call nclass defs) := by
  rcases earliest_cases defs nclass with hnone | ⟨pre, d, post, rfl, hd, hpre⟩
  · have hfind : defs.find? (fun d => d.nclass == nclass) = none :=
      List.find?_eq_none.mpr fun e he => by simpa using hnone e he
    rw [nodeCreate, nodeFindClass, classScan_none h hnone, createdFrom, hfind]
    rfl
  · have hfind : (pre ++ d :: post).find? (fun d => d.nclass == nclass) = some d :=
      List.find?_eq_some_iff_append.mpr
        ⟨by simpa using hd, pre, post, rfl, fun e he => by simpa using hpre e he⟩
    rw [nodeCreate, nodeFindClass, classScan_found h hpre hd, createdFrom, hfind]
    rfl

theorem createdFrom_invoked_none {N : Type} (call : UInt64 → Option N) (nclass : UInt32)
    (defs : List Nodedef) :
    (createdFrom call nclass defs).invoked = none ↔ ∀ d ∈ defs, d.nclass ≠ nclass := by
  rw [createdFrom]
  cases hfind : defs.find? fun d => d.nclass == nclass with
  | none =>
      refine ⟨fun _ d hd => ?_, fun _ => rfl⟩
      simpa using List.find?_eq_none.mp hfind d hd
  | some d =>
      refine ⟨nofun, fun h => ?_⟩
      exact absurd (by simpa using List.find?_some hfind) (h d (List.mem_of_find?_eq_some hfind))

/-! ## Whole runs -/

/-- One call on the vector does what it does on the list. -/
theorem registryStep_registers (h : v.Registers defs) (call : RegistryCall)
    (hlive : defs.length < 2 ^ 24) :
    ∃ v', registryStep v call = some v' ∧ v'.Registers (call.apply defs) := by
  cases call with
  | register d => exact registers_register h hlive d
  | unregister nclass => exact registers_unregister h nclass

theorem run_registers : ∀ {calls : List RegistryCall} {v : CVector} {defs : List Nodedef},
    v.Registers defs →
    (∀ done, done <+: calls → (done.foldl RegistryCall.apply defs).length < 2 ^ 24) →
    ∃ v', System.run registryStep v calls = some v' ∧
      v'.Registers (calls.foldl RegistryCall.apply defs)
  | [], v, _, h, _ => ⟨v, rfl, h⟩
  | call :: calls, v, defs, h, hlive => by
      obtain ⟨v₁, hstep, h₁⟩ := registryStep_registers h call (hlive [] List.nil_prefix)
      obtain ⟨v', hrun, h'⟩ := run_registers h₁ fun done hdone =>
        hlive (call :: done) (List.cons_prefix_cons.mpr ⟨rfl, hdone⟩)
      exact ⟨v', by rw [System.run_cons hstep, hrun], h'⟩

/-- From `node_init`, every sequence of calls with fewer than 2^24 live entries
leaves exactly the definitions of the list, and nodes are created from it. -/
theorem registry_refines_list (calls : List RegistryCall)
    (hlive : ∀ done, done <+: calls → (registered done).length < 2 ^ 24) :
    ∃ v, (nodeInit (true, true)).bind (System.run registryStep · calls) = some v ∧
      v.defs = registered calls ∧
      ∀ (N : Type) (call : UInt64 → Option N) (nclass : UInt32),
        nodeCreate call nclass v = some (createdFrom call nclass (registered calls)) ∧
        ((createdFrom call nclass (registered calls)).invoked = none ↔
          ∀ d ∈ registered calls, d.nclass ≠ nclass) := by
  obtain ⟨v₀, hinit, h₀⟩ := registers_init
  obtain ⟨v, hrun, hv⟩ := run_registers h₀ hlive
  refine ⟨v, by rw [hinit]; exact hrun, hv.defs_eq, fun N call nclass => ?_⟩
  exact ⟨nodeCreate_eq hv call nclass, createdFrom_invoked_none call nclass _⟩

theorem length_foldl_apply_le : ∀ (calls : List RegistryCall) (defs : List Nodedef),
    (calls.foldl RegistryCall.apply defs).length ≤ defs.length + calls.length
  | [], _ => Nat.le_refl _
  | .register d :: calls, defs => by
      have ih := length_foldl_apply_le calls (defs ++ [d])
      rw [List.length_append, List.length_singleton] at ih
      rw [List.length_cons, List.foldl_cons]
      exact Nat.le_trans ih (by omega)
  | .unregister nclass :: calls, defs => by
      have ih := length_foldl_apply_le calls (defs.eraseP fun d => d.nclass == nclass)
      have hle := (List.eraseP_sublist (p := fun d => d.nclass == nclass) (l := defs)).length_le
      rw [List.length_cons, List.foldl_cons]
      exact Nat.le_trans ih (by omega)

/-- Two definitions of one class, one of another between them, and the class
unregistered once: its second definition is left and creates the nodes. -/
theorem registry_refines_list_duplicate :
    ∃ v, (nodeInit (true, true)).bind (System.run registryStep ·
        [.register ⟨0, 1, 100, 0⟩, .register ⟨0, 2, 200, 0⟩, .register ⟨0, 1, 300, 0⟩,
          .unregister 1]) = some v ∧
      v.defs = [⟨0, 2, 200, 0⟩, ⟨0, 1, 300, 0⟩] ∧
      nodeCreate (some ·) 1 v = some { invoked := some 300, node := some 300 } := by
  obtain ⟨v, hrun, hdefs, hcreate⟩ := registry_refines_list
    [.register ⟨0, 1, 100, 0⟩, .register ⟨0, 2, 200, 0⟩, .register ⟨0, 1, 300, 0⟩, .unregister 1]
    (fun done hdone => Nat.lt_of_le_of_lt (length_foldl_apply_le done [])
      (Nat.lt_of_le_of_lt (Nat.add_le_add_left hdone.length_le _) (by decide)))
  exact ⟨v, hrun, hdefs, (hcreate UInt64 (some ·) 1).1⟩

end VmpSa
