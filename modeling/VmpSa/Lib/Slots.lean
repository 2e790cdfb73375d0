import VmpSa.Lib.Memory

/-!
# Records of one width in a block

`Slots.Holds w b xs` says that the block `b` begins with the records `xs`, each
of them `w` elements wide.  What lies behind them is free room.  Reading a
record, putting one behind the last, moving the tail over a record and copying
all of them to another block are done on offsets that are multiples of the
width; the lemmas say what they do to `xs`.  `records` cuts a block into so many
records.
-/

namespace Slots

variable {α : Type} {w : Nat} {b : List α} {x : List α} {xs ys : List (List α)}

structure Holds (w : Nat) (b : List α) (xs : List (List α)) : Prop where
  width : ∀ x ∈ xs, x.length = w
  content : ∃ room, b = xs.flatten ++ room

theorem length_flatten_of_width : ∀ {xs : List (List α)}, (∀ x ∈ xs, x.length = w) →
    xs.flatten.length = xs.length * w
  | [], _ => by simp
  | x :: xs, h => by
      obtain ⟨hx, hxs⟩ := List.forall_mem_cons.mp h
      rw [List.flatten_cons, List.length_append, hx, length_flatten_of_width hxs, List.length_cons,
        Nat.succ_mul, Nat.add_comm]

theorem Holds.length (h : Holds w b xs) : xs.flatten.length = xs.length * w :=
  length_flatten_of_width h.width

theorem holds_nil (w : Nat) (b : List α) : Holds w b [] := ⟨nofun, b, rfl⟩

/-- The records in two parts and one between them. -/
theorem Holds.split (h : Holds w b (xs ++ x :: ys)) :
    x.length = w ∧ xs.flatten.length = xs.length * w ∧ ys.flatten.length = ys.length * w ∧
      ∃ room, b = xs.flatten ++ (x ++ (ys.flatten ++ room)) := by
  obtain ⟨room, hb⟩ := h.content
  refine ⟨h.width x (by simp), length_flatten_of_width fun y hy => h.width y (by simp [hy]),
    length_flatten_of_width fun y hy => h.width y (by simp [hy]), room, ?_⟩
  rw [hb, List.flatten_append, List.flatten_cons, List.append_assoc, List.append_assoc]

/-- The record at an index. -/
theorem Holds.read (h : Holds w b (xs ++ x :: ys)) :
    Block.read b (xs.length * w) w = some x := by
  obtain ⟨hx, hxs, -, room, rfl⟩ := h.split
  rw [← hxs, ← hx, Block.read_append]

theorem Holds.read_getElem (h : Holds w b xs) {i : Nat} (hi : i < xs.length) :
    Block.read b (i * w) w = some xs[i] := by
  have hsplit : xs = xs.take i ++ xs[i] :: xs.drop (i + 1) := by
    rw [← List.drop_eq_getElem_cons hi, List.take_append_drop]
  have hlen : (xs.take i).length = i := List.length_take_of_le (Nat.le_of_lt hi)
  rw [hsplit] at h
  have hread := h.read
  rwa [hlen] at hread

/-- A record written behind the last one. -/
theorem Holds.push (h : Holds w b xs) (hx : x.length = w)
    (hroom : (xs.length + 1) * w ≤ b.length) :
    ∃ b', Block.write b (xs.length * w) x = some b' ∧ Holds w b' (xs ++ [x]) ∧
      b'.length = b.length := by
  have hlen := h.length
  obtain ⟨room, rfl⟩ := h.content
  rw [List.length_append, Nat.succ_mul] at hroom
  have hwrite : Block.write (xs.flatten ++ room) (xs.length * w) x =
      some (xs.flatten ++ (x ++ room.drop x.length)) := by
    rw [← hlen]
    exact Block.write_append (by omega)
  refine ⟨_, hwrite, ⟨?_, room.drop x.length, ?_⟩, Block.length_of_write hwrite⟩
  · intro y hy
    rcases List.mem_append.mp hy with hy | hy
    · exact h.width y hy
    · rw [List.mem_singleton.mp hy, hx]
  · rw [List.flatten_append, List.flatten_singleton, List.append_assoc]

/-- The records behind one moved over it. -/
theorem Holds.remove (h : Holds w b (xs ++ x :: ys)) :
    ∃ b', Block.move b (xs.length * w) ((xs.length + 1) * w) (ys.length * w) = some b' ∧
      Holds w b' (xs ++ ys) ∧ b'.length = b.length := by
  have hwidth := h.width
  obtain ⟨hx, hxs, hys, room, rfl⟩ := h.split
  have hsrc : (xs.length + 1) * w = (xs.flatten ++ x).length := by
    rw [List.length_append, hxs, hx, Nat.succ_mul]
  have hread : Block.read (xs.flatten ++ (x ++ (ys.flatten ++ room))) ((xs.length + 1) * w)
      (ys.length * w) = some ys.flatten := by
    rw [hsrc, ← hys, ← List.append_assoc, Block.read_append]
  have hwrite : Block.write (xs.flatten ++ (x ++ (ys.flatten ++ room))) (xs.length * w)
      ys.flatten = some (xs.flatten ++ (ys.flatten ++
        (x ++ (ys.flatten ++ room)).drop ys.flatten.length)) := by
    rw [← hxs]
    exact Block.write_append (by simp only [List.length_append]; omega)
  refine ⟨_, by rw [Block.move, hread]; exact hwrite,
    ⟨fun y hy => ?_, (x ++ (ys.flatten ++ room)).drop ys.flatten.length, ?_⟩,
    Block.length_of_write hwrite⟩
  · rcases List.mem_append.mp hy with hy | hy
    · exact hwidth y (by simp [hy])
    · exact hwidth y (by simp [hy])
  · rw [List.flatten_append, List.append_assoc]

/-- Without the last record. -/
theorem Holds.pop (h : Holds w b (xs ++ [x])) : Holds w b xs := by
  obtain ⟨-, -, -, room, hb⟩ := h.split
  exact ⟨fun y hy => h.width y (by simp [hy]), _, hb⟩

/-- The records copied to the front of another block. -/
theorem Holds.copy (h : Holds w b xs) {c : List α} (hroom : xs.length * w ≤ c.length) :
    ∃ c', (Block.read b 0 (xs.length * w)).bind (Block.write c 0) = some c' ∧
      Holds w c' xs ∧ c'.length = c.length := by
  have hlen := h.length
  obtain ⟨room, rfl⟩ := h.content
  have hread : Block.read (xs.flatten ++ room) 0 (xs.length * w) = some xs.flatten := by
    rw [← hlen]
    exact Block.read_append (a := [])
  have hwrite : Block.write c 0 xs.flatten = some (xs.flatten ++ c.drop xs.flatten.length) :=
    Block.write_append (a := []) (by omega)
  refine ⟨_, by rw [hread]; exact hwrite, ⟨h.width, _, rfl⟩, Block.length_of_write hwrite⟩

/-! ## Cutting a block -/

/-- The first records of a block. -/
def records (w : Nat) : Nat → List α → List (List α)
  | 0, _ => []
  | n + 1, b => b.take w :: records w n (b.drop w)

theorem length_records (w n : Nat) (b : List α) : (records w n b).length = n := by
  induction n generalizing b with
  | zero => rfl
  | succ n ih => simp [records, ih]

/-- A block that is long enough holds its records. -/
theorem holds_records {n : Nat} (h : n * w ≤ b.length) : Holds w b (records w n b) := by
  induction n generalizing b with
  | zero => exact holds_nil w b
  | succ n ih =>
      rw [Nat.succ_mul] at h
      have hrest : Holds w (b.drop w) (records w n (b.drop w)) :=
        ih (by rw [List.length_drop]; omega)
      obtain ⟨room, hb⟩ := hrest.content
      refine ⟨?_, room, ?_⟩
      · intro x hx
        rcases List.mem_cons.mp hx with rfl | hx
        · rw [List.length_take]
          omega
        · exact hrest.width x hx
      · rw [records, List.flatten_cons, List.append_assoc, ← hb, List.take_append_drop]

/-- The records a block holds are those it is cut into. -/
theorem Holds.records_eq (h : Holds w b xs) : records w xs.length b = xs := by
  induction xs generalizing b with
  | nil => rfl
  | cons x xs ih =>
      obtain ⟨room, hb⟩ := h.content
      have hx : x.length = w := h.width x (by simp)
      rw [List.flatten_cons, List.append_assoc] at hb
      have hrest : Holds w (b.drop w) xs := by
        refine ⟨fun y hy => h.width y (by simp [hy]), room, ?_⟩
        rw [hb, List.drop_left' hx]
      rw [List.length_cons, records, ih hrest, hb, List.take_left' hx]

end Slots
