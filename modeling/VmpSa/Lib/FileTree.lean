import Mathlib.Tactic.Common

/-!
# Trees of files and directories

A key is the list of the names from an entry up to the root, so the parent of a
key is its tail.  A `Tree` says what stands at each key.  Its root is a
directory, and whatever stands somewhere stands in a directory.

A path is a list of moves.  `go` follows them by name alone, and `Tree.walk`
follows them in a tree, where every move is made from a directory.  Among
directories the two agree (`walk_concat`).  `Tree.mkdir` puts a
directory where nothing is.
-/

namespace FileTree

variable {Name : Type}

inductive Entry where
  | directory
  | file
deriving DecidableEq

structure Tree (Name : Type) where
  /-- What stands at a key. -/
  entry : List Name → Option Entry
  root : entry [] = some .directory
  parent : ∀ name key, entry (name :: key) ≠ none → entry key = some .directory

/-- One step of a path. -/
inductive Move (Name : Type) where
  | stay
  | up
  | down (name : Name)

def Move.apply : Move Name → List Name → List Name
  | .stay, key => key
  | .up, key => key.tail
  | .down name, key => name :: key

/-- The key moves lead to by name alone. -/
def go (key : List Name) (moves : List (Move Name)) : List Name :=
  moves.foldl (fun key move => move.apply key) key

/-- The key moves lead to in a tree. -/
def Tree.walk (t : Tree Name) : List Name → List (Move Name) → Option (List Name)
  | key, [] => some key
  | key, move :: moves =>
      if t.entry key = some .directory then t.walk (move.apply key) moves else none

/-- What stands where moves lead to. -/
def Tree.find (t : Tree Name) (key : List Name) (moves : List (Move Name)) : Option Entry :=
  (t.walk key moves).bind t.entry

variable {t : Tree Name} {key : List Name} {moves moves' : List (Move Name)}

/-! ## Walks -/

theorem go_append : go key (moves ++ moves') = go (go key moves) moves' := List.foldl_append

theorem walk_append_of_walk (h : t.walk key moves = some (go key moves)) :
    t.walk key (moves ++ moves') = t.walk (go key moves) moves' := by
  induction moves generalizing key with
  | nil => rfl
  | cons move moves ih =>
      rw [Tree.walk] at h
      split at h
      next hdir =>
        rw [List.cons_append, Tree.walk, if_pos hdir]
        exact ih h
      · cases h

/-- The last move of a walk that has come to a directory. -/
theorem walk_concat (h : t.walk key moves = some (go key moves))
    (hdir : t.entry (go key moves) = some .directory) (move : Move Name) :
    t.walk key (moves ++ [move]) = some (go key (moves ++ [move])) := by
  rw [walk_append_of_walk h, Tree.walk, if_pos hdir, go_append]
  rfl

/-- A move from a directory that leads to nothing leads into that directory. -/
theorem parent_of_move {move : Move Name} (hdir : t.entry key = some .directory)
    (h : t.entry (move.apply key) = none) : t.entry (move.apply key).tail = some .directory := by
  cases move with
  | stay => rw [Move.apply, hdir] at h; cases h
  | up =>
      cases key with
      | nil => rw [Move.apply, List.tail_nil, hdir] at h; cases h
      | cons name key =>
          have hparent := t.parent name key (by rw [hdir]; nofun)
          rw [Move.apply, List.tail_cons, hparent] at h
          cases h
  | down name => exact hdir

/-! ## Making directories -/

variable [DecidableEq Name]

/-- The tree with a directory at a key where nothing is. -/
def Tree.mkdir (t : Tree Name) (key : List Name) (hnew : t.entry key = none)
    (hparent : t.entry key.tail = some .directory) : Tree Name where
  entry := fun k => if k = key then some .directory else t.entry k
  root := by
    split
    · rfl
    · exact t.root
  parent := by
    intro name k h
    split at h
    next heq =>
      subst heq
      rw [List.tail_cons] at hparent
      simp [hparent]
    next hne =>
      have hdir := t.parent name k h
      split
      · rfl
      · exact hdir

theorem mkdir_entry (hnew : t.entry key = none) (hparent : t.entry key.tail = some .directory)
    (k : List Name) :
    (t.mkdir key hnew hparent).entry k = if k = key then some .directory else t.entry k := rfl

/-- What was there is still there. -/
theorem mkdir_entry_of_some {k : List Name} {e : Entry} (hnew : t.entry key = none)
    (hparent : t.entry key.tail = some .directory) (h : t.entry k = some e) :
    (t.mkdir key hnew hparent).entry k = some e := by
  have hne : k ≠ key := by
    rintro rfl
    rw [hnew] at h
    cases h
  rw [mkdir_entry, if_neg hne, h]

end FileTree
