import Mathlib.Data.List.DropRight
import Mathlib.Data.List.GetD
import VmpSa.Lib.CString
import VmpSa.Lib.FileTree
import VmpSa.Lib.Loop
import VmpSa.Lib.Memory

/-!
# Directories

`vpk_mkdir_mult` of `vmp/src/vpk_ifilesys.c`, which makes a directory with all
its parents.  It copies the path into an array, appends a `'/'` unless the path
ends in one, and walks over the bytes of the path.  At each `'/'` but a first one
it cuts the copy there, makes the directory if nothing is there, and puts the
`'/'` back.

The bound of the walk is the length before the `'/'` is appended, so the appended
one is never reached.  What is made is the prefixes in front of a `'/'` of the path
itself (`mkdirMult_spec`), and the last directory only where one of these names it.

Paths are resolved in a tree without symbolic links: `""` and `"."` stay, `".."`
goes up, and every other name goes down.  Which directories the kernel lets a
process make is a parameter, `grants`.
-/

namespace VmpSa

open FileTree (Entry Move go)

/-! ## The file system -/

/-- The files, the working directory, and where directories may be made. -/
structure FileSystem where
  tree : FileTree.Tree (List UInt8)
  cwd : List (List UInt8)
  cwd_directory : tree.entry cwd = some .directory
  grants : List (List UInt8) → Bool

/-- The move a name between slashes stands for. -/
def moveOf (name : List UInt8) : Move (List UInt8) :=
  if name = [] ∨ name = [46] then .stay
  else if name = [46, 46] then .up
  else .down name

/-- The moves of a path. -/
def moves (path : List UInt8) : List (Move (List UInt8)) := (path.splitOn 47).map moveOf

namespace FileSystem

/-- Where a path starts. -/
def start (fs : FileSystem) (path : List UInt8) : List (List UInt8) :=
  if path.head? = some 47 then [] else fs.cwd

/-- The key a path names. -/
def key (fs : FileSystem) (path : List UInt8) : List (List UInt8) :=
  go (fs.start path) (moves path)

/-- What the kernel finds at a path.  It finds nothing at the empty one. -/
def lookup (fs : FileSystem) (path : List UInt8) : Option Entry :=
  if path = [] then none else fs.tree.find (fs.start path) (moves path)

/-- `access(path, F_OK)`. -/
def access (fs : FileSystem) (path : List UInt8) : Int :=
  if (fs.lookup path).isSome then 0 else -1

/-- A directory at a key, where nothing is and one may be made. -/
def make (fs : FileSystem) (key : List (List UInt8)) : Option FileSystem :=
  if h : fs.tree.entry key = none ∧ fs.tree.entry key.tail = some .directory then
    if fs.grants key then
      some { fs with
        tree := fs.tree.mkdir key h.1 h.2
        cwd_directory := FileTree.mkdir_entry_of_some h.1 h.2 fs.cwd_directory }
    else none
  else none

/-- `mkdir`, with no result when it fails.  Slashes behind the name are ignored. -/
def mkdir (fs : FileSystem) (path : List UInt8) : Option FileSystem :=
  if path = [] then none
  else (fs.tree.walk (fs.start path) (moves (path.rdropWhile (· = 47)))).bind fs.make

end FileSystem

/-! ## The model -/

/-- `FILENAME_MAX`. -/
def filenameMax : Nat := 4096

/-- `vpk_isdir`. -/
def vpkIsdir (fs : FileSystem) (path : List UInt8) : Bool := fs.lookup path = some .directory

/-- What `vpk_mkdir_mult` does with a prefix it has cut off, with no result where it
returns `-1`. -/
def mkdirPrefix (fs : FileSystem) (name : List UInt8) : Option FileSystem :=
  if fs.access name ≠ 0 then fs.mkdir name
  else if ¬ vpkIsdir fs name then none
  else some fs

/-- What the loop of `vpk_mkdir_mult` works on. -/
structure MkdirState where
  i : Nat
  tmp : List UInt8
  fs : FileSystem

/-- One pass of the loop. -/
def mkdirPass (len : Nat) (s : MkdirState) : Loop.Pass MkdirState (Int × FileSystem) :=
  if s.i < len then
    if s.tmp.getD s.i 0 = 47 ∧ 0 < s.i then
      let tmp := s.tmp.set s.i 0
      match mkdirPrefix s.fs (CString.text tmp) with
      | none => .leave (-1, s.fs)
      | some fs => .again { i := s.i + 1, tmp := tmp.set s.i 47, fs := fs }
    else .again { s with i := s.i + 1 }
  else .leave (0, s.fs)

theorem mkdirPass_decreases (len : Nat) : Loop.Decreases (mkdirPass len) fun s => len - s.i := by
  intro s s' h
  change len - s'.i < len - s.i
  unfold mkdirPass at h
  split at h
  next hi =>
    have hnext : s'.i = s.i + 1 := by
      split at h
      · simp only at h
        split at h
        · cases h
        · cases h
          rfl
      · cases h
        rfl
    omega
  · cases h

/-- `vpk_mkdir_mult`: the returned value and the file system.  For an empty path,
and for a length that is negative as an `int`, it leaves `tmp`. -/
def vpkMkdirMult (fs : FileSystem) (path : Option (List UInt8)) : Option (Int × FileSystem) :=
  match path with
  | none => some (-1, fs)
  | some path =>
      let len := CInt.ofSize path.length
      if len ≥ filenameMax - 1 then some (-1, fs)
      else if len ≤ 0 then none
      else
        let len := len.toNat
        let tmp := path.take len ++ List.replicate (filenameMax - len) 0
        let tmp := if tmp.getD (len - 1) 0 ≠ 47 then (tmp.set len 47).set (len + 1) 0 else tmp
        some (Loop.exec (mkdirPass len) _ (mkdirPass_decreases len)
          { i := 0, tmp := tmp, fs := fs })

/-! ## The terms of the result -/

/-- A path that fits into `tmp`. -/
structure DirPath where
  text : List UInt8
  ne_nil : text ≠ []
  short : text.length < filenameMax - 1
  nul_free : 0 ∉ text

/-- A proper prefix in front of a `'/'`. -/
def Cut (path x : List UInt8) : Prop := x ≠ [] ∧ ∃ y, path = x ++ 47 :: y

/-- The path or one of its proper prefixes. -/
def Named (path x : List UInt8) : Prop := x = path ∨ Cut path x

/-- A path names a file, or a directory that is not there and cannot be made. -/
def FileSystem.Refuses (fs : FileSystem) (x : List UInt8) : Prop :=
  fs.tree.entry (fs.key x) = some .file ∨
    fs.tree.entry (fs.key x) = none ∧ fs.grants (fs.key x) = false

/-- What the returned value promises: `0` that the path and its prefixes are
directories and nothing else has changed, and `-1` that one of them could not be. -/
structure MkdirKeeps (fs : FileSystem) (path : List UInt8) (ret : Int) (fs' : FileSystem) :
    Prop where
  made : ret = 0 → ∀ x, Named path x → fs'.lookup x = some .directory
  kept : ret = 0 → fs'.cwd = fs.cwd ∧ ∀ key, (∀ x, Named path x → fs.key x ≠ key) →
    fs'.tree.entry key = fs.tree.entry key
  refused : ret = -1 → ∃ x, Named path x ∧ fs.Refuses x

variable {fs fs' : FileSystem} {path x y z : List UInt8}

/-! ## Paths -/

theorem moves_append : moves (x ++ 47 :: y) = moves x ++ moves y := by
  rw [moves, List.splitOn_append_cons_self, List.map_append]
  rfl

theorem moves_of_notMem (h : 47 ∉ x) : moves x = [moveOf x] := by
  rw [moves, List.splitOn_eq_singleton h]
  rfl

theorem start_append (hx : x ≠ []) : fs.start (x ++ y) = fs.start x := by
  rw [FileSystem.start, List.head?_append_of_ne_nil _ hx]
  rfl

theorem key_append (hx : x ≠ []) : fs.key (x ++ 47 :: y) = go (fs.key x) (moves y) := by
  rw [FileSystem.key, start_append hx, moves_append, FileTree.go_append]
  rfl

theorem key_congr (h : fs'.cwd = fs.cwd) (x : List UInt8) : fs'.key x = fs.key x := by
  rw [FileSystem.key, FileSystem.start, h]
  rfl

theorem Cut.trans (hxy : Cut x y) (h : Cut path x) : Cut path y := by
  obtain ⟨hy, z, rfl⟩ := hxy
  obtain ⟨-, w, rfl⟩ := h
  exact ⟨hy, z ++ 47 :: w, by simp⟩

theorem Cut.length_lt (h : Cut path x) : x.length < path.length := by
  obtain ⟨-, y, rfl⟩ := h
  simp

theorem exists_last_slash (h : 47 ∈ x) : ∃ y z, x = y ++ 47 :: z ∧ 47 ∉ z := by
  obtain ⟨z, y, heq, hz⟩ := List.eq_append_cons_of_mem (List.mem_reverse.mpr h)
  refine ⟨y.reverse, z.reverse, ?_, fun hmem => hz (List.mem_reverse.mp hmem)⟩
  rw [← List.reverse_reverse x, heq]
  simp

theorem start_directory (fs : FileSystem) (x : List UInt8) :
    fs.tree.entry (fs.start x) = some .directory := by
  rw [FileSystem.start]
  split
  · exact fs.tree.root
  · exact fs.cwd_directory

/-- A path behind directories can be walked, and its last move is made from a
directory. -/
theorem walk_path (hx : x ≠ [])
    (hcuts : ∀ y, Cut x y → fs.tree.entry (fs.key y) = some .directory) :
    fs.tree.walk (fs.start x) (moves x) = some (fs.key x) ∧
      ∃ dir move, fs.tree.entry dir = some .directory ∧ fs.key x = Move.apply move dir := by
  induction hn : x.length using Nat.strongRecOn generalizing x with
  | _ n ih =>
      by_cases hslash : 47 ∈ x
      · obtain ⟨y, z, rfl, hz⟩ := exists_last_slash hslash
        have hwalk : fs.tree.walk (fs.start (y ++ 47 :: z)) (moves y) =
              some (go (fs.start (y ++ 47 :: z)) (moves y)) ∧
            fs.tree.entry (go (fs.start (y ++ 47 :: z)) (moves y)) = some .directory := by
          by_cases hy : y = []
          · -- an absolute path, in front of its first name
            subst hy
            have hstart : fs.start ([] ++ 47 :: z) = [] := rfl
            rw [hstart]
            exact ⟨if_pos fs.tree.root, fs.tree.root⟩
          · rw [start_append hy]
            have hlen : y.length < n := by
              rw [← hn, List.length_append, List.length_cons]
              omega
            have hcut : Cut (y ++ 47 :: z) y := ⟨hy, z, rfl⟩
            exact ⟨(ih _ hlen hy (fun w hw => hcuts w (hw.trans hcut)) rfl).1, hcuts y hcut⟩
        rw [FileSystem.key, moves_append, moves_of_notMem hz]
        refine ⟨FileTree.walk_concat hwalk.1 hwalk.2 _, _, moveOf z, hwalk.2, ?_⟩
        rw [FileTree.go_append]
        rfl
      · rw [FileSystem.key, moves_of_notMem hslash]
        have hdir := start_directory fs x
        exact ⟨if_pos hdir, _, moveOf x, hdir, rfl⟩

theorem lookup_path (hx : x ≠ [])
    (hcuts : ∀ y, Cut x y → fs.tree.entry (fs.key y) = some .directory) :
    fs.lookup x = fs.tree.entry (fs.key x) := by
  rw [FileSystem.lookup, if_neg hx, FileTree.Tree.find, (walk_path hx hcuts).1, Option.bind_some]

/-! ## One prefix -/

/-- Where nothing is, the path does not end in a slash. -/
theorem rdropWhile_path (hx : x ≠ [])
    (hcuts : ∀ y, Cut x y → fs.tree.entry (fs.key y) = some .directory)
    (h : fs.tree.entry (fs.key x) = none) : x.rdropWhile (· = 47) = x := by
  rw [List.rdropWhile_eq_self_iff]
  intro hne hlast
  have hlast : x.getLast hne = 47 := of_decide_eq_true hlast
  have hsplit : x = x.dropLast ++ [47] := by rw [← hlast, List.dropLast_concat_getLast hne]
  generalize x.dropLast = y at hsplit
  subst hsplit
  by_cases hy : y = []
  · subst hy
    rw [show fs.key ([] ++ [47]) = [] from rfl, fs.tree.root] at h
    cases h
  · rw [key_append hy, show go (fs.key y) (moves []) = fs.key y from rfl,
      hcuts y ⟨hy, [], rfl⟩] at h
    cases h

/-- Where nothing is, `mkdir` makes a directory if it is let. -/
theorem mkdir_path (hx : x ≠ [])
    (hcuts : ∀ y, Cut x y → fs.tree.entry (fs.key y) = some .directory)
    (h : fs.tree.entry (fs.key x) = none) : fs.mkdir x = fs.make (fs.key x) := by
  rw [FileSystem.mkdir, if_neg hx, rdropWhile_path hx hcuts h, (walk_path hx hcuts).1,
    Option.bind_some]

/-- The file system with a directory where a path leads, if it was not there yet. -/
structure Makes (fs : FileSystem) (x : List UInt8) (fs' : FileSystem) : Prop where
  cwd : fs'.cwd = fs.cwd
  grants : fs'.grants = fs.grants
  made : fs'.tree.entry (fs.key x) = some .directory
  kept : ∀ key, key ≠ fs.key x → fs'.tree.entry key = fs.tree.entry key

/-- Where nothing is, a directory is made if it may be. -/
theorem mkdirPrefix_missing (hx : x ≠ [])
    (hcuts : ∀ y, Cut x y → fs.tree.entry (fs.key y) = some .directory)
    (hentry : fs.tree.entry (fs.key x) = none) :
    (mkdirPrefix fs x = none ∧ fs.grants (fs.key x) = false) ∨
      ∃ fs', mkdirPrefix fs x = some fs' ∧ fs.grants (fs.key x) = true ∧ Makes fs x fs' := by
  have haccess : fs.access x = -1 := by
    rw [FileSystem.access, lookup_path hx hcuts, hentry]
    rfl
  obtain ⟨-, dir, move, hdir, hkey⟩ := walk_path hx hcuts
  have hparent : fs.tree.entry (fs.key x).tail = some .directory := by
    rw [hkey] at hentry ⊢
    exact FileTree.parent_of_move hdir hentry
  rw [mkdirPrefix, haccess, if_pos (by decide), mkdir_path hx hcuts hentry, FileSystem.make,
    dif_pos ⟨hentry, hparent⟩]
  cases fs.grants (fs.key x) with
  | false => exact Or.inl ⟨rfl, rfl⟩
  | true =>
      refine Or.inr ⟨_, rfl, rfl, rfl, rfl, ?_, ?_⟩
      · rw [FileTree.mkdir_entry, if_pos rfl]
      · intro key hne
        rw [FileTree.mkdir_entry, if_neg hne]

/-- Where something is, it has to be a directory. -/
theorem mkdirPrefix_found (hx : x ≠ [])
    (hcuts : ∀ y, Cut x y → fs.tree.entry (fs.key y) = some .directory) {entry : Entry}
    (hentry : fs.tree.entry (fs.key x) = some entry) :
    mkdirPrefix fs x = if entry = .directory then some fs else none := by
  have haccess : fs.access x = 0 := by
    rw [FileSystem.access, lookup_path hx hcuts, hentry]
    rfl
  rw [mkdirPrefix, haccess, vpkIsdir, lookup_path hx hcuts, hentry]
  cases entry <;> rfl

/-- A prefix behind directories is made a directory unless it is refused. -/
theorem mkdirPrefix_spec (hx : x ≠ [])
    (hcuts : ∀ y, Cut x y → fs.tree.entry (fs.key y) = some .directory) :
    (mkdirPrefix fs x = none ∧ fs.Refuses x) ∨
      ∃ fs', mkdirPrefix fs x = some fs' ∧ ¬ fs.Refuses x ∧ Makes fs x fs' := by
  rw [FileSystem.Refuses]
  cases hentry : fs.tree.entry (fs.key x) with
  | none =>
      rcases mkdirPrefix_missing hx hcuts hentry with ⟨hnone, hgrant⟩ | ⟨fs', hsome, hgrant, hmakes⟩
      · exact Or.inl ⟨hnone, Or.inr ⟨rfl, hgrant⟩⟩
      · exact Or.inr ⟨fs', hsome, by simp [hgrant], hmakes⟩
  | some entry =>
      rw [mkdirPrefix_found hx hcuts hentry]
      cases entry with
      | file => exact Or.inl ⟨rfl, Or.inl rfl⟩
      | directory => exact Or.inr ⟨fs, rfl, by simp, rfl, rfl, hentry, fun _ _ => rfl⟩

/-! ## The loop -/

/-- The prefixes of less than `i` bytes have been made directories. -/
structure Made (fs : FileSystem) (path : List UInt8) (i : Nat) (fs' : FileSystem) : Prop where
  cwd : fs'.cwd = fs.cwd
  grants : fs'.grants = fs.grants
  made : ∀ x, Cut path x → x.length < i → fs'.tree.entry (fs.key x) = some .directory
  kept : ∀ key, (∀ x, Cut path x → x.length < i → fs.key x ≠ key) →
    fs'.tree.entry key = fs.tree.entry key
  granted : ∀ x, Cut path x → x.length < i → ¬ fs.Refuses x

theorem made_zero (fs : FileSystem) (path : List UInt8) : Made fs path 0 fs where
  cwd := rfl
  grants := rfl
  made := fun _ _ h => absurd h (Nat.not_lt_zero _)
  kept := fun _ _ => rfl
  granted := fun _ _ h => absurd h (Nat.not_lt_zero _)

/-- What is refused now was refused before. -/
theorem Made.refuses_iff {i : Nat} (h : Made fs path i fs') (x : List UInt8) :
    fs'.Refuses x ↔ fs.Refuses x := by
  rw [FileSystem.Refuses, FileSystem.Refuses, key_congr h.cwd, h.grants]
  by_cases hnew : ∃ y, Cut path y ∧ y.length < i ∧ fs.key y = fs.key x
  · -- a directory was made there, and was not refused
    obtain ⟨y, hy, hlen, hkey⟩ := hnew
    have hmade := h.made y hy hlen
    have hgranted := h.granted y hy hlen
    rw [FileSystem.Refuses, hkey] at hgranted
    rw [hkey] at hmade
    simp [hmade, hgranted]
  · rw [h.kept (fs.key x) fun y hy hlen hkey => hnew ⟨y, hy, hlen, hkey⟩]

/-- One more prefix is made a directory. -/
theorem Made.step (h : Made fs path x.length fs') (hx : Cut path x) {fs'' : FileSystem}
    (hgranted : ¬ fs'.Refuses x) (hmakes : Makes fs' x fs'') :
    Made fs path (x.length + 1) fs'' := by
  have hkey := key_congr h.cwd x
  -- a prefix is told by its length
  have hcases : ∀ y, Cut path y → y.length < x.length + 1 → y.length < x.length ∨ y = x := by
    intro y hy hlen
    rcases Nat.lt_succ_iff_lt_or_eq.mp hlen with hlt | heq
    · exact Or.inl hlt
    · obtain ⟨-, w, hw⟩ := hy
      obtain ⟨-, w', hw'⟩ := hx
      exact Or.inr (List.append_inj_left (hw.symm.trans hw') heq)
  refine ⟨hmakes.cwd.trans h.cwd, hmakes.grants.trans h.grants, ?_, ?_, ?_⟩
  · intro y hy hlen
    by_cases heq : fs.key y = fs'.key x
    · rw [heq, hmakes.made]
    · rw [hmakes.kept _ heq]
      rcases hcases y hy hlen with hlt | rfl
      · exact h.made y hy hlt
      · exact absurd hkey.symm heq
  · intro key hnew
    rw [hmakes.kept key fun heq => hnew x hx (Nat.lt_succ_self _) (by rw [heq, hkey]),
      h.kept key fun y hy hlt => hnew y hy (Nat.lt_succ_of_lt hlt)]
  · intro y hy hlen
    rcases hcases y hy hlen with hlt | rfl
    · exact h.granted y hy hlt
    · rwa [← h.refuses_iff]

/-- No prefix ends here. -/
theorem Made.skip {i : Nat} (h : Made fs path i fs') (hno : ∀ x, Cut path x → x.length ≠ i) :
    Made fs path (i + 1) fs' := by
  have hlt : ∀ x, Cut path x → x.length < i + 1 → x.length < i := fun x hx hlen =>
    Nat.lt_of_le_of_ne (Nat.le_of_lt_succ hlen) (hno x hx)
  exact ⟨h.cwd, h.grants, fun x hx hlen => h.made x hx (hlt x hx hlen),
    fun key hnew => h.kept key fun x hx hlen => hnew x hx (Nat.lt_succ_of_lt hlen),
    fun x hx hlen => h.granted x hx (hlt x hx hlen)⟩

/-- A slash in the path that is not its first byte cuts off a prefix. -/
theorem cut_iff {i : Nat} (hi : i < path.length) :
    (∃ x, Cut path x ∧ x.length = i) ↔ path.getD i 0 = 47 ∧ 0 < i := by
  constructor
  · rintro ⟨x, ⟨hx, y, rfl⟩, rfl⟩
    refine ⟨?_, List.length_pos_iff.mpr hx⟩
    rw [List.getD_append_right _ _ _ _ (Nat.le_refl _), Nat.sub_self]
    rfl
  · rintro ⟨hslash, hpos⟩
    have hlen : (path.take i).length = i := List.length_take_of_le (Nat.le_of_lt hi)
    refine ⟨path.take i, ⟨List.length_pos_iff.mp (by omega), path.drop (i + 1), ?_⟩, hlen⟩
    rw [List.getD_eq_getElem _ _ hi] at hslash
    rw [← hslash, List.getElem_cons_drop, List.take_append_drop]

/-- What the loop has reached before each pass. -/
structure MkdirInv (fs : FileSystem) (path tmp : List UInt8) (s : MkdirState) : Prop where
  tmp_eq : s.tmp = tmp
  i_le : s.i ≤ path.length
  made : Made fs path s.i s.fs

/-- What the loop leaves with. -/
def Returns (fs : FileSystem) (path : List UInt8) (r : Int × FileSystem) : Prop :=
  r.1 = 0 ∧ Made fs path path.length r.2 ∨ r.1 = -1 ∧ ∃ x, Cut path x ∧ fs.Refuses x

variable {tmp rest : List UInt8} {s : MkdirState}

/-- A pass over a slash, for which the copy is cut and put together again. -/
theorem mkdirPass_cut (h : MkdirInv fs path (path ++ rest) s) (hnul : 0 ∉ path)
    (hx : Cut path x) (hi : s.i = x.length) :
    mkdirPass path.length s = match mkdirPrefix s.fs x with
      | none => .leave (-1, s.fs)
      | some fs => .again { i := s.i + 1, tmp := path ++ rest, fs := fs } := by
  have hlt := hx.length_lt
  have hslash := (cut_iff hlt).mp ⟨x, hx, rfl⟩
  have hget : (path ++ rest).getD x.length 0 = 47 ∧ 0 < x.length := by
    rwa [List.getD_append _ _ _ _ hlt]
  obtain ⟨-, y, rfl⟩ := hx
  have hcut : ((x ++ 47 :: y) ++ rest).set x.length 0 = x ++ 0 :: (y ++ rest) := by simp
  have hback : (x ++ 0 :: (y ++ rest)).set x.length 47 = (x ++ 47 :: y) ++ rest := by simp
  have htext : CString.text (x ++ 0 :: (y ++ rest)) = x :=
    CString.text_append fun hmem => hnul (List.mem_append_left _ hmem)
  simp only [mkdirPass, h.tmp_eq, hi, if_pos hlt, if_pos hget, hcut, hback, htext]

/-- A pass keeps the invariant. -/
theorem mkdirPass_spec (h : MkdirInv fs path (path ++ rest) s) (hnul : 0 ∉ path) :
    (∃ s', mkdirPass path.length s = .again s' ∧ MkdirInv fs path (path ++ rest) s') ∨
      ∃ r, mkdirPass path.length s = .leave r ∧ Returns fs path r := by
  by_cases hi : s.i < path.length
  · by_cases hcut : ∃ x, Cut path x ∧ x.length = s.i
    · obtain ⟨x, hx, hlen⟩ := hcut
      have hmade : Made fs path x.length s.fs := hlen ▸ h.made
      rw [mkdirPass_cut h hnul hx hlen.symm]
      have hcuts : ∀ y, Cut x y → s.fs.tree.entry (s.fs.key y) = some .directory := by
        intro y hy
        rw [key_congr hmade.cwd]
        exact hmade.made y (hy.trans hx) hy.length_lt
      rcases mkdirPrefix_spec hx.1 hcuts with ⟨hnone, hrefuses⟩ | ⟨fs', hsome, hgranted, hmakes⟩
      · rw [hnone]
        exact Or.inr ⟨_, rfl, Or.inr ⟨rfl, x, hx, (hmade.refuses_iff x).mp hrefuses⟩⟩
      · rw [hsome]
        refine Or.inl ⟨_, rfl, rfl, hi, ?_⟩
        have hstep := hmade.step hx hgranted hmakes
        rwa [hlen] at hstep
    · have hpass : mkdirPass path.length s = .again { s with i := s.i + 1 } := by
        have hslash := fun hslash => hcut ((cut_iff hi).mpr hslash)
        rw [← List.getD_append _ rest _ _ hi, ← h.tmp_eq] at hslash
        rw [mkdirPass, if_pos hi, if_neg hslash]
      exact Or.inl ⟨_, hpass, h.tmp_eq, hi, h.made.skip fun x hx hlen => hcut ⟨x, hx, hlen⟩⟩
  · have heq : s.i = path.length := Nat.le_antisymm h.i_le (Nat.not_lt.mp hi)
    refine Or.inr ⟨(0, s.fs), by rw [mkdirPass, if_neg hi], Or.inl ⟨rfl, ?_⟩⟩
    exact heq ▸ h.made

/-- The loop leaves as it should. -/
theorem mkdirLoop_returns (fs : FileSystem) (hnul : 0 ∉ path) (rest : List UInt8) :
    Returns fs path (Loop.exec (mkdirPass path.length) _ (mkdirPass_decreases path.length)
      { i := 0, tmp := path ++ rest, fs := fs }) := by
  refine Loop.exec_rule _ (MkdirInv fs path (path ++ rest)) _ ?_ ?_ _
    ⟨rfl, Nat.zero_le _, made_zero fs path⟩
  · intro s s' hinv hpass
    rcases mkdirPass_spec hinv hnul with ⟨s'', hagain, hinv'⟩ | ⟨r, hleave, -⟩
    · cases hpass.symm.trans hagain
      exact hinv'
    · cases hpass.symm.trans hleave
  · intro s r hinv hpass
    rcases mkdirPass_spec hinv hnul with ⟨s', hagain, -⟩ | ⟨r', hleave, hreturns⟩
    · cases hpass.symm.trans hagain
    · cases hpass.symm.trans hleave
      exact hreturns

/-- What `vpk_mkdir_mult` returns, and what it has made. -/
theorem mkdirMult_spec (fs : FileSystem) (path : DirPath) :
    ∃ ret fs', vpkMkdirMult fs (some path.text) = some (ret, fs') ∧
      Returns fs path.text (ret, fs') := by
  have hshort := path.short
  have hpos := List.length_pos_iff.mpr path.ne_nil
  have hmax : filenameMax = 4096 := rfl
  have hlen : CInt.ofSize path.text.length = path.text.length := CInt.ofSize_of_lt (by omega)
  rw [vpkMkdirMult]
  simp only [hlen, Int.toNat_natCast, List.take_length]
  rw [if_neg (by omega), if_neg (by omega)]
  refine ⟨_, _, rfl, ?_⟩
  -- the appended slash stands behind the path, where the loop does not come
  split
  · rw [List.set_append_right _ _ (Nat.le_refl _), List.set_append_right _ _ (Nat.le_succ _)]
    exact mkdirLoop_returns fs path.nul_free _
  · exact mkdirLoop_returns fs path.nul_free _

/-- With every prefix made, a prefix or the path is found where it leads. -/
theorem Made.lookup (h : Made fs path path.length fs') (hx : Named path x) (hne : x ≠ []) :
    fs'.lookup x = fs'.tree.entry (fs.key x) := by
  rw [lookup_path hne, key_congr h.cwd]
  intro y hy
  have hcut : Cut path y := by
    rcases hx with rfl | hx
    · exact hy
    · exact hy.trans hx
  rw [key_congr h.cwd]
  exact h.made y hcut hcut.length_lt

/-- The path is a directory now if it was one before or a prefix names the same. -/
theorem Made.directory_iff (h : Made fs path path.length fs') :
    fs'.tree.entry (fs.key path) = some .directory ↔
      fs.tree.entry (fs.key path) = some .directory ∨
        ∃ x, Cut path x ∧ fs.key x = fs.key path := by
  by_cases hsame : ∃ x, Cut path x ∧ fs.key x = fs.key path
  · refine iff_of_true ?_ (Or.inr hsame)
    obtain ⟨x, hx, hkey⟩ := hsame
    rw [← hkey]
    exact h.made x hx hx.length_lt
  · rw [or_iff_left hsame, h.kept _ fun x hx _ hkey => hsame ⟨x, hx, hkey⟩]

/-! ## The result -/

/-- With every prefix made, the promise of `0` is kept if the path is a directory too. -/
theorem Made.keeps_iff (h : Made fs path path.length fs') (hne : path ≠ []) :
    MkdirKeeps fs path 0 fs' ↔ fs'.tree.entry (fs.key path) = some .directory := by
  rw [← h.lookup (Or.inl rfl) hne]
  constructor
  · intro hkeeps
    exact hkeeps.made rfl path (Or.inl rfl)
  · intro hdir
    refine ⟨fun _ x hx => ?_, fun _ => ⟨h.cwd, fun key hother => ?_⟩, nofun⟩
    · rcases hx with rfl | hcut
      · exact hdir
      · rw [h.lookup (Or.inr hcut) hcut.1, h.made x hcut hcut.length_lt]
    · exact h.kept key fun x hx _ => hother x (Or.inr hx)

/-- The promise is kept exactly when a prefix is refused, the path is a directory
already, or it names the same directory as one of its prefixes, as it does when it
ends in a `'/'`. -/
theorem mkdirMult_keeps_iff (fs : FileSystem) (path : DirPath) :
    (∃ ret fs', vpkMkdirMult fs (some path.text) = some (ret, fs') ∧
        MkdirKeeps fs path.text ret fs') ↔
      (∃ x, Cut path.text x ∧ fs.Refuses x) ∨
        fs.tree.entry (fs.key path.text) = some .directory ∨
        ∃ x, Cut path.text x ∧ fs.key x = fs.key path.text := by
  obtain ⟨ret, fs', hmult, hreturns⟩ := mkdirMult_spec fs path
  have hkeeps : (∃ ret fs', vpkMkdirMult fs (some path.text) = some (ret, fs') ∧
      MkdirKeeps fs path.text ret fs') ↔ MkdirKeeps fs path.text ret fs' := by
    constructor
    · rintro ⟨ret', fs'', hmult', hkeeps⟩
      rw [hmult] at hmult'
      cases hmult'
      exact hkeeps
    · exact fun hkeeps => ⟨ret, fs', hmult, hkeeps⟩
  rw [hkeeps]
  rcases hreturns with ⟨hret, hmade⟩ | ⟨hret, x, hx, hrefuses⟩
  · obtain rfl : ret = 0 := hret
    have hmade : Made fs path.text path.text.length fs' := hmade
    have hnone : ¬ ∃ x, Cut path.text x ∧ fs.Refuses x := by
      rintro ⟨x, hx, hrefuses⟩
      exact hmade.granted x hx hx.length_lt hrefuses
    rw [or_iff_right hnone, hmade.keeps_iff path.ne_nil, hmade.directory_iff]
  · obtain rfl : ret = -1 := hret
    exact iff_of_true ⟨nofun, nofun, fun _ => ⟨x, Or.inr hx, hrefuses⟩⟩
      (Or.inl ⟨x, hx, hrefuses⟩)

/-- A root directory with nothing in it, where every directory may be made. -/
def emptyFileSystem : FileSystem where
  tree :=
    { entry := fun key => if key = [] then some .directory else none
      root := rfl
      parent := by
        intro name key h
        simp at h }
  cwd := []
  cwd_directory := rfl
  grants := fun _ => true

/-- `"a"`. -/
def plainPath : DirPath where
  text := [97]
  ne_nil := by decide
  short := by decide
  nul_free := by decide

/-- A name without a `'/'` is not made, and `0` is returned. -/
theorem mkdirMult_makes_nothing :
    ¬ ∀ (fs : FileSystem) (path : DirPath), ∃ ret fs',
      vpkMkdirMult fs (some path.text) = some (ret, fs') ∧ MkdirKeeps fs path.text ret fs' := by
  intro h
  obtain ⟨ret, fs', hmult, hkeeps⟩ := h emptyFileSystem plainPath
  obtain ⟨ret', fs'', hmult', hreturns⟩ := mkdirMult_spec emptyFileSystem plainPath
  rw [hmult] at hmult'
  cases hmult'
  have hnone : ∀ x, ¬ Cut plainPath.text x := by
    rintro x ⟨-, y, hy⟩
    have hmem : 47 ∈ plainPath.text := by simp [hy]
    revert hmem
    decide
  rcases hreturns with ⟨hret, hmade⟩ | ⟨-, x, hx, -⟩
  · have hdir := hkeeps.made hret plainPath.text (Or.inl rfl)
    rw [hmade.lookup (Or.inl rfl) plainPath.ne_nil, hmade.kept _ fun x hx => absurd hx (hnone x)]
      at hdir
    revert hdir
    decide
  · exact hnone x hx

end VmpSa
