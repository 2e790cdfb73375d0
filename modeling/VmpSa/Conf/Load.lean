import VmpSa.Conf.Line
import VmpSa.Lib.CString
import VmpSa.Lib.Loop

/-!
# Loading a configuration file

`iniparser_load` of `common/utils/iniparser.c` reads the file with `fgets` into a buffer
of one line, glues lines that end with a backslash together in it, and stores what each
line says into a dictionary as it goes.

`meaning` says what a file means without buffer, dictionary or loop: it is cut into
lines, these into logical lines, these are read as assignments, and the assignments are
made one after the other, so that the last one counts.  `iniparser_load_meaning` says
that the loader computes just that, and answers NULL when a line does not fit or has a
syntax error.
-/

namespace VmpSa.Conf

/-! ## The model -/

/-- `ASCIILINESZ` -/
def asciiLineSz : Nat := 1024

/-- Which allocations succeed while a line is handled. -/
structure LineMem where
  /-- The copy of the line in `iniparser_line`. -/
  copy : Bool
  entry : Allocations

/-- The variables of `iniparser_load`.  `pending` is what `line` holds in front of
`last`, `name` is the section, and `input` is what is left of the file. -/
structure Loader where
  input : Str
  pending : Str
  name : Str
  dict : Created
  lineno : Nat
  errs : Nat

/-- What `fgets` reads with room for `n` bytes and what it leaves. -/
def fgetsBytes : Nat → Str → Str × Str
  | 0, input => ([], input)
  | _ + 1, [] => ([], [])
  | n + 1, c :: input =>
      if c = newline then ([c], input)
      else (c :: (fgetsBytes n input).1, (fgetsBytes n input).2)

/-- What a call of `fgets` does: the bytes read, the rest of the file, and `feof`. -/
structure Fgets where
  bytes : Str
  rest : Str
  eof : Bool

/-- `fgets`, which stores a NUL behind the bytes; `none` is NULL. -/
def fgets (size : Nat) (input : Str) : Option Fgets :=
  match input with
  | [] => none
  | input =>
      let r := fgetsBytes (size - 1) input
      some ⟨r.1, r.2, r.1.length < size - 1 ∧ r.1.getLast? ≠ some newline⟩

/-- The `switch` on what `iniparser_line` returns, with `mem_err`.  A copy of the line
that fails makes it empty. -/
def Loader.store (s : Loader) (mem : LineMem) (line : Str) : Option (Loader × Int) :=
  match if mem.copy then iniparserLine line s.name else .lineEmpty with
  | .lineEmpty => some (s, 0)
  | .lineComment => some (s, 0)
  | .lineSection name =>
      (s.dict.set (some name) none mem.entry).map fun r =>
        ({ s with name := name, dict := r.1 }, r.2)
  | .lineValue key val =>
      (s.dict.set (some (s.name ++ colon :: key)) (some val) mem.entry).map fun r =>
        ({ s with dict := r.1 }, r.2)
  | .lineError => some ({ s with errs := s.errs + 1 }, 0)

/-- The dictionary is deleted and NULL returned. -/
def Loader.giveUp (s : Loader) : Option (Option Created) := s.dict.del.map fun _ => none

/-- The end of `iniparser_load`. -/
def Loader.finish (s : Loader) : Option (Option Created) :=
  if s.errs ≠ 0 then s.giveUp else some (some s.dict)

/-- The loop body of `iniparser_load`.  It leaves with `none` when a call in it does not
return. -/
def loadBody (mem : Nat → LineMem) (s : Loader) : Loop.Pass Loader (Option (Option Created)) :=
  match fgets (asciiLineSz - s.pending.length) s.input with
  | none => .leave s.finish
  | some r =>
      let line := CString.text (s.pending ++ r.bytes)
      let s := { s with input := r.rest, lineno := s.lineno + 1 }
      if line.length ≤ 1 then .again s
      else if line.getLast? ≠ some newline ∧ r.eof = false then .leave s.giveUp
      else
        let line := line.rdropWhile isspace
        if line.getLast? = some backslash then .again { s with pending := line.dropLast }
        else
          match { s with pending := [] }.store (mem s.lineno) line with
          | none => .leave none
          | some (s, memErr) => if memErr < 0 then .leave s.finish else .again s

/-- The variables in front of the loop. -/
def Loader.start (input : Str) (dict : Created) : Loader where
  input := input
  pending := []
  name := []
  dict := dict
  lineno := 0
  errs := 0

/-- `iniparser_load` of a file that holds `input`, or that cannot be opened.  `none` when
it does not return, `some none` when it returns NULL. -/
def iniparserLoad (file : Option Str) (new : NewAllocations) (mem : Nat → LineMem) :
    Option (Option Created) :=
  match file with
  | none => some none
  | some input =>
      match dictionaryNew 0 new with
      | none => some none
      | some dict =>
          (Loop.run (loadBody mem) (input.length + 1) (.start input dict)).join

/-! ## What a file means -/

/-- A line, with what is pending in front of it, fits into the buffer and is seen to be
whole: it has its newline or is short of the room. -/
def Fits (text : Str) : Prop :=
  text.length + 1 < asciiLineSz ∨ (text.length + 1 = asciiLineSz ∧ text.getLast? = some newline)

instance (text : Str) : Decidable (Fits text) := inferInstanceAs (Decidable (_ ∨ _))

/-- The logical lines: a line that ends with a backslash, blanks aside, goes on with the
next one.  `none` when a line does not fit.  A line of one byte says nothing. -/
def logical : Str → List Str → Option (List Str)
  | _, [] => some []
  | pending, l :: ls =>
      let text := pending ++ l
      if ¬Fits text then none
      else if text.length ≤ 1 then logical pending ls
      else
        let text := text.rdropWhile isspace
        if text.getLast? = some backslash then logical text.dropLast ls
        else (logical [] ls).map (text :: ·)

/-- What logical lines assign, in a section.  `none` when one has a syntax error. -/
def assignments : Str → List Str → Option (List (Str × Option Str))
  | _, [] => some []
  | name, l :: ls =>
      match iniparserLine l name with
      | .lineEmpty => assignments name ls
      | .lineComment => assignments name ls
      | .lineSection name => (assignments name ls).map ((name, none) :: ·)
      | .lineValue key val =>
          (assignments name ls).map ((name ++ colon :: key, some val) :: ·)
      | .lineError => none

/-- The assignments made one after the other. -/
def assign (m : Str → Option (Option Str)) (as : List (Str × Option Str)) :
    Str → Option (Option Str) :=
  as.foldl (fun m a => Function.update m a.1 (some a.2)) m

/-- The assignments of a file. -/
def fileAssignments (file : Str) : Option (List (Str × Option Str)) :=
  (logical [] (Text.lines newline file)).bind (assignments [])

/-- What a file means. -/
def meaning (file : Str) : Option (Str → Option (Option Str)) :=
  (fileAssignments file).map (assign fun _ => none)

/-! ## Reading a line -/

variable {input : Str} {n : Nat}

/-- A line that fits into the room is read whole. -/
theorem fgetsBytes_eq (h : (Text.firstLine newline input).1.length ≤ n) :
    fgetsBytes n input = Text.firstLine newline input := by
  induction input generalizing n with
  | nil => cases n <;> rfl
  | cons c input ih =>
      cases n with
      | zero =>
          have hne := Text.firstLine_ne_nil newline (List.cons_ne_nil c input)
          exact absurd (List.length_eq_zero_iff.mp (Nat.le_zero.mp h)) hne
      | succ n =>
          rw [Text.firstLine] at h ⊢
          rw [fgetsBytes]
          split
          · rfl
          next hc =>
            rw [if_neg hc] at h
            rw [ih (Nat.le_of_succ_le_succ h)]

/-- Of a line that does not fit, as much is read as there is room, and no newline. -/
theorem fgetsBytes_long (h : n < (Text.firstLine newline input).1.length) :
    (fgetsBytes n input).1.length = n ∧ newline ∉ (fgetsBytes n input).1 := by
  induction input generalizing n with
  | nil => cases h
  | cons c input ih =>
      cases n with
      | zero => exact ⟨rfl, List.not_mem_nil⟩
      | succ n =>
          rw [Text.firstLine] at h
          rw [fgetsBytes]
          split at h
          · cases Nat.lt_of_succ_lt_succ h
          next hc =>
            rw [if_neg hc]
            obtain ⟨hlen, hnot⟩ := ih (Nat.lt_of_succ_lt_succ h)
            refine ⟨congrArg Nat.succ hlen, ?_⟩
            rw [List.mem_cons, not_or]
            exact ⟨Ne.symm hc, hnot⟩

theorem fgetsBytes_append (n : Nat) (input : Str) :
    (fgetsBytes n input).1 ++ (fgetsBytes n input).2 = input := by
  induction input generalizing n with
  | nil => cases n <;> rfl
  | cons c input ih =>
      cases n with
      | zero => rfl
      | succ n =>
          rw [fgetsBytes]
          split
          · rfl
          · exact congrArg (c :: ·) (ih n)

theorem fgets_of_ne_nil (hne : input ≠ []) (size : Nat) :
    fgets size input = some ⟨(fgetsBytes (size - 1) input).1, (fgetsBytes (size - 1) input).2,
      (fgetsBytes (size - 1) input).1.length < size - 1 ∧
        (fgetsBytes (size - 1) input).1.getLast? ≠ some newline⟩ := by
  cases input with
  | nil => exact absurd rfl hne
  | cons c input => rfl

/-! ## Storing a line -/

/-- Every allocation succeeds. -/
def LineMem.Granted (mem : LineMem) : Prop :=
  mem.copy = true ∧ mem.entry.grow = true ∧ mem.entry.key = true ∧ mem.entry.val = true

/-- With memory, `dictionary_set` binds the key. -/
theorem Created.Sound.set_granted {d : Created} (h : d.Sound) {mem : LineMem}
    (hmem : mem.Granted) (key : Str) (val : Option Str) :
    ∃ d', d.set (some key) val mem.entry = some (d', 0) ∧ d'.Sound ∧
      d'.toStore.map = Function.update d.toStore.map key (some val) := by
  obtain ⟨-, hgrow, hkey, hval⟩ := hmem
  have hcopy : val.bind (xstrdup mem.entry.val) = val := by
    cases val with
    | none => rfl
    | some v => rw [Option.bind_some, xstrdup, if_pos hval]
  obtain ⟨d', hset, hs, hstore⟩ := h.set_spec (some key) val mem.entry
  refine ⟨d', ?_, hs, ?_⟩
  · rw [hset]
    cases hbound : d.toStore.map key with
    | none => rw [Store.set_new hbound fun _ => hgrow]
    | some v => rw [Store.set_bound hbound]
  · rw [hstore]
    cases hbound : d.toStore.map key with
    | none =>
        rw [Store.set_new hbound fun _ => hgrow, hcopy]
        exact if_pos hkey
    | some v => rw [Store.set_bound hbound, hcopy]

/-- The loader stores what a logical line assigns. -/
theorem Loader.store_spec {s : Loader} (h : s.dict.Sound) {mem : LineMem} (hmem : mem.Granted)
    (line : Str) :
    ∃ s', s.store mem line = some (s', 0) ∧ s'.dict.Sound ∧ s'.input = s.input ∧
      s'.pending = s.pending ∧
      ∀ ls, (if s.errs = 0 then (assignments s.name (line :: ls)).map (assign s.dict.toStore.map)
          else none) =
        if s'.errs = 0 then (assignments s'.name ls).map (assign s'.dict.toStore.map)
          else none := by
  unfold Loader.store
  rw [hmem.1, if_pos rfl]
  simp only [assignments]
  cases hline : iniparserLine line s.name with
  | lineEmpty => exact ⟨s, rfl, h, rfl, rfl, fun ls => rfl⟩
  | lineComment => exact ⟨s, rfl, h, rfl, rfl, fun ls => rfl⟩
  | lineSection name =>
      obtain ⟨d', hset, hs, hmap⟩ := h.set_granted hmem name none
      refine ⟨{ s with name := name, dict := d' }, ?_, hs, rfl, rfl, fun ls => ?_⟩
      · dsimp only
        rw [hset]
        rfl
      · rw [Option.map_map, hmap]
        rfl
  | lineValue key val =>
      obtain ⟨d', hset, hs, hmap⟩ := h.set_granted hmem (s.name ++ colon :: key) (some val)
      refine ⟨{ s with dict := d' }, ?_, hs, rfl, rfl, fun ls => ?_⟩
      · dsimp only
        rw [hset]
        rfl
      · rw [Option.map_map, hmap]
        rfl
  | lineError => exact ⟨{ s with errs := s.errs + 1 }, rfl, h, rfl, rfl, fun ls => ite_self none⟩

/-! ## The run -/

/-- What the loader still has to compute. -/
def Loader.meaning (s : Loader) : Option (Str → Option (Option Str)) :=
  if s.errs = 0 then
    ((logical s.pending (Text.lines newline s.input)).bind (assignments s.name)).map
      (assign s.dict.toStore.map)
  else none

/-- What the loop keeps. -/
structure Loader.Ready (s : Loader) : Prop where
  sound : s.dict.Sound
  room : s.pending.length + 2 ≤ asciiLineSz
  noNul : (0 : UInt8) ∉ s.pending ∧ (0 : UInt8) ∉ s.input

/-- A dictionary, or NULL, is what a file should give. -/
def Gives (r : Option Created) (m : Option (Str → Option (Option Str))) : Prop :=
  match r with
  | none => m = none
  | some d => d.Sound ∧ m = some d.toStore.map

variable {s : Loader} {mem : Nat → LineMem}

/-- The line the loader reads next, with what is pending in front of it. -/
def Loader.line (s : Loader) : Str := s.pending ++ (Text.firstLine newline s.input).1

theorem Loader.length_line (s : Loader) :
    s.line.length = s.pending.length + (Text.firstLine newline s.input).1.length :=
  List.length_append

theorem Loader.getLast?_line (hne : s.input ≠ []) :
    s.line.getLast? = (Text.firstLine newline s.input).1.getLast? := by
  rw [Loader.line, List.getLast?_append_of_ne_nil _ (Text.firstLine_ne_nil newline hne)]

/-- There is no NUL in what can be read. -/
theorem Loader.Ready.not_mem (h : s.Ready) {xs ys : Str} (hxs : xs ++ ys = s.input) :
    (0 : UInt8) ∉ s.pending ++ xs ∧ (0 : UInt8) ∉ ys := by
  have hin := h.noNul.2
  rw [← hxs, List.mem_append, not_or] at hin
  rw [List.mem_append, not_or]
  exact ⟨⟨h.noNul.1, hin.1⟩, hin.2⟩

/-- A line that fits is read whole, and the check of the length passes it. -/
theorem fgets_fits (h : s.Ready) (hne : s.input ≠ []) (hfits : Fits s.line) :
    ∃ eof, fgets (asciiLineSz - s.pending.length) s.input =
        some ⟨(Text.firstLine newline s.input).1, (Text.firstLine newline s.input).2, eof⟩ ∧
      ¬(s.line.getLast? ≠ some newline ∧ eof = false) := by
  have hroom := h.room
  have hlen := s.length_line
  have hall : (Text.firstLine newline s.input).1.length ≤ asciiLineSz - s.pending.length - 1 := by
    rcases hfits with hfits | hfits <;> omega
  refine ⟨decide ((Text.firstLine newline s.input).1.length < asciiLineSz - s.pending.length - 1 ∧
    (Text.firstLine newline s.input).1.getLast? ≠ some newline), ?_, ?_⟩
  · rw [fgets_of_ne_nil hne, fgetsBytes_eq hall]
  · rw [Loader.getLast?_line hne]
    rintro ⟨hlast, heof⟩
    rcases hfits with hfits | hfits
    · have hshort : (Text.firstLine newline s.input).1.length <
          asciiLineSz - s.pending.length - 1 := by
        omega
      simp [hshort, hlast] at heof
    · rw [Loader.getLast?_line hne] at hfits
      exact hlast hfits.2

/-- A line that does not fit fills the buffer, without a newline and without the end of
the file. -/
theorem fgetsBytes_of_not_fits (hroom : s.pending.length + 2 ≤ asciiLineSz) (hne : s.input ≠ [])
    (hfits : ¬Fits s.line) :
    (fgetsBytes (asciiLineSz - s.pending.length - 1) s.input).1.length =
        asciiLineSz - s.pending.length - 1 ∧
      (fgetsBytes (asciiLineSz - s.pending.length - 1) s.input).1.getLast? ≠ some newline := by
  have hlen := s.length_line
  rcases Nat.lt_or_ge (asciiLineSz - s.pending.length - 1)
    (Text.firstLine newline s.input).1.length with hlong | hall
  · obtain ⟨hfull, hnot⟩ := fgetsBytes_long hlong
    exact ⟨hfull, fun hlast => hnot (List.mem_of_getLast? hlast)⟩
  · -- the line ends with the file where the buffer does
    unfold Fits at hfits
    rw [not_or, not_and, Loader.getLast?_line hne] at hfits
    rw [fgetsBytes_eq hall]
    have hfull : (Text.firstLine newline s.input).1.length =
        asciiLineSz - s.pending.length - 1 := by
      omega
    exact ⟨hfull, hfits.2 (by omega)⟩

/-- A line that does not fit is given up. -/
theorem loadBody_long (h : s.Ready) (hne : s.input ≠ []) (hfits : ¬Fits s.line) :
    loadBody mem s = .leave (some none) := by
  have hgiveUp : ∀ input lineno, Loader.giveUp { s with input := input, lineno := lineno } =
      some none := fun input lineno => by
    rw [Loader.giveUp, h.sound.del_eq, Option.map_some]
  have hroom := h.room
  obtain ⟨hfull, hlast⟩ := fgetsBytes_of_not_fits hroom hne hfits
  have hnul := (h.not_mem (fgetsBytes_append (asciiLineSz - s.pending.length - 1) s.input)).1
  unfold loadBody
  rw [fgets_of_ne_nil hne]
  dsimp only
  generalize hr : fgetsBytes (asciiLineSz - s.pending.length - 1) s.input = r at hfull hlast hnul ⊢
  have hread : r.1 ≠ [] := by
    intro hnil
    rw [hnil, List.length_nil] at hfull
    omega
  have hlong : ¬(s.pending ++ r.1).length ≤ 1 := by
    rw [List.length_append, hfull]
    unfold asciiLineSz at hroom ⊢
    omega
  have heof : decide (r.1.length < asciiLineSz - s.pending.length - 1 ∧
      r.1.getLast? ≠ some newline) = false := by
    rw [hfull]
    simp
  rw [CString.text_eq hnul, if_neg hlong, heof, if_pos, hgiveUp]
  rw [List.getLast?_append_of_ne_nil _ hread]
  exact ⟨hlast, rfl⟩

/-- A line that fits: what the pass does with it. -/
theorem loadBody_fits (mem : Nat → LineMem) (h : s.Ready) (hne : s.input ≠ [])
    (hfits : Fits s.line) :
    loadBody mem s =
      let s' := { s with input := (Text.firstLine newline s.input).2, lineno := s.lineno + 1 }
      if s.line.length ≤ 1 then .again s'
      else
        let line := s.line.rdropWhile isspace
        if line.getLast? = some backslash then .again { s' with pending := line.dropLast }
        else
          match { s' with pending := [] }.store (mem s'.lineno) line with
          | none => .leave none
          | some (s, memErr) => if memErr < 0 then .leave s.finish else .again s := by
  obtain ⟨eof, hread, hwhole⟩ := fgets_fits h hne hfits
  have hnul := (h.not_mem (Text.firstLine_append newline s.input)).1
  unfold loadBody
  rw [hread]
  dsimp only
  rw [CString.text_eq hnul, ← Loader.line]
  by_cases hshort : s.line.length ≤ 1
  · rw [if_pos hshort, if_pos hshort]
  · rw [if_neg hshort, if_neg hshort]
    exact if_neg hwhole

/-- Without room for a line nothing is made of it. -/
theorem logical_line (hne : s.input ≠ []) :
    logical s.pending (Text.lines newline s.input) =
      let ls := Text.lines newline (Text.firstLine newline s.input).2
      if ¬Fits s.line then none
      else if s.line.length ≤ 1 then logical s.pending ls
      else
        let line := s.line.rdropWhile isspace
        if line.getLast? = some backslash then logical line.dropLast ls
        else (logical [] ls).map (line :: ·) := by
  rw [Text.lines_of_ne_nil newline hne, logical]
  rfl

/-- At the end of the file the loader has computed its meaning. -/
theorem Loader.Ready.finish_eq (h : s.Ready) (hend : s.input = []) :
    ∃ r, s.finish = some r ∧ Gives r s.meaning := by
  unfold Loader.finish Loader.giveUp Loader.meaning
  rw [h.sound.del_eq, hend]
  split
  next herrs => exact ⟨none, rfl, rfl⟩
  next herrs =>
    rw [if_pos (not_not.mp herrs)]
    exact ⟨some s.dict, rfl, h.sound, rfl⟩

/-- A line that fits takes the loader on, and leaves the meaning as it is. -/
theorem Loader.Ready.pass_fits (hmem : ∀ i, (mem i).Granted) (h : s.Ready) (hne : s.input ≠ [])
    (hfits : Fits s.line) :
    ∃ s', loadBody mem s = .again s' ∧ s'.Ready ∧
      s'.input = (Text.firstLine newline s.input).2 ∧ s'.meaning = s.meaning := by
  have hnul := h.not_mem (Text.firstLine_append newline s.input)
  have hbody := loadBody_fits mem h hne hfits
  have hlogical := logical_line hne
  rw [if_neg (not_not.mpr hfits)] at hlogical
  dsimp only at hbody hlogical
  have hlen : s.line.length + 1 ≤ asciiLineSz := by
    rcases hfits with hfits | hfits <;> omega
  by_cases hshort : s.line.length ≤ 1
  · rw [if_pos hshort] at hbody hlogical
    refine ⟨_, hbody, ⟨h.sound, h.room, h.noNul.1, hnul.2⟩, rfl, ?_⟩
    unfold Loader.meaning
    rw [hlogical]
  rw [if_neg hshort] at hbody hlogical
  by_cases hback : (s.line.rdropWhile isspace).getLast? = some backslash
  · -- the line goes on
    rw [if_pos hback] at hbody hlogical
    refine ⟨_, hbody, ⟨h.sound, ?_, ?_, hnul.2⟩, rfl, ?_⟩
    · have hle := (List.rdropWhile_prefix isspace s.line).length_le
      have hpos := List.length_pos_of_mem (List.mem_of_getLast? hback)
      rw [List.length_dropLast]
      omega
    · intro hzero
      exact hnul.1 ((List.rdropWhile_prefix isspace s.line).subset
        ((List.dropLast_subset _) hzero))
    · unfold Loader.meaning
      rw [hlogical]
  · -- a logical line is complete
    rw [if_neg hback] at hbody hlogical
    obtain ⟨s', hstore, hs', hinput, hpending, hrest⟩ :=
      Loader.store_spec (s := { s with
        input := (Text.firstLine newline s.input).2, lineno := s.lineno + 1
        pending := [] }) h.sound (hmem (s.lineno + 1)) (s.line.rdropWhile isspace)
    rw [hstore] at hbody
    refine ⟨s', hbody, ⟨hs', ?_, ?_, ?_⟩, hinput, ?_⟩
    · rw [hpending]
      exact (by decide : 0 + 2 ≤ asciiLineSz)
    · rw [hpending]
      exact List.not_mem_nil
    · rw [hinput]
      exact hnul.2
    · unfold Loader.meaning
      rw [hlogical, hinput, hpending]
      cases logical [] (Text.lines newline (Text.firstLine newline s.input).2) with
      | none => exact (ite_self none).trans (ite_self none).symm
      | some ls => exact (hrest ls).symm

/-- A line that does not fit gives the file no meaning. -/
theorem Loader.meaning_long (hne : s.input ≠ []) (hfits : ¬Fits s.line) : s.meaning = none := by
  unfold Loader.meaning
  rw [logical_line hne]
  dsimp only
  rw [if_pos hfits]
  exact ite_self none

/-- The loop computes what is left of the meaning of the file. -/
theorem load_run (hmem : ∀ i, (mem i).Granted) (h : s.Ready) (hn : s.input.length < n) :
    ∃ r, Loop.run (loadBody mem) n s = some (some r) ∧ Gives r s.meaning := by
  induction n generalizing s with
  | zero => cases hn
  | succ n ih =>
      by_cases hne : s.input = []
      · obtain ⟨r, hfinish, hgives⟩ := h.finish_eq hne
        refine ⟨r, Loop.run_leave n ?_, hgives⟩
        unfold loadBody
        rw [hne, ← hfinish]
        rfl
      by_cases hfits : Fits s.line
      · obtain ⟨s', hbody, hs', hinput, hmeaning⟩ := h.pass_fits hmem hne hfits
        have hless : (Text.firstLine newline s.input).2.length < s.input.length := by
          have hsplit := congrArg List.length (Text.firstLine_append newline s.input)
          have hpos := List.length_pos_of_ne_nil (Text.firstLine_ne_nil newline hne)
          rw [List.length_append] at hsplit
          omega
        rw [Loop.run_again n hbody, ← hmeaning]
        exact ih hs' (by rw [hinput]; omega)
      · exact ⟨none, Loop.run_leave n (loadBody_long h hne hfits), Loader.meaning_long hne hfits⟩

theorem load_file {file : Str} (hfile : (0 : UInt8) ∉ file) (hmem : ∀ i, (mem i).Granted) :
    ∃ r, iniparserLoad (some file) newGranted mem = some r ∧ Gives r (meaning file) := by
  have hready : (Loader.start file (.whole (.fresh 0))).Ready :=
    ⟨Dictionary.sound_fresh 0, (by decide : 0 + 2 ≤ asciiLineSz), List.not_mem_nil, hfile⟩
  obtain ⟨r, hrun, hgives⟩ := load_run hmem hready (Nat.lt_succ_self file.length)
  refine ⟨r, congrArg Option.join hrun, ?_⟩
  unfold Loader.meaning at hgives
  rw [Loader.start, if_pos rfl, Created.toStore, Dictionary.toStore_fresh] at hgives
  exact hgives

/-- With memory, the loader computes what a file without NUL means: it returns, it returns
NULL for a file that means nothing, and else a dictionary that reads as the file says. -/
theorem iniparser_load_meaning (file : Str) (hfile : (0 : UInt8) ∉ file) (mem : Nat → LineMem)
    (hmem : ∀ i, (mem i).Granted) :
    ∃ r, iniparserLoad (some file) newGranted mem = some r ∧
      match r with
      | none => meaning file = none
      | some d => d.Sound ∧ meaning file = some d.toStore.map := by
  obtain ⟨r, hload, hgives⟩ := load_file hfile hmem
  cases r with
  | none => exact ⟨none, hload, hgives⟩
  | some d => exact ⟨some d, hload, hgives⟩

/-- Every allocation succeeds, for every line. -/
def allGranted : Nat → LineMem := fun _ => ⟨true, true, true, true⟩

/-- `"[A]\nb=\\\n1\nb=2\n"`: a header, a line that goes on, and a second value for its key. -/
def twiceFile : Str := [91, 65, 93, 10, 98, 61, 92, 10, 49, 10, 98, 61, 50, 10]

theorem iniparser_load_meaning_twice :
    (∃ r, iniparserLoad (some twiceFile) newGranted allGranted = some r ∧
      match r with
      | none => meaning twiceFile = none
      | some d => d.Sound ∧ meaning twiceFile = some d.toStore.map) ∧
      fileAssignments twiceFile =
        some [([97], none), ([97, 58, 98], some [49]), ([97, 58, 98], some [50])] :=
  ⟨iniparser_load_meaning twiceFile (by decide) allGranted fun _ => ⟨rfl, rfl, rfl, rfl⟩,
    by decide +kernel⟩

/-! ## The buffers -/

/-- The keys and values of a dictionary came out of buffers of the loader. -/
def Created.Bounded (d : Created) : Prop :=
  ∀ k v, d.toStore.map k = some v →
    k.length < 2 * asciiLineSz ∧ ∀ w ∈ v, w.length < asciiLineSz

/-- What the loop keeps, whatever the file and the allocations do. -/
structure Loader.Safe (s : Loader) : Prop where
  sound : s.dict.Sound
  bounded : s.dict.Bounded
  room : s.pending.length + 2 ≤ asciiLineSz
  name : s.name.length < asciiLineSz

/-- `dictionary_set` of strings from the buffers. -/
theorem Created.Sound.set_bounded {d : Created} (h : d.Sound) (hb : d.Bounded) {k : Str}
    {v : Option Str} (hkey : k.length < 2 * asciiLineSz) (hval : ∀ w ∈ v, w.length < asciiLineSz)
    (mem : Allocations) :
    ∃ d' ret, d.set (some k) v mem = some (d', ret) ∧ d'.Sound ∧ d'.Bounded := by
  obtain ⟨d', hset, hs, hstore⟩ := h.set_spec (some k) v mem
  refine ⟨d', _, hset, hs, ?_⟩
  have hbound : ∀ x u, Function.update d.toStore.map k (some (v.bind (xstrdup mem.val))) x =
      some u → x.length < 2 * asciiLineSz ∧ ∀ w ∈ u, w.length < asciiLineSz := by
    intro x u hx
    rw [Function.update_apply] at hx
    split at hx
    next heq =>
      cases hx
      refine ⟨heq ▸ hkey, fun w hw => ?_⟩
      obtain ⟨u, hu, hcopy⟩ := Option.bind_eq_some_iff.mp hw
      unfold xstrdup at hcopy
      split at hcopy
      · cases hcopy
        exact hval w hu
      · cases hcopy
    next => exact hb x u hx
  unfold Created.Bounded
  rw [hstore]
  unfold Store.set
  dsimp only
  split
  · exact hbound
  split
  · exact hb
  · dsimp only
    split
    · exact hbound
    · exact hb

/-- The `switch` keeps the invariant. -/
theorem Loader.Safe.store (h : s.Safe) (mem : LineMem) {line : Str}
    (hline : line.length < asciiLineSz) :
    ∃ s' ret, s.store mem line = some (s', ret) ∧ s'.Safe ∧ s'.input = s.input := by
  have hstored : ∀ w ∈ (if mem.copy then iniparserLine line s.name else .lineEmpty).stored,
      w.length < asciiLineSz := by
    intro w hw
    split at hw
    · exact length_stored hline h.name hw
    · cases hw
  unfold Loader.store
  generalize (if mem.copy then iniparserLine line s.name else .lineEmpty) = status at hstored ⊢
  cases status with
  | lineEmpty => exact ⟨s, 0, rfl, h, rfl⟩
  | lineComment => exact ⟨s, 0, rfl, h, rfl⟩
  | lineSection name =>
      have hname := hstored name List.mem_cons_self
      obtain ⟨d', ret, hset, hs, hb⟩ := h.sound.set_bounded h.bounded (k := name) (v := none)
        (by omega) (by rintro w ⟨⟩) mem.entry
      refine ⟨{ s with name := name, dict := d' }, ret, ?_, ⟨hs, hb, h.room, hname⟩, rfl⟩
      dsimp only
      rw [hset]
      rfl
  | lineValue key val =>
      have hkey := hstored key List.mem_cons_self
      have hval := hstored val (List.mem_cons_of_mem _ List.mem_cons_self)
      have hlong : (s.name ++ colon :: key).length < 2 * asciiLineSz := by
        have hname := h.name
        rw [List.length_append, List.length_cons]
        omega
      obtain ⟨d', ret, hset, hs, hb⟩ := h.sound.set_bounded h.bounded (v := some val) hlong
        (by rintro w ⟨⟩; exact hval) mem.entry
      refine ⟨{ s with dict := d' }, ret, ?_, ⟨hs, hb, h.room, h.name⟩, rfl⟩
      dsimp only
      rw [hset]
      rfl
  | lineError => exact ⟨_, 0, rfl, ⟨h.sound, h.bounded, h.room, h.name⟩, rfl⟩

/-- A result of the loader is NULL or in order. -/
def Loaded (r : Option Created) : Prop := ∀ d, r = some d → d.Sound ∧ d.Bounded

theorem Loader.Safe.giveUp (h : s.Safe) : s.giveUp = some none := by
  rw [Loader.giveUp, h.sound.del_eq, Option.map_some]

theorem Loader.Safe.finish (h : s.Safe) : ∃ r, s.finish = some r ∧ Loaded r := by
  rw [Loader.finish, h.giveUp]
  split
  · exact ⟨none, rfl, by rintro d ⟨⟩⟩
  · refine ⟨some s.dict, rfl, fun d hd => ?_⟩
    cases hd
    exact ⟨h.sound, h.bounded⟩

theorem length_fgetsBytes_le (n : Nat) (input : Str) : (fgetsBytes n input).1.length ≤ n := by
  induction input generalizing n with
  | nil => cases n <;> exact Nat.zero_le _
  | cons c input ih =>
      cases n with
      | zero => exact Nat.le_refl 0
      | succ n =>
          rw [fgetsBytes]
          split
          · exact Nat.succ_le_succ (Nat.zero_le n)
          · exact Nat.succ_le_succ (ih n)

theorem length_fgetsBytes_pos {n : Nat} (hn : 0 < n) {input : Str} (hne : input ≠ []) :
    0 < (fgetsBytes n input).1.length := by
  obtain ⟨n, rfl⟩ := Nat.exists_eq_succ_of_ne_zero (Nat.ne_of_gt hn)
  obtain ⟨c, input, rfl⟩ := List.exists_cons_of_ne_nil hne
  rw [fgetsBytes]
  split <;> exact Nat.succ_pos _

/-- One pass keeps the invariant and gets on in the file. -/
theorem Loader.Safe.pass (h : s.Safe) (mem : Nat → LineMem) :
    (∃ s', loadBody mem s = .again s' ∧ s'.Safe ∧ s'.input.length < s.input.length) ∨
      ∃ r, loadBody mem s = .leave (some r) ∧ Loaded r := by
  have hroom := h.room
  by_cases hne : s.input = []
  · obtain ⟨r, hfinish, hr⟩ := h.finish
    refine .inr ⟨r, ?_, hr⟩
    unfold loadBody
    rw [hne, ← hfinish]
    rfl
  unfold loadBody
  rw [fgets_of_ne_nil hne]
  have hle := length_fgetsBytes_le (asciiLineSz - s.pending.length - 1) s.input
  have hpos := length_fgetsBytes_pos (n := asciiLineSz - s.pending.length - 1) (by omega) hne
  have hsplit := congrArg List.length
    (fgetsBytes_append (asciiLineSz - s.pending.length - 1) s.input)
  rw [List.length_append] at hsplit
  dsimp only
  generalize fgetsBytes (asciiLineSz - s.pending.length - 1) s.input = r at hle hpos hsplit ⊢
  have hline : (CString.text (s.pending ++ r.1)).length < asciiLineSz := by
    have hcstr := (List.takeWhile_prefix (· ≠ (0 : UInt8)) (l := s.pending ++ r.1)).length_le
    rw [List.length_append] at hcstr
    unfold CString.text
    omega
  generalize CString.text (s.pending ++ r.1) = line at hline ⊢
  split
  · exact .inl ⟨_, rfl, ⟨h.sound, h.bounded, h.room, h.name⟩, by dsimp only; omega⟩
  split
  · exact .inr ⟨none, congrArg Loop.Pass.leave (Loader.Safe.giveUp
      ⟨h.sound, h.bounded, h.room, h.name⟩), by rintro d ⟨⟩⟩
  have hstrip := (List.rdropWhile_prefix isspace line).length_le
  split
  next hback =>
    refine .inl ⟨_, rfl, ⟨h.sound, h.bounded, ?_, h.name⟩, by dsimp only; omega⟩
    have hlast := List.length_pos_of_mem (List.mem_of_getLast? hback)
    rw [List.length_dropLast]
    omega
  · obtain ⟨s', ret, hstore, hs', hinput⟩ := Loader.Safe.store (s := { s with
      input := r.2, lineno := s.lineno + 1, pending := [] })
      ⟨h.sound, h.bounded, (by decide : 0 + 2 ≤ asciiLineSz), h.name⟩ (mem (s.lineno + 1))
      (Nat.lt_of_le_of_lt hstrip hline)
    rw [hstore]
    dsimp only
    split
    · obtain ⟨r, hfinish, hr⟩ := hs'.finish
      exact .inr ⟨r, congrArg Loop.Pass.leave hfinish, hr⟩
    · refine .inl ⟨s', rfl, hs', ?_⟩
      rw [hinput]
      dsimp only
      omega

theorem load_returns (mem : Nat → LineMem) (h : s.Safe) (hn : s.input.length < n) :
    ∃ r, Loop.run (loadBody mem) n s = some (some r) ∧ Loaded r := by
  induction n generalizing s with
  | zero => cases hn
  | succ n ih =>
      rcases h.pass mem with ⟨s', hbody, hs', hless⟩ | ⟨r, hbody, hr⟩
      · rw [Loop.run_again n hbody]
        exact ih hs' (by omega)
      · exact ⟨r, Loop.run_leave n hbody, hr⟩

/-- The loader returns for every file, whatever is in it and whichever allocations fail,
those of the arrays of the new dictionary aside.  What it returns is NULL or a dictionary in
order, and no string in it is longer than the buffer it was put together in. -/
theorem iniparser_load_returns (file : Option Str) (new : NewAllocations)
    (hnew : new.dict = true → new = newGranted) (mem : Nat → LineMem) :
    ∃ r, iniparserLoad file new mem = some r ∧
      ∀ d, r = some d → d.Sound ∧
        ∀ k v, d.toStore.map k = some v →
          k.length < 2 * asciiLineSz ∧ ∀ w ∈ v, w.length < asciiLineSz := by
  unfold iniparserLoad
  cases file with
  | none => exact ⟨none, rfl, by rintro d ⟨⟩⟩
  | some input =>
      cases hdict : new.dict with
      | false =>
          have hnone : dictionaryNew 0 new = none := by rw [dictionaryNew, hdict]; rfl
          rw [hnone]
          exact ⟨none, rfl, by rintro d ⟨⟩⟩
      | true =>
          have hbounded : (Created.whole (.fresh 0)).Bounded := by
            intro k v hk
            rw [Created.toStore, Dictionary.toStore_fresh] at hk
            cases hk
          have hsafe : (Loader.start input (.whole (.fresh 0))).Safe :=
            ⟨Dictionary.sound_fresh 0, hbounded, (by decide : 0 + 2 ≤ asciiLineSz),
              (by decide : 0 < asciiLineSz)⟩
          obtain ⟨r, hrun, hr⟩ := load_returns mem hsafe (Nat.lt_succ_self input.length)
          rw [hnew hdict]
          exact ⟨r, congrArg Option.join hrun, hr⟩

/-- The copy of every value is refused. -/
def noValues : Nat → LineMem := fun _ => ⟨true, true, true, false⟩

theorem iniparser_load_returns_noValues :
    ∃ r, iniparserLoad (some twiceFile) newGranted noValues = some r ∧
      ∀ d, r = some d → d.Sound ∧
        ∀ k v, d.toStore.map k = some v →
          k.length < 2 * asciiLineSz ∧ ∀ w ∈ v, w.length < asciiLineSz :=
  iniparser_load_returns (some twiceFile) newGranted (fun _ => rfl) noValues

/-- Without the array of the hashes the first assignment of a file is an access to NULL. -/
example : iniparserLoad (some twiceFile) ⟨true, true, true, false⟩ allGranted = none := by
  decide +kernel

end VmpSa.Conf
