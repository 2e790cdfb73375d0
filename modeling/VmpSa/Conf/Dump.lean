import VmpSa.Conf.Load

/-!
# Writing a configuration file

`iniparser_dump_ini` of `common/utils/iniparser.c` writes a dictionary section by
section.  `Item` is a line of such a file, and a file of items that can be written means
what the items say (`fileAssignments_write`).

The dictionary stores a section as a key without a colon and an entry under
`section:key`, so what is written depends on where the keys stand in its arrays, and
loading puts them elsewhere.  `dump_load` says that the map does not change on the way,
for a dictionary whose names and values can be written.
-/

namespace VmpSa.Conf

/-! ## The model -/

/-- The test of `iniparser_getnsec`: a key without a colon. -/
def Entry.isSection (e : Entry) : Bool :=
  match e.key with
  | none => false
  | some k => !k.contains colon

/-- `iniparser_getnsec` -/
def iniparserGetnsec (d : Dictionary) : Nat := d.entries.countP Entry.isSection

/-- The loop of `iniparser_getsecname`, with `n` sections still to pass. -/
def secnameLoop : List Entry → Nat → Option Str
  | [], _ => none
  | e :: es, n =>
      if e.isSection then
        match n with
        | 0 => e.key
        | n + 1 => secnameLoop es n
      else secnameLoop es n

/-- `iniparser_getsecname` -/
def iniparserGetsecname (d : Dictionary) (n : Nat) : Option Str := secnameLoop d.entries n

/-- `iniparser_getstring` -/
def iniparserGetstring {P : Type} (d : Dictionary) (key : Str) (found : Option Str → P)
    (default : P) : P :=
  dictionaryGet d (strlwc key (asciiLineSz + 1)) found default

/-- `iniparser_find_entry` -/
def iniparserFindEntry (d : Dictionary) (entry : Str) : Bool :=
  iniparserGetstring d entry (fun _ => true) false

/-- `"%-30s"` -/
def padRight (s : Str) : Str := s ++ List.replicate (30 - s.length) space

/-- The loop body of `iniparser_dumpsection_ini`. -/
def dumpEntry (s : Str) (e : Entry) : Str :=
  match e.key with
  | none => []
  | some k =>
      if (s ++ [colon]).isPrefixOf k then
        padRight (k.drop (s.length + 1)) ++ [space, equalSign, space] ++ e.val.getD [] ++ [newline]
      else []

/-- `iniparser_dumpsection_ini` -/
def iniparserDumpsectionIni (d : Dictionary) (s : Str) : Str :=
  if iniparserFindEntry d s then
    [newline, openBracket] ++ s ++ [closeBracket, newline] ++ d.entries.flatMap (dumpEntry s) ++
      [newline]
  else []

/-- What `printf` writes for a NULL string. -/
def nullText : Str := [40, 110, 117, 108, 108, 41]

/-- The loop body of `iniparser_dump_ini` when there is no section. -/
def dumpPlain (e : Entry) : Str :=
  match e.key with
  | none => []
  | some k => k ++ [space, equalSign, space] ++ e.val.getD nullText ++ [newline]

/-- `iniparser_dump_ini` -/
def iniparserDumpIni (d : Dictionary) : Str :=
  if iniparserGetnsec d < 1 then d.entries.flatMap dumpPlain
  else
    (List.range (iniparserGetnsec d)).flatMap (fun i =>
      match iniparserGetsecname d i with
      | none => []
      | some s => iniparserDumpsectionIni d s) ++ [newline]

/-! ## Written files -/

/-- A line of a written file. -/
inductive Item where
  | blank
  | header (name : Str)
  | entry (key : Str) (padding : Nat) (value : Str)

/-- How it is written. -/
def Item.text : Item → Str
  | .blank => []
  | .header name => openBracket :: name ++ [closeBracket]
  | .entry key padding value =>
      key ++ List.replicate padding space ++ equalSign :: ([space] ++ value)

/-- Names and values can be written. -/
def Item.Named : Item → Prop
  | .blank => True
  | .header name => SectionName name
  | .entry key _ value => KeyName key ∧ Value value

/-- It can be written, and fits into a line. -/
structure Item.Ok (i : Item) : Prop where
  named : i.Named
  short : i.text.length + 2 ≤ asciiLineSz

/-- A file of items. -/
def write (items : List Item) : Str := (items.map (·.text ++ [newline])).flatten

/-- What the items assign, in a section. -/
def itemAssignments : Str → List Item → List (Str × Option Str)
  | _, [] => []
  | name, .blank :: items => itemAssignments name items
  | _, .header name :: items => (name, none) :: itemAssignments name items
  | name, .entry key _ value :: items =>
      (name ++ colon :: key, some value) :: itemAssignments name items

variable {items : List Item} {i : Item} {d : Dictionary} {s : Str}

theorem Item.Named.plain (h : i.Named) : ∀ c ∈ i.text, c ≠ newline ∧ c ≠ 0 := by
  intro c hc
  cases i with
  | blank => cases hc
  | header name =>
      rcases List.mem_cons.mp hc with rfl | hc
      · decide
      rcases List.mem_append.mp hc with hn | hb
      · exact ⟨(h.plain c hn).2.1, (h.plain c hn).2.2.2⟩
      · rw [List.mem_singleton.mp hb]
        decide
  | entry key padding value =>
      obtain ⟨hkey, hvalue⟩ := h
      simp only [Item.text, List.mem_append, List.mem_cons, List.mem_replicate] at hc
      rcases hc with (hk | ⟨-, rfl⟩) | rfl | (rfl | hnil) | hv
      · exact ⟨(hkey.plain c hk).2.1, (hkey.plain c hk).2.2⟩
      · decide
      · decide
      · decide
      · cases hnil
      · exact ⟨(hvalue.plain c hv).2.2.1, (hvalue.plain c hv).2.2.2⟩

theorem fits_text (h : i.text.length + 2 ≤ asciiLineSz) : Fits (i.text ++ [newline]) := by
  unfold Fits
  rw [List.length_append, List.length_singleton, List.getLast?_concat]
  rcases Nat.lt_or_ge (i.text.length + 2) asciiLineSz with hlt | hge
  · exact .inl hlt
  · exact .inr ⟨Nat.le_antisymm h hge, rfl⟩

/-- The line of an item that is not blank is a logical line, read as what it says. -/
theorem Item.Named.line (h : i.Named) (hne : i.text ≠ []) (name : Str) :
    (i.text.rdropWhile isspace).getLast? ≠ some backslash ∧
      match i with
      | .blank => True
      | .header s => iniparserLine (i.text.rdropWhile isspace) name = .lineSection s
      | .entry k _ v => iniparserLine (i.text.rdropWhile isspace) name = .lineValue k v := by
  cases i with
  | blank => exact absurd rfl hne
  | header s =>
      have hself : (Item.header s).text.rdropWhile isspace = (Item.header s).text := by
        have hdrop := Text.rdropWhile_append (p := isspace) (s := (Item.header s).text) (t := [])
          (by rw [Item.text, List.getLast?_concat]; rintro c ⟨⟩; rfl) (by simp)
        rwa [List.append_nil] at hdrop
      rw [hself]
      refine ⟨?_, iniparserLine_section h name⟩
      rw [Item.text, List.getLast?_concat]
      decide
  | entry k p v =>
      obtain ⟨hkey, hvalue⟩ := h
      have hpad : ∀ c ∈ List.replicate p space, c = space := fun c hc => List.eq_of_mem_replicate hc
      refine ⟨?_, iniparserLine_entry hkey hpad hvalue name⟩
      rw [Item.text, rdropWhile_entry hvalue]
      cases v with
      | nil =>
          rw [if_pos rfl, List.getLast?_concat]
          decide
      | cons c v =>
          rw [if_neg (List.cons_ne_nil c v)]
          intro hlast
          refine hvalue.ending backslash ?_ rfl
          simpa using hlast

theorem logical_blank (ls : List Str) : logical [] ([newline] :: ls) = logical [] ls := by
  rw [logical, List.nil_append]
  rfl

theorem logical_item (h : i.Ok) (hne : i.text ≠ []) (ls : List Str) :
    logical [] ((i.text ++ [newline]) :: ls) =
      (logical [] ls).map (i.text.rdropWhile isspace :: ·) := by
  have hlong : ¬(i.text ++ [newline]).length ≤ 1 := by
    have hpos := List.length_pos_of_ne_nil hne
    rw [List.length_append, List.length_singleton]
    omega
  have hdrop : (i.text ++ [newline]).rdropWhile isspace = i.text.rdropWhile isspace :=
    List.rdropWhile_concat_pos _ _ _ rfl
  rw [logical, List.nil_append]
  dsimp only
  rw [if_neg (not_not.mpr (fits_text h.short)), if_neg hlong, hdrop,
    if_neg (h.named.line hne []).1]

/-- Written items are read as what they assign. -/
theorem logical_write (h : ∀ i ∈ items, i.Ok) (name : Str) :
    (logical [] (items.map (·.text ++ [newline]))).bind (assignments name) =
      some (itemAssignments name items) := by
  induction items generalizing name with
  | nil => rfl
  | cons i items ih =>
      have hi := h i List.mem_cons_self
      replace ih := ih fun j hj => h j (List.mem_cons_of_mem i hj)
      -- the lines behind the first one are logical lines
      obtain ⟨ls, hls⟩ : ∃ ls, logical [] (items.map (·.text ++ [newline])) = some ls := by
        obtain ⟨ls, hls, -⟩ := Option.bind_eq_some_iff.mp (ih name)
        exact ⟨ls, hls⟩
      rw [hls] at ih
      rw [List.map_cons]
      cases i with
      | blank =>
          rw [Item.text, List.nil_append, logical_blank, hls]
          exact ih name
      | header s =>
          have hne : (Item.header s).text ≠ [] := List.cons_ne_nil _ _
          have hline := (hi.named.line hne name).2
          dsimp only at hline
          rw [logical_item hi hne, hls, Option.map_some, Option.bind_some, assignments, hline]
          exact congrArg (Option.map _) (ih s)
      | entry k p v =>
          have hne : (Item.entry k p v).text ≠ [] := by simp [Item.text]
          have hline := (hi.named.line hne name).2
          dsimp only at hline
          rw [logical_item hi hne, hls, Option.map_some, Option.bind_some, assignments, hline]
          exact congrArg (Option.map _) (ih name)

/-- A file of items that can be written means what they assign. -/
theorem fileAssignments_write (h : ∀ i ∈ items, i.Ok) :
    fileAssignments (write items) = some (itemAssignments [] items) := by
  have hlines : Text.lines newline (write items) = items.map (·.text ++ [newline]) := by
    have hmap : items.map (·.text ++ [newline]) = (items.map Item.text).map (· ++ [newline]) := by
      rw [List.map_map]
      rfl
    rw [write, hmap]
    refine Text.lines_flatten fun l hl hmem => ?_
    obtain ⟨i, hi, rfl⟩ := List.mem_map.mp hl
    exact ((h i hi).named.plain newline hmem).1 rfl
  rw [fileAssignments, hlines, logical_write h]

theorem not_mem_write (h : ∀ i ∈ items, i.Ok) : (0 : UInt8) ∉ write items := by
  intro hmem
  obtain ⟨l, hl, hzero⟩ := List.mem_flatten.mp hmem
  obtain ⟨i, hi, rfl⟩ := List.mem_map.mp hl
  rcases List.mem_append.mp hzero with ht | hn
  · exact ((h i hi).named.plain 0 ht).2 rfl
  · cases List.mem_singleton.mp hn

/-! ## Assignments in any order -/

variable {m : Str → Option (Option Str)} {as : List (Str × Option Str)} {k : Str} {v : Option Str}

theorem assign_of_not_mem (h : ∀ a ∈ as, a.1 ≠ k) : assign m as k = m k := by
  induction as generalizing m with
  | nil => rfl
  | cons a as ih =>
      rw [assign, List.foldl_cons]
      refine (ih fun b hb => h b (List.mem_cons_of_mem a hb)).trans ?_
      exact Function.update_of_ne (Ne.symm (h a List.mem_cons_self)) _ _

/-- A key that is only ever assigned one value is bound to it. -/
theorem assign_of_mem (h : ∀ a ∈ as, a.1 = k → a.2 = v) (hk : m k = some v ∨ (k, v) ∈ as) :
    assign m as k = some v := by
  induction as generalizing m with
  | nil => exact hk.resolve_right List.not_mem_nil
  | cons a as ih =>
      rw [assign, List.foldl_cons]
      refine ih (fun b hb => h b (List.mem_cons_of_mem a hb)) ?_
      rcases eq_or_ne k a.1 with rfl | hne
      · rw [Function.update_self, h a List.mem_cons_self rfl]
        exact .inl rfl
      · rw [Function.update_of_ne hne]
        refine hk.imp_right fun hmem => ?_
        rcases List.mem_cons.mp hmem with rfl | hmem
        · exact absurd rfl hne
        · exact hmem

/-- Assignments that agree with a map and mention all its keys give that map. -/
theorem assign_eq (hsound : ∀ a ∈ as, m a.1 = some a.2)
    (hall : ∀ k v, m k = some v → (k, v) ∈ as) : assign (fun _ => none) as = m := by
  funext k
  cases hk : m k with
  | none =>
      refine assign_of_not_mem fun a ha heq => ?_
      have hbound := hsound a ha
      rw [heq, hk] at hbound
      cases hbound
  | some v =>
      refine assign_of_mem (fun a ha heq => ?_) (.inr (hall k v hk))
      have hbound := hsound a ha
      rw [heq, hk] at hbound
      exact (Option.some.inj hbound).symm

/-! ## What is written of a dictionary -/

/-- The sections of a dictionary, in the order of its arrays. -/
def Dictionary.sections (d : Dictionary) : List Str :=
  (d.entries.filter Entry.isSection).filterMap Entry.key

/-- The key of an entry in a section, if it is in it. -/
def Entry.keyIn (s : Str) (e : Entry) : Option Str :=
  match e.key with
  | none => none
  | some k => if (s ++ [colon]).isPrefixOf k then some (k.drop (s.length + 1)) else none

/-- Its line. -/
def Entry.item (s : Str) (e : Entry) : Option Item :=
  (e.keyIn s).map fun key => .entry key (30 - key.length + 1) (e.val.getD [])

/-- What the line assigns. -/
def Entry.assignment (s : Str) (e : Entry) : Option (Str × Option Str) :=
  (e.keyIn s).map fun key => (s ++ colon :: key, some (e.val.getD []))

def sectionItems (d : Dictionary) (s : Str) : List Item :=
  .blank :: .header s :: (d.entries.filterMap (Entry.item s) ++ [.blank])

def dumpItems (d : Dictionary) : List Item :=
  if iniparserGetnsec d < 1 then [] else d.sections.flatMap (sectionItems d) ++ [.blank]

/-- The names and values of a dictionary can be written: a key without a colon is a
section, with no value, and any other key is an entry of a section that is there. -/
structure Dictionary.Writable (d : Dictionary) : Prop where
  headers : ∀ s v, d.toStore.map s = some v → colon ∉ s → v = none ∧ (Item.header s).Ok
  entries : ∀ k v, d.toStore.map k = some v → colon ∈ k →
    ∃ s key w, k = s ++ colon :: key ∧ colon ∉ s ∧ d.toStore.map s ≠ none ∧ v = some w ∧
      (Item.entry key (30 - key.length + 1) w).Ok

theorem write_append (xs ys : List Item) : write (xs ++ ys) = write xs ++ write ys := by
  rw [write, List.map_append, List.flatten_append]
  rfl

theorem write_flatMap {α : Type} (f : α → List Item) (xs : List α) :
    write (xs.flatMap f) = xs.flatMap fun x => write (f x) := by
  induction xs with
  | nil => rfl
  | cons x xs ih => rw [List.flatMap_cons, List.flatMap_cons, write_append, ih]

/-- The names `iniparser_getsecname` gives for the numbers of the sections. -/
theorem map_secnameLoop (es : List Entry) :
    (List.range (es.countP Entry.isSection)).map (secnameLoop es) =
      (es.filter Entry.isSection).map Entry.key := by
  induction es with
  | nil => rfl
  | cons e es ih =>
      cases hsec : e.isSection with
      | true =>
          rw [List.countP_cons_of_pos hsec, List.filter_cons_of_pos hsec, List.range_succ_eq_map,
            List.map_cons, List.map_map, List.map_cons, ← ih]
          simp only [secnameLoop, hsec, if_true, Function.comp_def]
      | false =>
          have hneg : ¬e.isSection = true := by simp [hsec]
          rw [List.countP_cons_of_neg hneg, List.filter_cons_of_neg hneg, ← ih]
          simp only [secnameLoop, hsec, Bool.false_eq_true, if_false]

theorem mem_sections (h : d.Sound) : s ∈ d.sections ↔ colon ∉ s ∧ d.toStore.map s ≠ none := by
  unfold Dictionary.sections
  rw [List.mem_filterMap]
  constructor
  · rintro ⟨e, he, hkey⟩
    obtain ⟨hmem, hsec⟩ := List.mem_filter.mp he
    rw [Entry.isSection, hkey] at hsec
    refine ⟨by simpa using hsec, fun hnone => ?_⟩
    have hbound := h.mem_iff.mp ⟨e, hmem, hkey, rfl⟩
    rw [hnone] at hbound
    cases hbound
  · rintro ⟨hcolon, hbound⟩
    obtain ⟨v, hv⟩ := Option.ne_none_iff_exists'.mp hbound
    obtain ⟨e, he, hkey, -⟩ := h.mem_iff.mpr hv
    refine ⟨e, List.mem_filter.mpr ⟨he, ?_⟩, hkey⟩
    rw [Entry.isSection, hkey]
    simpa using hcolon

/-- An entry is written as its item. -/
theorem dumpEntry_eq (s : Str) (e : Entry) :
    dumpEntry s e = write (Entry.item s e).toList := by
  unfold dumpEntry Entry.item Entry.keyIn
  cases e.key with
  | none => rfl
  | some k =>
      dsimp only
      split
      · simp [write, Item.text, padRight, List.replicate_succ', List.append_assoc]
      · rfl

theorem flatMap_dumpEntry (s : Str) (es : List Entry) :
    es.flatMap (dumpEntry s) = write (es.filterMap (Entry.item s)) := by
  induction es with
  | nil => rfl
  | cons e es ih =>
      rw [List.flatMap_cons, dumpEntry_eq, ih, ← write_append, List.filterMap_cons]
      cases Entry.item s e <;> rfl

theorem iniparserFindEntry_of_mem (h : d.Sound) (hw : d.Writable) (hs : s ∈ d.sections) :
    iniparserFindEntry d s = true := by
  obtain ⟨hcolon, hbound⟩ := (mem_sections h).mp hs
  obtain ⟨v, hv⟩ := Option.ne_none_iff_exists'.mp hbound
  obtain ⟨-, hok⟩ := hw.headers s v hv hcolon
  have hnamed : SectionName s := hok.named
  have hlen : s.length < asciiLineSz + 1 := by
    have hshort := hok.short
    rw [Item.text, List.length_append, List.length_cons] at hshort
    omega
  rw [iniparserFindEntry, iniparserGetstring, strlwc_of_lower hlen hnamed.lower, h.get_eq, hv]
  rfl

theorem iniparserDumpsectionIni_eq (h : d.Sound) (hw : d.Writable) (hs : s ∈ d.sections) :
    iniparserDumpsectionIni d s = write (sectionItems d s) := by
  rw [iniparserDumpsectionIni, if_pos (iniparserFindEntry_of_mem h hw hs), flatMap_dumpEntry]
  have hcons : sectionItems d s =
      [.blank, .header s] ++ d.entries.filterMap (Entry.item s) ++ [.blank] := rfl
  rw [hcons, write_append, write_append]
  simp [write, Item.text]

/-- A dictionary without sections is empty. -/
theorem key_of_no_section (h : d.Sound) (hw : d.Writable) (hnone : iniparserGetnsec d < 1) :
    ∀ e ∈ d.entries, e.key = none := by
  have hsections : d.sections = [] := by
    have hcount : d.entries.filter Entry.isSection = [] := by
      rw [← List.length_eq_zero_iff, ← List.countP_eq_length_filter]
      exact Nat.lt_one_iff.mp hnone
    rw [Dictionary.sections, hcount]
    rfl
  have hno : ∀ s, s ∉ d.sections := by
    rw [hsections]
    exact fun s => List.not_mem_nil
  intro e he
  by_contra hkey
  obtain ⟨k, hk⟩ := Option.ne_none_iff_exists'.mp hkey
  have hbound := h.mem_iff.mp ⟨e, he, hk, rfl⟩
  by_cases hcolon : colon ∈ k
  · obtain ⟨s, -, -, -, hs, hb, -⟩ := hw.entries k e.val hbound hcolon
    exact hno s ((mem_sections h).mpr ⟨hs, hb⟩)
  · refine hno k ((mem_sections h).mpr ⟨hcolon, ?_⟩)
    rw [hbound]
    exact Option.some_ne_none _

/-- The loop over the numbers of the sections goes through the sections. -/
theorem flatMap_secnames (es : List Entry) (f : Str → Str) :
    ((List.range (es.countP Entry.isSection)).flatMap fun i =>
        match secnameLoop es i with
        | none => []
        | some s => f s) =
      ((es.filter Entry.isSection).filterMap Entry.key).flatMap f := by
  have hoptions : ∀ es : List Entry,
      ((es.map Entry.key).flatMap fun o => match o with | none => [] | some s => f s) =
        (es.filterMap Entry.key).flatMap f := by
    intro es
    induction es with
    | nil => rfl
    | cons e es ih =>
        rw [List.map_cons, List.flatMap_cons, List.filterMap_cons, ih]
        cases e.key <;> rfl
  rw [← hoptions, ← map_secnameLoop, List.flatMap_map]

/-- What is written of a dictionary. -/
theorem iniparserDumpIni_eq (h : d.Sound) (hw : d.Writable) :
    iniparserDumpIni d = write (dumpItems d) := by
  unfold iniparserDumpIni dumpItems
  split
  next hnone =>
    rw [List.flatMap_eq_nil_iff.mpr]
    · rfl
    · intro e he
      rw [dumpPlain, key_of_no_section h hw hnone e he]
  next =>
    have hloop : d.sections.flatMap (iniparserDumpsectionIni d) =
        d.sections.flatMap fun s => write (sectionItems d s) :=
      List.flatMap_congr fun s hs => iniparserDumpsectionIni_eq h hw hs
    rw [write_append, write_flatMap, ← hloop]
    exact congrArg (· ++ [newline]) (flatMap_secnames d.entries (iniparserDumpsectionIni d))

/-! ## Reading it again -/

theorem keyIn_eq_some {e : Entry} {key : Str} :
    e.keyIn s = some key ↔ e.key = some (s ++ colon :: key) := by
  unfold Entry.keyIn
  cases he : e.key with
  | none => simp
  | some k =>
      rw [Option.ite_none_right_eq_some, List.isPrefixOf_iff_prefix, Option.some.injEq,
        Option.some.injEq]
      constructor
      · rintro ⟨⟨t, rfl⟩, rfl⟩
        simp
      · rintro rfl
        exact ⟨⟨key, by simp⟩, by simp⟩

/-- Every item of a dictionary in order can be written. -/
theorem ok_dumpItems (h : d.Sound) (hw : d.Writable) : ∀ i ∈ dumpItems d, i.Ok := by
  have hblank : Item.blank.Ok := ⟨trivial, by decide⟩
  intro i hi
  unfold dumpItems at hi
  split at hi
  · cases hi
  rcases List.mem_append.mp hi with hin | hlast
  · obtain ⟨s, hs, hi⟩ := List.mem_flatMap.mp hin
    obtain ⟨hcolon, hbound⟩ := (mem_sections h).mp hs
    obtain ⟨v, hv⟩ := Option.ne_none_iff_exists'.mp hbound
    simp only [sectionItems, List.mem_cons, List.mem_append, List.mem_filterMap,
      List.not_mem_nil, or_false] at hi
    rcases hi with rfl | rfl | ⟨e, he, hitem⟩ | rfl
    · exact hblank
    · exact (hw.headers s v hv hcolon).2
    · obtain ⟨key, hkey, rfl⟩ := Option.map_eq_some_iff.mp hitem
      have hkey := keyIn_eq_some.mp hkey
      obtain ⟨s', key', w, hk, hs', -, hval, hok⟩ :=
        hw.entries _ e.val (h.mem_iff.mp ⟨e, he, hkey, rfl⟩) (by simp)
      obtain ⟨rfl, rfl⟩ := Text.append_cons_inj hcolon hs' hk
      rw [hval]
      exact hok
    · exact hblank
  · rw [List.mem_singleton.mp hlast]
    exact hblank

theorem itemAssignments_entries (s : Str) (es : List Entry) (rest : List Item) :
    itemAssignments s (es.filterMap (Entry.item s) ++ rest) =
      es.filterMap (Entry.assignment s) ++ itemAssignments s rest := by
  induction es with
  | nil => rfl
  | cons e es ih =>
      rw [List.filterMap_cons, List.filterMap_cons, Entry.item, Entry.assignment]
      cases e.keyIn s with
      | none => exact ih
      | some key => exact congrArg (_ :: ·) ih

/-- What the items of the sections assign. -/
theorem mem_itemAssignments (ss : List Str) (name : Str) {a : Str × Option Str} :
    a ∈ itemAssignments name (ss.flatMap (sectionItems d) ++ [.blank]) ↔
      ∃ s ∈ ss, a = (s, none) ∨ ∃ e ∈ d.entries, Entry.assignment s e = some a := by
  induction ss generalizing name with
  | nil => simp [itemAssignments]
  | cons s ss ih =>
      have hblock : itemAssignments name ((s :: ss).flatMap (sectionItems d) ++ [.blank]) =
          (s, none) :: (d.entries.filterMap (Entry.assignment s) ++
            itemAssignments s (ss.flatMap (sectionItems d) ++ [.blank])) := by
        have hcons : (s :: ss).flatMap (sectionItems d) ++ [.blank] =
            .blank :: .header s :: (d.entries.filterMap (Entry.item s) ++
              (.blank :: (ss.flatMap (sectionItems d) ++ [.blank]))) := by
          simp [sectionItems, List.append_assoc]
        rw [hcons, itemAssignments, itemAssignments, itemAssignments_entries, itemAssignments]
      rw [hblock, List.mem_cons, List.mem_append, List.mem_filterMap, ih, List.exists_mem_cons_iff,
        or_assoc]

/-- The items of a dictionary assign what is in its map. -/
theorem assign_dumpItems (h : d.Sound) (hw : d.Writable) :
    assign (fun _ => none) (itemAssignments [] (dumpItems d)) = d.toStore.map := by
  by_cases hnone : iniparserGetnsec d < 1
  · rw [dumpItems, if_pos hnone]
    funext k
    cases hk : d.toStore.map k with
    | none => rfl
    | some v =>
        obtain ⟨e, he, hkey, -⟩ := h.mem_iff.mpr hk
        rw [key_of_no_section h hw hnone e he] at hkey
        cases hkey
  rw [dumpItems, if_neg hnone]
  refine assign_eq ?_ ?_
  · intro a ha
    obtain ⟨s, hs, rfl | ⟨e, he, hassign⟩⟩ := (mem_itemAssignments d.sections []).mp ha
    · obtain ⟨hcolon, hbound⟩ := (mem_sections h).mp hs
      obtain ⟨v, hv⟩ := Option.ne_none_iff_exists'.mp hbound
      rw [hv, (hw.headers s v hv hcolon).1]
    · obtain ⟨key, hkey, rfl⟩ := Option.map_eq_some_iff.mp hassign
      have hbound := h.mem_iff.mp ⟨e, he, keyIn_eq_some.mp hkey, rfl⟩
      obtain ⟨-, -, w, -, -, -, hval, -⟩ := hw.entries _ e.val hbound (by simp)
      rw [hbound, hval]
      rfl
  · intro k v hv
    rw [mem_itemAssignments]
    by_cases hcolon : colon ∈ k
    · obtain ⟨s, key, w, rfl, hs, hbound, rfl, -⟩ := hw.entries k v hv hcolon
      obtain ⟨e, he, hkey, hval⟩ := h.mem_iff.mpr hv
      refine ⟨s, (mem_sections h).mpr ⟨hs, hbound⟩, .inr ⟨e, he, ?_⟩⟩
      rw [Entry.assignment, keyIn_eq_some.mpr hkey, hval]
      rfl
    · refine ⟨k, (mem_sections h).mpr ⟨hcolon, ?_⟩, .inl ?_⟩
      · rw [hv]
        exact Option.some_ne_none v
      · rw [(hw.headers k v hv hcolon).1]

/-- Loading what was written of a dictionary gives its map again. -/
theorem dump_load (d : Dictionary) (h : d.Sound) (hw : d.Writable) (mem : Nat → LineMem)
    (hmem : ∀ i, (mem i).Granted) :
    ∃ d', iniparserLoad (some (iniparserDumpIni d)) newGranted mem = some (some (.whole d')) ∧
      d'.Sound ∧ d'.toStore.map = d.toStore.map := by
  have hok := ok_dumpItems h hw
  rw [iniparserDumpIni_eq h hw]
  obtain ⟨r, hload, hgives⟩ := load_file (not_mem_write hok) hmem
  rw [meaning, fileAssignments_write hok, Option.map_some, assign_dumpItems h hw] at hgives
  cases r with
  | none => cases hgives
  | some c =>
      obtain ⟨d', rfl, hs⟩ := hgives.1.exists_whole
      exact ⟨d', hload, hs, (Option.some.inj hgives.2).symm⟩

/-- A section `a` with the entry `b = 1`. -/
def smallDictionary : Dictionary where
  n := 2
  entries :=
    [⟨some [97], none, dictionaryHash [97]⟩,
      ⟨some [97, 58, 98], some [49], dictionaryHash [97, 58, 98]⟩]

theorem sound_smallDictionary : smallDictionary.Sound := by
  refine ⟨Nat.le_refl 2, Nat.le_refl 2, by decide, ?_, by decide⟩
  simp [smallDictionary]

theorem writable_smallDictionary : smallDictionary.Writable := by
  have hheader : (Item.header [97]).Ok :=
    ⟨⟨by simp, Text.bare_singleton (by decide), by simp [tolower],
      by simp [closeBracket, newline, colon]⟩, by simp [asciiLineSz, Item.text]⟩
  have hkey : KeyName [98] :=
    ⟨by simp, Text.bare_singleton (by decide), by simp [tolower], by simp [equalSign, newline],
      by simp [hashSign, semicolon, openBracket]⟩
  have hvalue : Value [49] :=
    ⟨Text.bare_singleton (by decide), by simp [semicolon, hashSign, newline],
      by simp [doubleQuote, singleQuote], by simp [backslash]⟩
  have hentry : (Item.entry [98] (30 - 1 + 1) [49]).Ok :=
    ⟨⟨hkey, hvalue⟩, by simp [asciiLineSz, Item.text]⟩
  have hsection : smallDictionary.toStore.map [97] ≠ none := by decide
  have hcases : ∀ k v, smallDictionary.toStore.map k = some v →
      (k = [97] ∧ v = none) ∨ (k = [97, 58, 98] ∧ v = some [49]) := by
    intro k v hv
    obtain ⟨e, he, hkey, rfl⟩ := sound_smallDictionary.mem_iff.mpr hv
    simp only [smallDictionary, List.mem_cons, List.not_mem_nil, or_false] at he
    rcases he with rfl | rfl
    · exact .inl ⟨(Option.some.inj hkey).symm, rfl⟩
    · exact .inr ⟨(Option.some.inj hkey).symm, rfl⟩
  refine ⟨fun s v hv hcolon => ?_, fun k v hv hcolon => ?_⟩
  · rcases hcases s v hv with ⟨rfl, rfl⟩ | ⟨rfl, rfl⟩
    · exact ⟨rfl, hheader⟩
    · exact absurd (by decide) hcolon
  · rcases hcases k v hv with ⟨rfl, rfl⟩ | ⟨rfl, rfl⟩
    · exact absurd hcolon (by decide)
    · exact ⟨[97], [98], [49], rfl, by decide, hsection, rfl, hentry⟩

theorem dump_load_smallDictionary :
    ∃ d', iniparserLoad (some (iniparserDumpIni smallDictionary)) newGranted allGranted =
        some (some (.whole d')) ∧ d'.Sound ∧ d'.toStore.map = smallDictionary.toStore.map :=
  dump_load smallDictionary sound_smallDictionary writable_smallDictionary allGranted
    fun _ => ⟨rfl, rfl, rfl, rfl⟩

end VmpSa.Conf
