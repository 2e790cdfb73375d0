import VmpSa.Conf.Dictionary
import VmpSa.Lib.Text

/-!
# One line of a configuration file

`iniparser_line` of `common/utils/iniparser.c` tries `sscanf` formats one after the
other.  A format is a sequence of scan sets, blanks and literals; `sscanf(..) == 2` is
a result of the definition that models it.

A line that is written as a section header or as an entry is read back as that
(`iniparserLine_section`, `iniparserLine_entry`).  `SectionName`, `KeyName` and `Value`
say which names and values can be written: the parser strips them, turns names to lower
case, and gives some characters a meaning.
-/

namespace VmpSa.Conf

/-! ## Characters -/

def newline : UInt8 := 10
def space : UInt8 := 32
def doubleQuote : UInt8 := 34
def hashSign : UInt8 := 35
def singleQuote : UInt8 := 39
def colon : UInt8 := 58
def semicolon : UInt8 := 59
def equalSign : UInt8 := 61
def openBracket : UInt8 := 91
def backslash : UInt8 := 92
def closeBracket : UInt8 := 93

/-- `isspace` -/
def isspace (c : UInt8) : Bool := c = 32 || (9 ≤ c && c ≤ 13)

/-- `tolower` -/
def tolower (c : UInt8) : UInt8 := if 65 ≤ c && c ≤ 90 then c + 32 else c

/-! ## The model -/

/-- `strlwc` with an output buffer of `len` bytes. -/
def strlwc (s : Str) (len : Nat) : Str := (s.take (len - 1)).map tolower

/-- `strstrip` -/
def strstrip (s : Str) : Str := Text.strip isspace s

/-- `line_status`, with what the line stores. -/
inductive LineStatus where
  | lineEmpty
  | lineComment
  | lineSection (name : Str)
  | lineValue (key value : Str)
  | lineError
  deriving DecidableEq, Repr

/-- `"%[^=] ="`, how the formats of a value begin. -/
def scanKey (line : Str) : Option (Str × Str) := do
  let (key, s) ← Text.scanset (· ≠ equalSign) line
  let s ← Text.literal equalSign (s.dropWhile isspace)
  some (key, s.dropWhile isspace)

/-- `"%[^=] = \"%[^\"]\""`, and the same with single quotes. -/
def scanQuoted (quote : UInt8) (line : Str) : Option (Str × Str) := do
  let (key, s) ← scanKey line
  let s ← Text.literal quote s
  let (value, _) ← Text.scanset (· ≠ quote) s
  some (key, value)

/-- `"%[^=] = %[^;#]"` -/
def scanPlain (line : Str) : Option (Str × Str) := do
  let (key, s) ← scanKey line
  let (value, _) ← Text.scanset (fun c => c ≠ semicolon && c ≠ hashSign) s
  some (key, value)

/-- `"%[^=] = %[;#]"` -/
def scanNoValue (line : Str) : Option Str := do
  let (key, s) ← scanKey line
  let _ ← Text.scanset (fun c => c = semicolon || c = hashSign) s
  some key

/-- `"%[^=] %[=]"` -/
def scanEquals (line : Str) : Option Str := do
  let (key, s) ← Text.scanset (· ≠ equalSign) line
  let _ ← Text.scanset (· = equalSign) (s.dropWhile isspace)
  some key

/-- A value without quotes; `sscanf` cannot read `""` and `''` as empty ones. -/
def plainValue (value : Str) : Str :=
  let value := strstrip value
  if value = [doubleQuote, doubleQuote] ∨ value = [singleQuote, singleQuote] then [] else value

/-- The branches of `iniparser_line` for values. -/
def valueLine (line : Str) : LineStatus :=
  let name key := strlwc (strstrip key) line.length
  match (scanQuoted doubleQuote line).or (scanQuoted singleQuote line) with
  | some (key, value) => .lineValue (name key) value
  | none =>
      match scanPlain line with
      | some (key, value) => .lineValue (name key) (plainValue value)
      | none =>
          match (scanNoValue line).or (scanEquals line) with
          | some key => .lineValue (name key) []
          | none => .lineError

/-- `iniparser_line`.  `name` is what the section buffer holds; a header that stores
nothing in it leaves it there. -/
def iniparserLine (inputLine name : Str) : LineStatus :=
  let line := strstrip inputLine
  if line.length < 1 then .lineEmpty
  else if line.head? = some hashSign ∨ line.head? = some semicolon then .lineComment
  else if line.head? = some openBracket ∧ line.getLast? = some closeBracket then
    let stored := ((Text.scanset (· ≠ closeBracket) line.tail).map Prod.fst).getD name
    .lineSection (strlwc (strstrip stored) line.length)
  else valueLine line

/-! ## Names and values that can be written -/

/-- The name of a section, as it stands between brackets. -/
structure SectionName (s : Str) : Prop where
  nonempty : s ≠ []
  bare : Text.Bare isspace s
  lower : ∀ c ∈ s, tolower c = c
  plain : ∀ c ∈ s, c ≠ closeBracket ∧ c ≠ newline ∧ c ≠ colon ∧ c ≠ 0

/-- The name of a key in its section. -/
structure KeyName (s : Str) : Prop where
  nonempty : s ≠ []
  bare : Text.Bare isspace s
  lower : ∀ c ∈ s, tolower c = c
  plain : ∀ c ∈ s, c ≠ equalSign ∧ c ≠ newline ∧ c ≠ 0
  start : ∀ c ∈ s.head?, c ≠ hashSign ∧ c ≠ semicolon ∧ c ≠ openBracket

/-- A value that needs no quotes. -/
structure Value (v : Str) : Prop where
  bare : Text.Bare isspace v
  plain : ∀ c ∈ v, c ≠ semicolon ∧ c ≠ hashSign ∧ c ≠ newline ∧ c ≠ 0
  start : ∀ c ∈ v.head?, c ≠ doubleQuote ∧ c ≠ singleQuote
  ending : ∀ c ∈ v.getLast?, c ≠ backslash

variable {s v line pad : Str}

theorem strlwc_of_lower {len : Nat} (hlen : s.length < len) (hlow : ∀ c ∈ s, tolower c = c) :
    strlwc s len = s := by
  rw [strlwc, List.take_of_length_le (Nat.le_sub_one_of_lt hlen), List.map_congr_left hlow,
    List.map_id']

/-! ## Section headers -/

/-- A header is read as the section it names. -/
theorem iniparserLine_section (h : SectionName s) (name : Str) :
    iniparserLine (openBracket :: s ++ [closeBracket]) name = .lineSection s := by
  have hbare : Text.Bare isspace (openBracket :: s ++ [closeBracket]) := by
    refine ⟨?_, ?_⟩
    · rintro c ⟨⟩
      rfl
    · rw [List.getLast?_concat]
      rintro c ⟨⟩
      rfl
  have hstrip : strstrip (openBracket :: s ++ [closeBracket]) =
      openBracket :: s ++ [closeBracket] :=
    hbare.strip_eq
  have hscan : Text.scanset (· ≠ closeBracket) (s ++ [closeBracket]) =
      some (s, [closeBracket]) := by
    refine Text.scanset_append h.nonempty (fun c hc => ?_) (Text.stops_cons (by simp))
    simpa using (h.plain c hc).1
  have hlen : s.length < (openBracket :: s ++ [closeBracket]).length := by
    rw [List.length_append, List.length_cons]
    omega
  have hlast : (openBracket :: s ++ [closeBracket]).getLast? = some closeBracket :=
    List.getLast?_concat
  have hpos : ¬(openBracket :: s ++ [closeBracket]).length < 1 := by
    rw [List.length_append, List.length_cons]
    omega
  have hhead : (openBracket :: s ++ [closeBracket]).head? = some openBracket := rfl
  have htail : (openBracket :: s ++ [closeBracket]).tail = s ++ [closeBracket] := rfl
  have hcomment : ¬(some openBracket = some hashSign ∨ some openBracket = some semicolon) := by
    decide
  unfold iniparserLine
  simp only [hstrip, hhead, hlast, htail, hscan, Option.map_some, Option.getD_some]
  rw [if_neg hpos, if_neg hcomment, if_pos ⟨trivial, trivial⟩, strstrip, h.bare.strip_eq,
    strlwc_of_lower hlen h.lower]

/-! ## Entries -/

/-- The key of an entry is found in front of the padding and the equals sign. -/
theorem scanKey_entry (h : KeyName s) (hpad : ∀ c ∈ pad, c = space) (hv : Text.Stops isspace v)
    {post : Str} (hpost : ∀ c ∈ post, isspace c = true) :
    scanKey (s ++ pad ++ equalSign :: (post ++ v)) = some (s ++ pad, v) := by
  have hkey : Text.scanset (· ≠ equalSign) (s ++ pad ++ equalSign :: (post ++ v)) =
      some (s ++ pad, equalSign :: (post ++ v)) := by
    refine Text.scanset_append ?_ (fun c hc => ?_) (Text.stops_cons (by simp))
    · exact fun hnil => h.nonempty (List.append_eq_nil_iff.mp hnil).1
    · rcases List.mem_append.mp hc with hs | hp
      · simpa using (h.plain c hs).1
      · rw [hpad c hp]
        decide
  have hskip : (equalSign :: (post ++ v)).dropWhile isspace = equalSign :: (post ++ v) :=
    Text.Stops.dropWhile_eq_self (Text.stops_cons rfl)
  have hskip' : (post ++ v).dropWhile isspace = v := by
    rw [List.dropWhile_append_of_pos hpost, hv.dropWhile_eq_self]
  unfold scanKey
  simp only [hkey, Option.bind_eq_bind, Option.bind_some, hskip, Text.literal_cons, hskip']

/-- The name of a key is what is left of it and its padding. -/
theorem name_entry (h : KeyName s) (hpad : ∀ c ∈ pad, c = space) {len : Nat}
    (hlen : s.length < len) : strlwc (strstrip (s ++ pad)) len = s := by
  have hstrip : strstrip (s ++ pad) = s := by
    have hblank : ∀ c ∈ pad, isspace c = true := by
      intro c hc
      rw [hpad c hc]
      rfl
    exact Text.strip_append h.bare (List.forall_mem_nil _) hblank
  rw [hstrip, strlwc_of_lower hlen h.lower]

/-- An entry with a value. -/
theorem valueLine_entry (h : KeyName s) (hpad : ∀ c ∈ pad, c = space) (hv : Value v)
    (hne : v ≠ []) : valueLine (s ++ pad ++ equalSign :: ([space] ++ v)) = .lineValue s v := by
  have hkey : scanKey (s ++ pad ++ equalSign :: ([space] ++ v)) = some (s ++ pad, v) :=
    scanKey_entry h hpad hv.bare.1 (by simp [isspace, space])
  have hquote : ∀ q, (∀ c ∈ v.head?, c ≠ q) →
      scanQuoted q (s ++ pad ++ equalSign :: ([space] ++ v)) = none := by
    intro q hq
    unfold scanQuoted
    rw [hkey]
    cases v with
    | nil => exact absurd rfl hne
    | cons c v =>
        simp only [Option.bind_eq_bind, Option.bind_some, Text.literal_of_ne (hq c rfl)]
        rfl
  have hplain : scanPlain (s ++ pad ++ equalSign :: ([space] ++ v)) = some (s ++ pad, v) := by
    have hall : Text.scanset (fun c => c ≠ semicolon && c ≠ hashSign) v = some (v, []) := by
      refine Text.scanset_all hne fun c hc => ?_
      have hc' := hv.plain c hc
      simp [hc'.1, hc'.2.1]
    unfold scanPlain
    simp only [hkey, Option.bind_eq_bind, Option.bind_some, hall]
  have hvalue : plainValue v = v := by
    unfold plainValue
    rw [strstrip, hv.bare.strip_eq, if_neg]
    rintro (rfl | rfl)
    · exact (hv.start _ rfl).1 rfl
    · exact (hv.start _ rfl).2 rfl
  have hlen : s.length < (s ++ pad ++ equalSign :: ([space] ++ v)).length := by
    simp only [List.length_append, List.length_cons]
    omega
  unfold valueLine
  rw [hquote doubleQuote fun c hc => (hv.start c hc).1,
    hquote singleQuote fun c hc => (hv.start c hc).2, hplain]
  dsimp only [Option.none_or]
  rw [name_entry h hpad hlen, hvalue]

/-- An entry without a value: the blank behind the equals sign is gone already. -/
theorem valueLine_noValue (h : KeyName s) (hpad : ∀ c ∈ pad, c = space) :
    valueLine (s ++ pad ++ [equalSign]) = .lineValue s [] := by
  have hkey : scanKey (s ++ pad ++ [equalSign]) = some (s ++ pad, []) :=
    scanKey_entry h hpad Text.stops_nil (List.forall_mem_nil _)
  have hquote : ∀ q, scanQuoted q (s ++ pad ++ [equalSign]) = none := by
    intro q
    unfold scanQuoted
    rw [hkey]
    rfl
  have hplain : scanPlain (s ++ pad ++ [equalSign]) = none := by
    unfold scanPlain
    rw [hkey]
    rfl
  have hnone : scanNoValue (s ++ pad ++ [equalSign]) = none := by
    unfold scanNoValue
    rw [hkey]
    rfl
  have hequals : scanEquals (s ++ pad ++ [equalSign]) = some (s ++ pad) := by
    have hscan : Text.scanset (· ≠ equalSign) (s ++ pad ++ [equalSign]) =
        some (s ++ pad, [equalSign]) := by
      refine Text.scanset_append ?_ (fun c hc => ?_) (Text.stops_cons (by simp))
      · exact fun hnil => h.nonempty (List.append_eq_nil_iff.mp hnil).1
      · rcases List.mem_append.mp hc with hs | hp
        · simpa using (h.plain c hs).1
        · rw [hpad c hp]
          decide
    unfold scanEquals
    rw [hscan]
    rfl
  have hlen : s.length < (s ++ pad ++ [equalSign]).length := by
    simp only [List.length_append, List.length_cons]
    omega
  unfold valueLine
  rw [hquote, hquote, hplain, hnone, hequals]
  dsimp only [Option.none_or]
  rw [name_entry h hpad hlen]

/-- A line that begins with the name of a key is a line with a value. -/
theorem iniparserLine_of_key (h : KeyName s) {rest : Str}
    (hbare : Text.Bare isspace (s ++ rest)) (name : Str) :
    iniparserLine (s ++ rest) name = valueLine (s ++ rest) := by
  have hstrip : strstrip (s ++ rest) = s ++ rest := hbare.strip_eq
  obtain ⟨c, t, rfl⟩ := List.exists_cons_of_ne_nil h.nonempty
  obtain ⟨hhash, hsemi, hopen⟩ := h.start c rfl
  have hhead : (c :: t ++ rest).head? = some c := rfl
  unfold iniparserLine
  simp only [hstrip, hhead, Option.some.injEq, hhash, hsemi, hopen, or_self, false_and, if_false]
  rw [if_neg (by simp)]

/-- Stripped at its end, an entry without a value loses the blank behind the equals sign. -/
theorem rdropWhile_entry (hv : Value v) (s pad : Str) :
    (s ++ pad ++ equalSign :: ([space] ++ v)).rdropWhile isspace =
      s ++ pad ++ equalSign :: if v = [] then [] else space :: v := by
  cases v with
  | nil =>
      have hdrop := Text.rdropWhile_append (p := isspace) (s := s ++ pad ++ [equalSign])
        (t := [space]) (by rw [List.getLast?_concat]; rintro c ⟨⟩; rfl) (by simp [isspace, space])
      rw [if_pos rfl, ← hdrop]
      simp
  | cons c v =>
      have hdrop := Text.rdropWhile_append (p := isspace)
        (s := s ++ pad ++ equalSign :: (space :: c :: v)) (t := [])
        (fun d hd => hv.bare.2 d (by simpa using hd)) (by simp)
      rw [List.append_nil] at hdrop
      rw [if_neg (List.cons_ne_nil c v)]
      exact hdrop

/-- An entry, as the loader passes it on. -/
theorem iniparserLine_entry (h : KeyName s) (hpad : ∀ c ∈ pad, c = space) (hv : Value v)
    (name : Str) :
    iniparserLine ((s ++ pad ++ equalSign :: ([space] ++ v)).rdropWhile isspace) name =
      .lineValue s v := by
  have hhead : ∀ rest, ∀ c ∈ (s ++ rest).head?, isspace c = false := by
    intro rest c hc
    refine h.bare.1 c ?_
    cases s with
    | nil => exact absurd rfl h.nonempty
    | cons d s => exact hc
  rw [rdropWhile_entry hv, List.append_assoc]
  cases v with
  | nil =>
      rw [if_pos rfl, iniparserLine_of_key h ⟨hhead _, ?_⟩, ← List.append_assoc,
        valueLine_noValue h hpad]
      rw [← List.append_assoc, List.getLast?_concat]
      rintro c ⟨⟩
      rfl
  | cons c v =>
      rw [if_neg (List.cons_ne_nil c v), iniparserLine_of_key h ⟨hhead _, ?_⟩, ← List.append_assoc]
      · exact valueLine_entry h hpad hv (List.cons_ne_nil c v)
      · intro d hd
        refine hv.bare.2 d ?_
        simpa using hd

/-! ## Lengths -/

/-- The strings a line stores into the buffers of the loader. -/
def LineStatus.stored : LineStatus → List Str
  | .lineSection name => [name]
  | .lineValue key value => [key, value]
  | _ => []

theorem length_strlwc_le (s : Str) (len : Nat) : (strlwc s len).length ≤ s.length := by
  rw [strlwc, List.length_map, List.length_take]
  exact Nat.min_le_right ..

theorem length_strstrip_le (s : Str) : (strstrip s).length ≤ s.length :=
  Text.length_strip_le isspace s

theorem length_name_le (s : Str) (len : Nat) : (strlwc (strstrip s) len).length ≤ s.length :=
  Nat.le_trans (length_strlwc_le _ _) (length_strstrip_le s)

theorem length_plainValue_le (v : Str) : (plainValue v).length ≤ v.length := by
  unfold plainValue
  dsimp only
  split
  · exact Nat.zero_le _
  · exact length_strstrip_le v

theorem length_scanset {q : UInt8 → Bool} {s w t : Str} (h : Text.scanset q s = some (w, t)) :
    w.length ≤ s.length ∧ t.length ≤ s.length := by
  obtain ⟨rfl, -, -⟩ := Text.scanset_some h
  rw [List.length_append]
  omega

/-- Key and value of a format are parts of the line. -/
theorem length_scanKey {key rest : Str} (h : scanKey line = some (key, rest)) :
    key.length ≤ line.length ∧ rest.length ≤ line.length := by
  unfold scanKey at h
  simp only [Option.bind_eq_bind, Option.bind_eq_some_iff, Option.some.injEq, Prod.mk.injEq] at h
  obtain ⟨⟨w, t⟩, hscan, t', hlit, rfl, rfl⟩ := h
  obtain ⟨hw, ht⟩ := length_scanset hscan
  have hskip := (List.dropWhile_suffix isspace (l := t)).length_le
  have hskip' := (List.dropWhile_suffix isspace (l := t')).length_le
  rw [Text.literal_some hlit, List.length_cons] at hskip
  exact ⟨hw, by omega⟩

theorem length_scanQuoted {q : UInt8} {key value : Str}
    (h : scanQuoted q line = some (key, value)) :
    key.length ≤ line.length ∧ value.length ≤ line.length := by
  unfold scanQuoted at h
  simp only [Option.bind_eq_bind, Option.bind_eq_some_iff, Option.some.injEq, Prod.mk.injEq] at h
  obtain ⟨⟨w, t⟩, hkey, t', hlit, ⟨v, r⟩, hscan, rfl, rfl⟩ := h
  obtain ⟨hw, ht⟩ := length_scanKey hkey
  have hv := (length_scanset hscan).1
  dsimp only at hlit
  rw [Text.literal_some hlit, List.length_cons] at ht
  exact ⟨hw, Nat.le_trans hv (Nat.le_of_succ_le ht)⟩

theorem length_scanPlain {key value : Str} (h : scanPlain line = some (key, value)) :
    key.length ≤ line.length ∧ value.length ≤ line.length := by
  unfold scanPlain at h
  simp only [Option.bind_eq_bind, Option.bind_eq_some_iff, Option.some.injEq, Prod.mk.injEq] at h
  obtain ⟨⟨w, t⟩, hkey, ⟨v, r⟩, hscan, rfl, rfl⟩ := h
  obtain ⟨hw, ht⟩ := length_scanKey hkey
  exact ⟨hw, Nat.le_trans (length_scanset hscan).1 ht⟩

theorem length_scanNoValue {key : Str} (h : scanNoValue line = some key) :
    key.length ≤ line.length := by
  unfold scanNoValue at h
  simp only [Option.bind_eq_bind, Option.bind_eq_some_iff, Option.some.injEq] at h
  obtain ⟨⟨w, t⟩, hkey, -, -, rfl⟩ := h
  exact (length_scanKey hkey).1

theorem length_scanEquals {key : Str} (h : scanEquals line = some key) :
    key.length ≤ line.length := by
  unfold scanEquals at h
  simp only [Option.bind_eq_bind, Option.bind_eq_some_iff, Option.some.injEq] at h
  obtain ⟨⟨w, t⟩, hkey, -, -, rfl⟩ := h
  exact (length_scanset hkey).1

theorem length_stored_valueLine {w : Str} (h : w ∈ (valueLine line).stored) :
    w.length ≤ line.length := by
  unfold valueLine at h
  dsimp only at h
  split at h
  next key value hscan =>
    have hlen : key.length ≤ line.length ∧ value.length ≤ line.length := by
      rcases Option.or_eq_some_iff.mp hscan with hq | ⟨-, hq⟩ <;> exact length_scanQuoted hq
    rcases List.mem_pair.mp h with rfl | rfl
    · exact Nat.le_trans (length_name_le _ _) hlen.1
    · exact hlen.2
  next =>
    split at h
    next key value hscan =>
      have hlen := length_scanPlain hscan
      rcases List.mem_pair.mp h with rfl | rfl
      · exact Nat.le_trans (length_name_le _ _) hlen.1
      · exact Nat.le_trans (length_plainValue_le _) hlen.2
    next =>
      split at h
      next key hscan =>
        have hlen : key.length ≤ line.length := by
          rcases Option.or_eq_some_iff.mp hscan with hk | ⟨-, hk⟩
          · exact length_scanNoValue hk
          · exact length_scanEquals hk
        rcases List.mem_pair.mp h with rfl | rfl
        · exact Nat.le_trans (length_name_le _ _) hlen
        · exact Nat.zero_le _
      next => cases h

/-- What a line stores is no longer than the line, or is the section that was there. -/
theorem length_stored {name w : Str} {n : Nat} (hline : line.length < n) (hname : name.length < n)
    (h : w ∈ (iniparserLine line name).stored) : w.length < n := by
  have hstrip : (strstrip line).length < n := Nat.lt_of_le_of_lt (length_strstrip_le line) hline
  unfold iniparserLine at h
  dsimp only at h
  split at h
  · cases h
  split at h
  · cases h
  split at h
  · rw [List.mem_singleton.mp h]
    refine Nat.lt_of_le_of_lt (length_name_le _ _) ?_
    cases hscan : Text.scanset (· ≠ closeBracket) (strstrip line).tail with
    | none => exact hname
    | some r =>
        have htail : (strstrip line).tail.length ≤ (strstrip line).length := by
          rw [List.length_tail]
          exact Nat.sub_le ..
        exact Nat.lt_of_le_of_lt (Nat.le_trans (length_scanset hscan).1 htail) hstrip
  · exact Nat.lt_of_le_of_lt (length_stored_valueLine h) hstrip

end VmpSa.Conf
