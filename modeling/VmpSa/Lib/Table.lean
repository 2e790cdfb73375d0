import Mathlib.Data.List.Nodup
import Mathlib.Logic.Function.Basic
import Mathlib.Tactic.Common
import VmpSa.Lib.Loop

/-!
# Tables of slots

A table is an array of slots, each free or with a key and a value.  `lookup`
searches it from the front, so a table without double keys stands for a partial
map.  The lemmas say what storing into a slot, changing a slot and freeing a slot
do to that map, whichever slot it is.

A free slot is found by probing: from a start slot on, round the end.  When a slot is
free the probe ends at one (`probe_ends`).
-/

namespace Table

variable {K V : Type} [DecidableEq K]

/-- The keys in the table, slot by slot. -/
def keys : List (Option (K × V)) → List K
  | [] => []
  | none :: es => keys es
  | some (k, _) :: es => k :: keys es

/-- The value of the first slot with the key. -/
def lookup : List (Option (K × V)) → K → Option V
  | [], _ => none
  | none :: es, k => lookup es k
  | some (k', v) :: es, k => if k' = k then some v else lookup es k

variable {es : List (Option (K × V))} {i : Nat} {k k' : K} {v v' : V}

/-! ## Keys -/

omit [DecidableEq K] in
@[simp] theorem keys_append (es fs : List (Option (K × V))) :
    keys (es ++ fs) = keys es ++ keys fs := by
  induction es with
  | nil => rfl
  | cons e es ih =>
      cases e with
      | none => exact ih
      | some p => exact congrArg (p.1 :: ·) ih

omit [DecidableEq K] in
@[simp] theorem keys_replicate_none (n : Nat) :
    keys (List.replicate n (none : Option (K × V))) = [] := by
  induction n with
  | zero => rfl
  | succ n ih => exact ih

omit [DecidableEq K] in
/-- A table that is not full has a free slot. -/
theorem exists_free (h : (keys es).length < es.length) :
    ∃ i : Nat, es[i]? = some none := by
  induction es with
  | nil => cases h
  | cons e es ih =>
      cases e with
      | none => exact ⟨0, rfl⟩
      | some p =>
          obtain ⟨i, hi⟩ := ih (Nat.lt_of_succ_lt_succ h)
          exact ⟨i + 1, hi⟩

omit [DecidableEq K] in
/-- A table around one of its slots. -/
theorem exists_around {e : Option (K × V)} (h : es[i]? = some e) :
    ∃ xs ys, es = xs ++ e :: ys ∧ ∀ e', es.set i e' = xs ++ e' :: ys := by
  obtain ⟨hlt, rfl⟩ := List.getElem?_eq_some_iff.mp h
  refine ⟨es.take i, es.drop (i + 1), ?_, fun e' => ?_⟩
  · rw [List.getElem_cons_drop, List.take_append_drop]
  · rw [List.set_eq_take_append_cons_drop, if_pos hlt]

/-! ## The map of a table -/

theorem lookup_append (es fs : List (Option (K × V))) (k : K) :
    lookup (es ++ fs) k = (lookup es k).or (lookup fs k) := by
  induction es with
  | nil => rfl
  | cons e es ih =>
      cases e with
      | none => exact ih
      | some p =>
          rw [List.cons_append, lookup, lookup]
          split
          · rfl
          · exact ih

theorem lookup_eq_none_iff : lookup es k = none ↔ k ∉ keys es := by
  induction es with
  | nil => simp [lookup, keys]
  | cons e es ih =>
      cases e with
      | none => exact ih
      | some p =>
          obtain ⟨k', v⟩ := p
          rw [lookup, keys, List.mem_cons, not_or]
          split
          next heq => simp [heq]
          next hne => simp [ih, Ne.symm hne]

theorem lookup_replicate_none (n : Nat) :
    lookup (List.replicate n (none : Option (K × V))) k = none := by
  rw [lookup_eq_none_iff, keys_replicate_none]
  exact List.not_mem_nil

/-- A slot with another key does not bind the key. -/
theorem lookup_cons_of_ne (v : V) (ys : List (Option (K × V))) {x : K} (hx : x ≠ k) :
    lookup (some (k, v) :: ys) x = lookup ys x := by
  rw [lookup, if_neg (Ne.symm hx)]

/-- Two tables that differ in one slot agree on every key that neither slot has. -/
theorem lookup_around {e e' : Option (K × V)} {x : K} (he : x ∉ keys [e]) (he' : x ∉ keys [e'])
    (xs ys : List (Option (K × V))) : lookup (xs ++ e :: ys) x = lookup (xs ++ e' :: ys) x := by
  have hout : ∀ e : Option (K × V), x ∉ keys [e] → lookup (e :: ys) x = lookup ys x := by
    intro e he
    cases e with
    | none => rfl
    | some p => exact lookup_cons_of_ne p.2 ys fun hx => he (by simp [keys, hx])
  rw [lookup_append, lookup_append, hout e he, hout e' he']

/-- The key of a slot is in no other slot. -/
theorem lookup_front_of_nodup {xs ys : List (Option (K × V))}
    (hd : (keys (xs ++ some (k, v) :: ys)).Nodup) : lookup xs k = none ∧ lookup ys k = none := by
  rw [keys_append, keys, List.nodup_middle] at hd
  have hout := (List.nodup_cons.mp hd).1
  rw [List.mem_append, not_or] at hout
  exact ⟨lookup_eq_none_iff.mpr hout.1, lookup_eq_none_iff.mpr hout.2⟩

/-- A slot with the key determines what the key is bound to. -/
theorem lookup_of_getElem? (hd : (keys es).Nodup) (h : es[i]? = some (some (k, v))) :
    lookup es k = some v := by
  obtain ⟨xs, ys, rfl, -⟩ := exists_around h
  rw [lookup_append, (lookup_front_of_nodup hd).1, Option.none_or, lookup, if_pos rfl]

/-- A new key in a free slot. -/
theorem lookup_set_free (h : es[i]? = some none) (hk : k ∉ keys es) (v : V) :
    lookup (es.set i (some (k, v))) = Function.update (lookup es) k (some v) := by
  obtain ⟨xs, ys, rfl, hset⟩ := exists_around h
  rw [hset]
  funext x
  rw [Function.update_apply]
  split
  next heq =>
    have hfront : k ∉ keys xs := fun hmem => hk (by simp [hmem])
    rw [heq, lookup_append, lookup_eq_none_iff.mpr hfront, Option.none_or, lookup, if_pos rfl]
  next hne => exact lookup_around (by simp [keys, hne]) (by simp [keys]) xs ys

/-- Another value in the slot of a key. -/
theorem lookup_set_key (hd : (keys es).Nodup) (h : es[i]? = some (some (k, v))) (v' : V) :
    lookup (es.set i (some (k, v'))) = Function.update (lookup es) k (some v') := by
  obtain ⟨xs, ys, rfl, hset⟩ := exists_around h
  rw [hset]
  funext x
  rw [Function.update_apply]
  split
  next heq =>
    rw [heq, lookup_append, (lookup_front_of_nodup hd).1, Option.none_or, lookup, if_pos rfl]
  next hne => exact lookup_around (by simp [keys, hne]) (by simp [keys, hne]) xs ys

/-- The slot of a key is freed. -/
theorem lookup_set_none (hd : (keys es).Nodup) (h : es[i]? = some (some (k, v))) :
    lookup (es.set i none) = Function.update (lookup es) k none := by
  obtain ⟨xs, ys, rfl, hset⟩ := exists_around h
  rw [hset]
  funext x
  rw [Function.update_apply]
  split
  next heq =>
    obtain ⟨hx, hy⟩ := lookup_front_of_nodup hd
    rw [heq, lookup_append, hx, Option.none_or, lookup, hy]
  next hne => exact lookup_around (by simp [keys]) (by simp [keys, hne]) xs ys

/-! ## The keys of a changed table -/

omit [DecidableEq K] in
theorem perm_keys_set_free (h : es[i]? = some none) (k : K) (v : V) :
    (keys (es.set i (some (k, v)))).Perm (k :: keys es) := by
  obtain ⟨xs, ys, rfl, hset⟩ := exists_around h
  rw [hset, keys_append, keys_append]
  exact List.perm_middle

omit [DecidableEq K] in
theorem keys_set_key (h : es[i]? = some (some (k, v))) (v' : V) :
    keys (es.set i (some (k, v'))) = keys es := by
  obtain ⟨xs, ys, rfl, hset⟩ := exists_around h
  rw [hset, keys_append, keys_append]
  rfl

omit [DecidableEq K] in
theorem perm_keys_set_none (h : es[i]? = some (some (k, v))) :
    (keys es).Perm (k :: keys (es.set i none)) := by
  obtain ⟨xs, ys, rfl, hset⟩ := exists_around h
  rw [hset, keys_append, keys_append]
  exact List.perm_middle

/-! ## Probing -/

/-- One look at a slot of a table of `size` slots: stop when it is free, or go on to
the next one, round the end. -/
def probeBody (free : Nat → Bool) (size i : Nat) : Loop.Pass Nat Nat :=
  if free i then .leave i else .again (if i + 1 = size then 0 else i + 1)

/-- The number of steps from one slot to another, round the end. -/
def distance (size i j : Nat) : Nat := if i ≤ j then j - i else size - i + j

/-- When some slot is free, a probe from any slot stops at a free one after less than
`size` steps. -/
theorem probe_ends {free : Nat → Bool} {size i j : Nat} (hi : i < size) (hj : j < size)
    (hfree : free j = true) :
    ∃ l, Loop.run (probeBody free size) size i = some l ∧ l < size ∧ free l = true := by
  have hsteps : ∀ n i, i < size → distance size i j < n →
      ∃ l, Loop.run (probeBody free size) n i = some l ∧ l < size ∧ free l = true := by
    intro n
    induction n with
    | zero => intro i _ hd; cases hd
    | succ n ih =>
        intro i hi hd
        by_cases hstop : free i = true
        · exact ⟨i, Loop.run_leave n (by rw [probeBody, if_pos hstop]), hi, hstop⟩
        · have hgo : probeBody free size i = .again (if i + 1 = size then 0 else i + 1) := by
            rw [probeBody, if_neg hstop]
          have hne : i ≠ j := fun he => hstop (he ▸ hfree)
          rw [Loop.run_again n hgo]
          refine ih _ ?_ ?_
          · split <;> omega
          · -- a step that does not start at the free slot gets nearer to it
            unfold distance at hd ⊢
            split at hd <;> split <;> split <;> omega
  refine hsteps size i hi ?_
  unfold distance
  split <;> omega

end Table
