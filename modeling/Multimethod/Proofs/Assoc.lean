import Multimethod.Assoc

/-!
# Names of a table

A table that is filled by setting names has every name once. What is found under a name of such
a table is what stands in its entry, wherever the entry stands.
-/

namespace Multimethod.Assoc

variable {α : Type} {table : Assoc α} {name other : String} {value : α}

/-- The names of a table, in order. -/
def keys (table : Assoc α) : List String :=
  table.map Prod.fst

/-- Whether no name stands twice in a table. -/
def Distinct (table : Assoc α) : Prop :=
  table.keys.Nodup

theorem find?_eq_none_iff : table.find? name = none ↔ name ∉ table.keys := by
  induction table with
  | nil => simp [keys]
  | cons entry rest ih =>
      obtain ⟨key, held⟩ := entry
      by_cases same : key = name
      · simp [find?, keys, same]
      · have different : name ≠ key := fun equal => same equal.symm
        rw [keys] at ih
        simp [find?, keys, same, different, ih]

theorem mem_of_find? (found : table.find? name = some value) : (name, value) ∈ table := by
  induction table with
  | nil => cases found
  | cons entry rest ih =>
      obtain ⟨key, held⟩ := entry
      by_cases same : key = name
      · simp only [find?, same, if_true, Option.some.injEq] at found
        rw [same, found]
        exact List.mem_cons_self
      · rw [find?, if_neg same] at found
        exact List.mem_cons_of_mem _ (ih found)

/-- Whatever stands in a table without double names is found there. -/
theorem find?_of_mem (distinct : Distinct table) (member : (name, value) ∈ table) :
    table.find? name = some value := by
  induction table with
  | nil => cases member
  | cons entry rest ih =>
      obtain ⟨key, held⟩ := entry
      obtain ⟨fresh, distinct⟩ := List.nodup_cons.1 distinct
      rcases List.mem_cons.1 member with here | further
      · obtain ⟨rfl, rfl⟩ := Prod.mk.inj here
        exact if_pos rfl
      · have different : key ≠ name := fun same =>
          fresh (List.mem_map.2 ⟨_, further, same.symm⟩)
        rw [find?, if_neg different]
        exact ih distinct further

theorem keys_insert (table : Assoc α) (name : String) (value : α) :
    (table.insert name value).keys =
      if name ∈ table.keys then table.keys else table.keys ++ [name] := by
  induction table with
  | nil => simp [insert, keys]
  | cons entry rest ih =>
      obtain ⟨key, held⟩ := entry
      rw [keys, keys] at ih
      by_cases same : key = name
      · simp [insert, keys, same]
      · have different : name ≠ key := fun equal => same equal.symm
        rw [insert, if_neg same]
        simp only [keys, List.map_cons, ih, List.mem_cons, different, false_or]
        split <;> simp

/-- Setting a name brings nothing into a table but the entry set. -/
theorem set_or_mem_of_mem_insert {new : α} (member : (other, value) ∈ table.insert name new) :
    (other = name ∧ value = new) ∨ (other, value) ∈ table := by
  induction table with
  | nil =>
      rw [insert, List.mem_singleton, Prod.mk.injEq] at member
      exact Or.inl member
  | cons entry rest ih =>
      obtain ⟨key, held⟩ := entry
      rw [insert] at member
      split at member
      · rename_i same
        rcases List.mem_cons.1 member with here | further
        · cases here
          exact Or.inl ⟨same, rfl⟩
        · exact Or.inr (List.mem_cons_of_mem _ further)
      · rcases List.mem_cons.1 member with here | further
        · exact Or.inr (here ▸ List.mem_cons_self)
        · exact (ih further).imp id (List.mem_cons_of_mem _)

theorem eq_or_mem_of_mem_insert {new : α} (member : (other, value) ∈ table.insert name new) :
    value = new ∨ (other, value) ∈ table :=
  (set_or_mem_of_mem_insert member).imp_left fun set => set.2

/-- What holds of all values of a table and of the one set holds of all behind the setting. -/
theorem forall_mem_insert (p : α → Prop) (all : ∀ entry ∈ table, p entry.2) (new : p value) :
    ∀ entry ∈ table.insert name value, p entry.2 := by
  intro entry member
  rcases eq_or_mem_of_mem_insert member with same | old
  · rwa [same]
  · exact all entry old

theorem find?_erase (table : Assoc α) (name other : String) :
    (table.erase name).find? other = if name = other then none else table.find? other := by
  induction table with
  | nil => simp [erase]
  | cons entry rest ih =>
      obtain ⟨key, held⟩ := entry
      rw [erase] at ih
      by_cases same : key = name
      · subst same
        by_cases here : key = other <;> simp_all [erase, find?]
      · by_cases here : key = other
        · subst here
          simp [erase, find?, same, Ne.symm same]
        · simp_all [erase, find?]

/-- What is found in a table is found in a part of it to which it belongs. -/
theorem find?_filter {keep : String × α → Bool} (found : table.find? name = some value)
    (kept : keep (name, value) = true) : find? (table.filter keep) name = some value := by
  induction table with
  | nil => cases found
  | cons entry rest ih =>
      obtain ⟨key, held⟩ := entry
      by_cases same : key = name
      · subst same
        rw [find?, if_pos rfl, Option.some.injEq] at found
        subst found
        rw [List.filter_cons, if_pos kept, find?, if_pos rfl]
      · rw [find?, if_neg same] at found
        rw [List.filter_cons]
        split
        · rw [find?, if_neg same]
          exact ih found
        · exact ih found

/-- Setting a name keeps the names apart. -/
theorem Distinct.insert (distinct : Distinct table) (name : String) (value : α) :
    Distinct (table.insert name value) := by
  rw [Distinct, keys_insert]
  split
  case isTrue => exact distinct
  case isFalse fresh =>
      refine List.nodup_append.2 ⟨distinct, by simp, ?_⟩
      intro key member last single equal
      rw [equal, List.mem_singleton.1 single] at member
      exact fresh member

theorem Distinct.erase (distinct : Distinct table) (name : String) :
    Distinct (table.erase name) :=
  List.Nodup.sublist (List.filter_sublist.map Prod.fst) distinct

/-- Setting a name that is present makes a table no longer. -/
theorem length_insert_of_find? (found : table.find? name = some value) (new : α) :
    (table.insert name new).length = table.length := by
  have present : name ∈ table.keys := List.mem_map.2 ⟨_, mem_of_find? found, rfl⟩
  have same := congrArg List.length (keys_insert table name new)
  rw [if_pos present] at same
  simpa [keys] using same

theorem length_insert_le (table : Assoc α) (name : String) (new : α) :
    (table.insert name new).length ≤ table.length + 1 := by
  have longer := congrArg List.length (keys_insert table name new)
  split at longer
  all_goals
    simp only [keys, List.length_map, List.length_append, List.length_singleton] at longer
    omega

theorem length_erase_lt (found : table.find? name = some value) :
    (table.erase name).length < table.length :=
  List.length_filter_lt_length_iff_exists.2 ⟨(name, value), mem_of_find? found, by simp⟩

/-! ## Other values under the same names -/

variable {β : Type} {f : α → β}

/-- A table with other values under the same names. -/
def mapValues (f : α → β) (table : Assoc α) : Assoc β :=
  table.map (Prod.map id f)

theorem find?_mapValues (table : Assoc α) (name : String) :
    (table.mapValues f).find? name = (table.find? name).map f := by
  induction table with
  | nil => rfl
  | cons entry rest ih =>
      by_cases here : entry.1 = name
      · simp [mapValues, find?, here]
      · simpa [mapValues, find?, here] using ih

theorem insert_mapValues (table : Assoc α) (name : String) (value : α) :
    (table.insert name value).mapValues f = (table.mapValues f).insert name (f value) := by
  induction table with
  | nil => rfl
  | cons entry rest ih =>
      obtain ⟨key, old⟩ := entry
      by_cases here : key = name
      · simp [mapValues, insert, here]
      · rw [insert, if_neg here]
        show (key, f old) :: mapValues f (insert rest name value) = _
        rw [ih]
        simp [mapValues, insert, here]

theorem filter_mapValues (table : Assoc α) {keep : String × α → Bool}
    {keep' : String × β → Bool} (same : ∀ name value, keep' (name, f value) = keep (name, value)) :
    List.filter keep' (table.mapValues f) = mapValues f (List.filter keep table) := by
  rw [mapValues, mapValues, List.filter_map]
  congr 1
  exact List.filter_congr fun entry _ => same entry.1 entry.2

theorem erase_mapValues (table : Assoc α) (name : String) :
    (table.erase name).mapValues f = (table.mapValues f).erase name := by
  unfold erase
  exact (filter_mapValues (f := f) table fun _ _ => rfl).symm

/-! ## Tables of pairs -/

/-- The entries of a table of pairs are pairs. -/
theorem mem_of_mem_ofPairs {pairs : List (String × α)} (member : (name, value) ∈ ofPairs pairs) :
    (name, value) ∈ pairs := by
  have folded : ∀ (pairs : List (String × α)) (table : Assoc α),
      (name, value) ∈ pairs.foldl (fun table pair => table.insert pair.1 pair.2) table →
      (name, value) ∈ pairs ∨ (name, value) ∈ table := by
    intro pairs
    induction pairs with
    | nil => exact fun table member => .inr member
    | cons pair pairs ih =>
        intro table member
        rcases ih _ member with further | here
        · exact .inl (List.mem_cons_of_mem _ further)
        · rcases set_or_mem_of_mem_insert here with ⟨rfl, rfl⟩ | old
          · exact .inl List.mem_cons_self
          · exact .inr old
  exact (folded pairs [] member).resolve_right List.not_mem_nil

theorem mem_keys_insert :
    other ∈ (table.insert name value).keys ↔ other ∈ table.keys ∨ other = name := by
  rw [keys_insert]
  split
  · rename_i present
    exact ⟨.inl, fun either => either.elim id fun same => same ▸ present⟩
  · rw [List.mem_append, List.mem_singleton]

/-- The names of a table of pairs are those of the pairs. -/
theorem mem_keys_ofPairs {pairs : List (String × α)} :
    name ∈ (ofPairs pairs).keys ↔ name ∈ pairs.map Prod.fst := by
  have folded : ∀ (pairs : List (String × α)) (table : Assoc α),
      name ∈ keys (pairs.foldl (fun table pair => table.insert pair.1 pair.2) table) ↔
        name ∈ table.keys ∨ name ∈ pairs.map Prod.fst := by
    intro pairs
    induction pairs with
    | nil => simp
    | cons pair pairs ih =>
        intro table
        rw [List.foldl_cons, ih, mem_keys_insert, List.map_cons, List.mem_cons, or_assoc]
  exact (folded pairs []).trans (or_iff_right List.not_mem_nil)

end Multimethod.Assoc
