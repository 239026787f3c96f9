/-!
# Maps that remember insertion order

A `Keyed` map lists its members in the order in which their keys first appeared. Writing an
existing key replaces the member where it stands, and writing a new key appends one at the end,
so the order of the other members never changes. Maps whose keys are pairwise different satisfy
`Keyed.Distinct`; the empty map does, and `insert` and `map` keep it.
-/

namespace FixtureBench

universe u v

/-- Members by key, in order. -/
structure Keyed (α : Type u) where
  entries : List (String × α)

namespace Keyed

variable {α : Type u} {β : Type v}

def empty : Keyed α := ⟨[]⟩

instance : EmptyCollection (Keyed α) := ⟨empty⟩
instance : Inhabited (Keyed α) := ⟨empty⟩

def size (m : Keyed α) : Nat := m.entries.length

def isEmpty (m : Keyed α) : Bool := m.entries.isEmpty

def keys (m : Keyed α) : List String := m.entries.map (·.1)

def values (m : Keyed α) : List α := m.entries.map (·.2)

def get? (m : Keyed α) (key : String) : Option α := m.entries.lookup key

def contains (m : Keyed α) (key : String) : Bool := (m.get? key).isSome

/-- Store `value` under `key`: in place of the member that has the key, or else at the end. -/
def insertEntry (key : String) (value : α) : List (String × α) → List (String × α)
  | [] => [(key, value)]
  | (k, v) :: rest => if k = key then (key, value) :: rest else (k, v) :: insertEntry key value rest

def insert (m : Keyed α) (key : String) (value : α) : Keyed α := ⟨insertEntry key value m.entries⟩

def insertAll (m : Keyed α) (pairs : List (String × α)) : Keyed α :=
  pairs.foldl (fun acc pair => acc.insert pair.1 pair.2) m

/-- The map of a list of pairs: a repeated key keeps its first position and its last value. -/
def ofPairs (pairs : List (String × α)) : Keyed α := insertAll empty pairs

def map (f : α → β) (m : Keyed α) : Keyed β := ⟨m.entries.map fun (k, v) => (k, f v)⟩

/-- No key occurs twice. -/
def Distinct (m : Keyed α) : Prop := m.keys.Nodup

instance (m : Keyed α) : Decidable m.Distinct := inferInstanceAs (Decidable m.keys.Nodup)

@[simp] theorem get?_empty (key : String) : (empty : Keyed α).get? key = none := rfl

theorem lookup_cons_ite (key k : String) (v : α) (es : List (String × α)) :
    ((k, v) :: es).lookup key = if key = k then some v else es.lookup key := by
  by_cases h : key = k
  · simp [h]
  · simp [List.lookup_cons, h, beq_eq_false_iff_ne.2 h]

theorem lookup_insertEntry (key : String) (value : α) (key' : String) (es : List (String × α)) :
    (insertEntry key value es).lookup key' = if key' = key then some value else es.lookup key' := by
  fun_induction insertEntry key value es with
  | case1 => simp [lookup_cons_ite]
  | case2 v rest => simp only [lookup_cons_ite]; split <;> rfl
  | case3 k v rest hk ih =>
    simp only [lookup_cons_ite, ih]
    split <;> rename_i h
    · simp [h, hk]
    · rfl

@[simp] theorem get?_insert (m : Keyed α) (key : String) (value : α) (key' : String) :
    (m.insert key value).get? key' = if key' = key then some value else m.get? key' :=
  lookup_insertEntry key value key' m.entries

theorem keys_insertEntry (key : String) (value : α) : (es : List (String × α)) →
    (insertEntry key value es).map (·.1) =
      if key ∈ es.map (·.1) then es.map (·.1) else es.map (·.1) ++ [key]
  | [] => by simp [insertEntry]
  | (k, v) :: rest => by
    have ih := keys_insertEntry key value rest
    by_cases hk : k = key
    · simp [insertEntry, hk]
    · have hk' : ¬ key = k := fun h => hk h.symm
      simp only [insertEntry, hk, if_false, List.map_cons, ih, List.mem_cons, hk', false_or]
      split <;> simp

/-- Inserting keeps the keys as they are, or adds the new one at the end. -/
theorem keys_insert (m : Keyed α) (key : String) (value : α) :
    (m.insert key value).keys = if key ∈ m.keys then m.keys else m.keys ++ [key] :=
  keys_insertEntry key value m.entries

theorem insertEntry_of_not_mem {key : String} {es : List (String × α)} (h : key ∉ es.map (·.1))
    (value : α) : insertEntry key value es = es ++ [(key, value)] := by
  induction es with
  | nil => rfl
  | cons e rest ih =>
    obtain ⟨hne, hrest⟩ := List.ne_and_not_mem_of_not_mem_cons h
    simp [insertEntry, hne.symm, ih hrest]

/-- New keys come after the others, in their order. -/
theorem insertAll_of_nodup {m : Keyed α} {pairs : List (String × α)}
    (h : (m.keys ++ pairs.map (·.1)).Nodup) : m.insertAll pairs = ⟨m.entries ++ pairs⟩ := by
  induction pairs generalizing m with
  | nil => simp [insertAll]
  | cons pair rest ih =>
    have hfresh : pair.1 ∉ m.keys := by
      intro hmem
      exact (List.nodup_append.1 h).2.2 _ hmem _ List.mem_cons_self rfl
    have hinsert : m.insert pair.1 pair.2 = ⟨m.entries ++ [pair]⟩ :=
      congrArg Keyed.mk (insertEntry_of_not_mem hfresh pair.2)
    have hrest := ih (m := m.insert pair.1 pair.2) (by
      rw [keys_insert, if_neg hfresh]
      simpa using h)
    rw [insertAll, List.foldl_cons, ← insertAll, hrest, hinsert]
    simp

theorem Distinct.insert {m : Keyed α} (h : m.Distinct) (key : String) (value : α) :
    (m.insert key value).Distinct := by
  unfold Distinct
  rw [keys_insert]
  split
  · exact h
  · rename_i hk
    refine List.nodup_append.2 ⟨h, by simp, ?_⟩
    intro a ha b hb hab
    simp at hb
    exact hk (hb ▸ hab ▸ ha)

theorem distinct_empty : (empty : Keyed α).Distinct := List.nodup_nil

theorem Distinct.insertAll {m : Keyed α} (h : m.Distinct) (pairs : List (String × α)) :
    (m.insertAll pairs).Distinct := by
  induction pairs generalizing m with
  | nil => exact h
  | cons pair rest ih => exact ih (h.insert pair.1 pair.2)

theorem distinct_ofPairs (pairs : List (String × α)) : (ofPairs pairs).Distinct :=
  distinct_empty.insertAll pairs

@[simp] theorem keys_map (f : α → β) (m : Keyed α) : (m.map f).keys = m.keys := by
  simp [keys, map, Function.comp_def]

@[simp] theorem values_map (f : α → β) (m : Keyed α) : (m.map f).values = m.values.map f := by
  simp [values, map, Function.comp_def]

@[simp] theorem size_map (f : α → β) (m : Keyed α) : (m.map f).size = m.size := by
  simp [size, map]

@[simp] theorem get?_map (f : α → β) (m : Keyed α) (key : String) :
    (m.map f).get? key = (m.get? key).map f := by
  obtain ⟨es⟩ := m
  induction es with
  | nil => rfl
  | cons e rest ih =>
    obtain ⟨k, v⟩ := e
    simp only [get?, map, List.map_cons, lookup_cons_ite] at ih ⊢
    by_cases h : key = k
    · simp [h]
    · simpa [h] using ih

theorem map_insert (f : α → β) (m : Keyed α) (key : String) (value : α) :
    (m.insert key value).map f = (m.map f).insert key (f value) := by
  have entries (es : List (String × α)) :
      (insertEntry key value es).map (fun e => (e.1, f e.2)) =
        insertEntry key (f value) (es.map fun e => (e.1, f e.2)) := by
    induction es with
    | nil => rfl
    | cons e rest ih =>
      by_cases h : e.1 = key
      · simp [insertEntry, h]
      · simp [insertEntry, h, ih]
  exact congrArg Keyed.mk (entries m.entries)

theorem map_ofPairs (f : α → β) (pairs : List (String × α)) :
    (ofPairs pairs).map f = ofPairs (pairs.map fun e => (e.1, f e.2)) := by
  have from_map (m : Keyed α) :
      (m.insertAll pairs).map f = (m.map f).insertAll (pairs.map fun e => (e.1, f e.2)) := by
    induction pairs generalizing m with
    | nil => rfl
    | cons pair rest ih =>
      simp only [insertAll, List.foldl_cons, List.map_cons] at ih ⊢
      rw [ih, map_insert]
  exact from_map empty

theorem map_map {γ : Type v} (g : β → γ) (f : α → β) (m : Keyed α) :
    (m.map f).map g = m.map (g ∘ f) := by
  simp [map, Function.comp_def]

theorem map_congr {f g : α → β} {m : Keyed α} (h : ∀ v ∈ m.values, f v = g v) :
    m.map f = m.map g := by
  refine congrArg Keyed.mk (List.map_congr_left fun e he => ?_)
  exact congrArg (e.1, ·) (h e.2 (List.mem_map_of_mem he))

theorem mem_entries_of_get? {m : Keyed α} {key : String} {value : α}
    (h : m.get? key = some value) : (key, value) ∈ m.entries := by
  obtain ⟨es⟩ := m
  induction es with
  | nil => cases h
  | cons e rest ih =>
    obtain ⟨k, v⟩ := e
    simp only [get?, lookup_cons_ite] at h ih
    by_cases hk : key = k
    · simp_all
    · exact List.mem_cons_of_mem _ (ih (by simpa [hk] using h))

theorem get?_eq_none_iff {m : Keyed α} {key : String} : m.get? key = none ↔ key ∉ m.keys := by
  obtain ⟨es⟩ := m
  induction es with
  | nil => simp [get?, keys]
  | cons e rest ih =>
    obtain ⟨k, v⟩ := e
    simp only [get?, keys, lookup_cons_ite, List.map_cons, List.mem_cons] at ih ⊢
    by_cases h : key = k
    · simp [h]
    · simpa [h] using ih

theorem exists_get?_iff {m : Keyed α} {key : String} :
    (∃ value, m.get? key = some value) ↔ key ∈ m.keys := by
  rw [← Option.ne_none_iff_exists', ne_eq, get?_eq_none_iff, Classical.not_not]

theorem Distinct.get?_of_mem {m : Keyed α} (h : m.Distinct) {key : String} {value : α}
    (he : (key, value) ∈ m.entries) : m.get? key = some value := by
  obtain ⟨es⟩ := m
  induction es with
  | nil => cases he
  | cons first rest ih =>
    obtain ⟨k, v⟩ := first
    obtain ⟨hfirst, hrest⟩ := List.nodup_cons.1 h
    simp only [get?, lookup_cons_ite]
    rcases List.mem_cons.1 he with hhead | htail
    · simp_all
    · have hk : key ≠ k := by
        intro hk
        subst hk
        exact hfirst (List.mem_map.2 ⟨_, htail, rfl⟩)
      rw [if_neg hk]
      exact ih hrest htail

/-- The entry of a key and the entries of the other keys are all entries. -/
theorem Distinct.perm_of_get? {m : Keyed α} (h : m.Distinct) {key : String} {value : α}
    (hvalue : m.get? key = some value) :
    ((key, value) :: m.entries.filter (·.1 ≠ key)).Perm m.entries := by
  have hnodup : m.entries.Nodup := List.Pairwise.of_map _ (fun _ _ hne => mt (congrArg _) hne) h
  have hcons : ((key, value) :: m.entries.filter (·.1 ≠ key)).Nodup :=
    List.nodup_cons.2 ⟨by simp, hnodup.filter _⟩
  refine (List.perm_ext_iff_of_nodup hcons hnodup).2 fun e => ?_
  rw [List.mem_cons, List.mem_filter]
  constructor
  · rintro (rfl | ⟨he, -⟩)
    · exact mem_entries_of_get? hvalue
    · exact he
  · intro he
    by_cases hkey : e.1 = key
    · have hget := h.get?_of_mem he
      rw [hkey, hvalue] at hget
      exact .inl (Prod.ext hkey (Option.some.inj hget).symm)
    · exact .inr ⟨he, by simpa using hkey⟩

theorem insert_of_get? {m : Keyed α} {key : String} {value : α} (h : m.get? key = some value) :
    m.insert key value = m := by
  obtain ⟨es⟩ := m
  refine congrArg Keyed.mk ?_
  change es.lookup key = some value at h
  induction es with
  | nil => cases h
  | cons e rest ih =>
    obtain ⟨k, v⟩ := e
    rw [lookup_cons_ite] at h
    by_cases hk : key = k
    · rw [if_pos hk] at h
      rw [insertEntry, if_pos hk.symm, hk, Option.some.inj h]
    · rw [if_neg hk] at h
      rw [insertEntry, if_neg (Ne.symm hk), ih h]

theorem insert_insert (m : Keyed α) (key : String) (old value : α) :
    (m.insert key old).insert key value = m.insert key value := by
  refine congrArg Keyed.mk ?_
  change insertEntry key value (insertEntry key old m.entries) = insertEntry key value m.entries
  induction m.entries with
  | nil => rw [insertEntry, insertEntry, insertEntry, if_pos rfl]
  | cons e rest ih =>
    obtain ⟨k, v⟩ := e
    by_cases hk : k = key
    · rw [insertEntry, if_pos hk, insertEntry, if_pos rfl, insertEntry, if_pos hk]
    · rw [insertEntry, if_neg hk, insertEntry, if_neg hk, ih, insertEntry, if_neg hk]

theorem insert_comm {m : Keyed α} {key key' : String} (hne : key ≠ key') (h : key ∈ m.keys)
    (h' : key' ∈ m.keys) (value value' : α) :
    (m.insert key value).insert key' value' = (m.insert key' value').insert key value := by
  obtain ⟨es⟩ := m
  refine congrArg Keyed.mk ?_
  change key ∈ es.map (·.1) at h
  change key' ∈ es.map (·.1) at h'
  change insertEntry key' value' (insertEntry key value es) =
    insertEntry key value (insertEntry key' value' es)
  induction es with
  | nil => cases h
  | cons e rest ih =>
    obtain ⟨k, v⟩ := e
    rw [List.map_cons, List.mem_cons] at h h'
    by_cases hk : k = key
    · subst hk
      simp [insertEntry, hne]
    · by_cases hk' : k = key'
      · subst hk'
        simp [insertEntry, hk]
      · have hrest := ih (h.resolve_left (Ne.symm hk)) (h'.resolve_left (Ne.symm hk'))
        simp [insertEntry, hk, hk', hrest]

/-- In a map without repeated keys, storing a known member changes its entry and no other. -/
theorem Distinct.insert_eq_map {m : Keyed α} (h : m.Distinct) {key : String} (hkey : key ∈ m.keys)
    (value : α) :
    m.insert key value = ⟨m.entries.map fun e => if e.1 = key then (key, value) else e⟩ := by
  obtain ⟨es⟩ := m
  refine congrArg Keyed.mk ?_
  change (es.map (·.1)).Nodup at h
  change key ∈ es.map (·.1) at hkey
  change insertEntry key value es = _
  induction es with
  | nil => cases hkey
  | cons e rest ih =>
    obtain ⟨k, v⟩ := e
    obtain ⟨hfresh, hrest⟩ := List.nodup_cons.1 h
    rw [List.map_cons]
    by_cases hk : k = key
    · subst hk
      have hothers : rest.map (fun e => if e.1 = k then (k, value) else e) = rest := by
        refine (List.map_congr_left fun e he => if_neg ?_).trans (List.map_id' rest)
        rintro rfl
        exact hfresh (List.mem_map.2 ⟨e, he, rfl⟩)
      rw [insertEntry, if_pos rfl, if_pos rfl, hothers]
    · have hmem := (List.mem_cons.1 hkey).resolve_left (Ne.symm hk)
      rw [insertEntry, if_neg hk, if_neg hk, ih hrest hmem]

theorem mem_values_insert {m : Keyed α} {key : String} {value v : α}
    (h : v ∈ (m.insert key value).values) : v = value ∨ v ∈ m.values := by
  obtain ⟨es⟩ := m
  induction es with
  | nil => simpa [insert, insertEntry, values] using h
  | cons e rest ih =>
    obtain ⟨k, v'⟩ := e
    by_cases hk : k = key
    · simp only [values, insert, insertEntry, hk, if_true, List.map_cons, List.mem_cons] at h ⊢
      exact h.imp_right .inr
    · simp only [values, insert, insertEntry, hk, if_false, List.map_cons, List.mem_cons] at h ih ⊢
      rcases h with h | h
      · exact .inr (.inl h)
      · exact (ih h).imp_right .inr

theorem mem_values_insertAll {m : Keyed α} {pairs : List (String × α)} {v : α}
    (h : v ∈ (m.insertAll pairs).values) : v ∈ m.values ∨ v ∈ pairs.map (·.2) := by
  induction pairs generalizing m with
  | nil => exact .inl h
  | cons pair rest ih =>
    rcases ih h with h | h
    · exact (mem_values_insert h).elim (fun hv => .inr (by simp [hv])) .inl
    · exact .inr (by simp [h])

theorem mem_pairs_of_mem_values_ofPairs {pairs : List (String × α)} {v : α}
    (h : v ∈ (ofPairs pairs).values) : v ∈ pairs.map (·.2) :=
  (mem_values_insertAll h).resolve_left (by simp [values, empty])

theorem mem_keys_insert {m : Keyed α} {key : String} {value : α} {k : String}
    (h : k ∈ (m.insert key value).keys) : k = key ∨ k ∈ m.keys := by
  rw [keys_insert] at h
  split at h
  · exact .inr h
  · simpa [or_comm] using h

theorem mem_keys_insertAll {m : Keyed α} {pairs : List (String × α)} {k : String}
    (h : k ∈ (m.insertAll pairs).keys) : k ∈ m.keys ∨ k ∈ pairs.map (·.1) := by
  induction pairs generalizing m with
  | nil => exact .inl h
  | cons pair rest ih =>
    rcases ih h with h | h
    · exact (mem_keys_insert h).elim (fun hk => .inr (by simp [hk])) .inl
    · exact .inr (by simp [h])

theorem mem_pairs_of_mem_keys_ofPairs {pairs : List (String × α)} {k : String}
    (h : k ∈ (ofPairs pairs).keys) : k ∈ pairs.map (·.1) :=
  (mem_keys_insertAll h).resolve_left (by simp [keys, empty])

theorem size_eq_length_keys (m : Keyed α) : m.size = m.keys.length :=
  (List.length_map _).symm

theorem size_insert_le (m : Keyed α) (key : String) (value : α) :
    (m.insert key value).size ≤ m.size + 1 := by
  rw [size_eq_length_keys, size_eq_length_keys, keys_insert]
  split
  · exact Nat.le_succ _
  · simp

theorem size_insertAll_le (m : Keyed α) (pairs : List (String × α)) :
    (m.insertAll pairs).size ≤ m.size + pairs.length := by
  induction pairs generalizing m with
  | nil => exact Nat.le_refl _
  | cons pair rest ih =>
    have hrest := ih (m.insert pair.1 pair.2)
    have hfirst := size_insert_le m pair.1 pair.2
    change ((m.insert pair.1 pair.2).insertAll rest).size ≤ m.size + (rest.length + 1)
    omega

theorem size_ofPairs_le (pairs : List (String × α)) : (ofPairs pairs).size ≤ pairs.length := by
  have h := size_insertAll_le empty pairs
  rwa [show (empty : Keyed α).size = 0 from rfl, Nat.zero_add] at h

theorem Distinct.map {m : Keyed α} (h : m.Distinct) (f : α → β) : (m.map f).Distinct := by
  unfold Distinct
  rw [keys_map]
  exact h

end Keyed

end FixtureBench
