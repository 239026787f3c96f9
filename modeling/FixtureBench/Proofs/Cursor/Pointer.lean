import FixtureBench.Proofs.Cursor.Access
import FixtureBench.Proofs.Cursor.Escape
import Mathlib.Data.List.Forall2

/-!
# Pointers and the cursors they stand for

A pointer spells the keys of a cursor, and nothing else of it. Read back, it gives a cursor with the
same keys in which every key that spells an index has become that index, so it reads and writes
every document as the first one does. The pointers are the texts that are empty or start with a
slash; the ones that are written for some cursor are those in which every tilde starts an escape.
`Pointer.parse_format_exact` collects this.
-/

namespace FixtureBench

/-- How a step comes back from its pointer: a key that spells an index comes back as the index. -/
inductive Step.ReadBack : Step → Step → Prop where
  | index (i : UInt64) : ReadBack (.index i) (.index i)
  | spelled (i : UInt64) : ReadBack (.key (toString i.toNat)) (.index i)
  | key {k : String} (h : ∀ i : UInt64, k ≠ toString i.toNat) : ReadBack (.key k) (.key k)

/-- Two cursors read every document alike and write to it alike, failures included. -/
def Cursor.Same (c d : Cursor) : Prop :=
  ∀ (ε : Type) [NodeNames ε] (t value : Tree ε), t.get? c = t.get? d ∧ t.set c value = t.set d value

namespace Tree

variable {ε : Type} [NodeNames ε]

theorem setChild_congr {s s' : Step} (h : s.asKey = s'.asKey) (t value : Tree ε) :
    t.setChild s value = t.setChild s' value := by
  cases t with
  | arr items => simp only [setChild, setItem, Step.asIndex?_eq, h]
  | _ => simp only [setChild, h]

theorem setOr_congr {c d : Cursor} (h : c.keys = d.keys) (missing : CursorError)
    (t value : Tree ε) : t.setOr missing c value = t.setOr missing d value := by
  induction c generalizing d t with
  | nil => rw [List.map_eq_nil_iff.1 h.symm]
  | cons s rest ih =>
    obtain ⟨s', rest', rfl, hs, hrest⟩ := List.map_eq_cons_iff.1 h.symm
    cases rest with
    | nil =>
      obtain rfl : rest' = [] := List.map_eq_nil_iff.1 hrest
      exact setChild_congr hs.symm t value
    | cons next rest =>
      obtain ⟨next', rest', rfl, -⟩ := List.map_eq_cons_iff.1 hrest
      simp only [setOr, child?_congr hs, setChild_congr hs, ih hrest.symm]

end Tree

theorem Pointer.format_congr {c d : Cursor} (h : c.keys = d.keys) : format c = format d := by
  have hkeys (c : Cursor) : format c = String.join (c.keys.map fun key => "/" ++ escape key) := by
    simp [format, Cursor.keys, Function.comp_def]
  rw [hkeys, hkeys, h]

theorem Cursor.same_of_keys {c d : Cursor} (h : c.keys = d.keys) : c.Same d := by
  intro ε _ t value
  have hparent : keys c.dropLast = keys d.dropLast := by
    simpa [keys, List.map_dropLast] using congrArg List.dropLast h
  refine ⟨Tree.get?_congr h t, ?_⟩
  rw [Tree.set, Tree.set, Pointer.format_congr hparent, Tree.setOr_congr h]

namespace Step

def readBack (s : Step) : Step :=
  match s.asIndex? with
  | some n => .index (UInt64.ofNat n)
  | none => .key s.asKey

theorem asKey_readBack (s : Step) : s.readBack.asKey = s.asKey := by
  unfold readBack
  split
  · rename_i n hindex
    obtain ⟨hlt, hkey⟩ := asIndex?_eq_some.1 hindex
    rw [hkey, asKey, UInt64.toNat_ofNat_of_lt' hlt]
  · rfl

theorem readBack_spec (s : Step) : s.ReadBack s.readBack := by
  cases s with
  | index i => simpa [readBack, asIndex?] using ReadBack.index i
  | key k =>
    unfold readBack
    split
    · rename_i n hindex
      obtain ⟨hlt, rfl⟩ := indexOfText?_eq_some.1 hindex
      have hn : (UInt64.ofNat n).toNat = n := UInt64.toNat_ofNat_of_lt' hlt
      simpa [hn] using ReadBack.spelled (UInt64.ofNat n)
    · rename_i hindex
      refine .key fun i hk => ?_
      have hsome : indexOfText? k = some i.toNat := indexOfText?_eq_some.2 ⟨i.toNat_lt_size, hk⟩
      simp [asIndex?, hsome] at hindex

end Step

theorem Cursor.keys_readBack (c : Cursor) : keys (c.map Step.readBack) = c.keys := by
  simp [keys, Step.asKey_readBack]

namespace Pointer

def joined (components : List (List Char)) : List Char := components.flatMap ('/' :: ·)

theorem joined_eq {components : List (List Char)} (h : components ≠ []) :
    joined components = '/' :: ['/'].intercalate components := by
  induction components with
  | nil => exact absurd rfl h
  | cons component rest ih =>
    cases rest with
    | nil => simp [joined]
    | cons next rest =>
      have hrest := ih (List.cons_ne_nil _ _)
      rw [joined, List.flatMap_cons, ← joined, hrest, List.intercalate_cons_cons]
      simp

theorem head?_joined (components : List (List Char)) {c : Char} (h : c ≠ '/') :
    (joined components).head? ≠ some c := by
  cases components <;> simp [joined, h.symm]

theorem slash_not_mem_of_mem_splitOn {text component : List Char}
    (h : component ∈ text.splitOn '/') : '/' ∉ component := by
  induction text generalizing component with
  | nil => simp_all
  | cons c rest ih =>
    rw [List.splitOn_cons_eq_if_modifyHead] at h
    split at h
    · rcases List.mem_cons.1 h with rfl | h
      · exact List.not_mem_nil
      · exact ih h
    · rename_i hc
      obtain ⟨first, others, hrest⟩ := List.exists_cons_of_ne_nil (List.splitOn_ne_nil '/' rest)
      rw [hrest] at ih h
      rcases List.mem_cons.1 h with rfl | h
      · have hslash : c ≠ '/' := by simpa using hc
        simp [hslash.symm, ih List.mem_cons_self]
      · exact ih (List.mem_cons_of_mem _ h)

theorem toList_format (c : Cursor) :
    (format c).toList = joined (c.map fun s => encode s.asKey.toList) := by
  rw [format, String.toList_join, joined, List.flatMap_map, List.flatMap_map]
  exact List.flatMap_congr fun s _ => by simp [toList_escape]

/-- A pointer is empty or starts with a slash, and has one component after each of its slashes. -/
theorem exists_joined {p : String} (h : p = "" ∨ p.toList.head? = some '/') :
    ∃ components, p.toList = joined components ∧ ∀ component ∈ components, '/' ∉ component := by
  rcases h with rfl | h
  · exact ⟨[], String.toList_empty, nofun⟩
  · obtain ⟨rest, hrest⟩ := List.head?_eq_some_iff.1 h
    refine ⟨rest.splitOn '/', ?_, fun _ => slash_not_mem_of_mem_splitOn⟩
    rw [joined_eq (List.splitOn_ne_nil '/' rest), List.intercalate_splitOn, hrest]

theorem parse_joined {p : String} {components : List (List Char)}
    (hp : p.toList = joined components) (slash : ∀ component ∈ components, '/' ∉ component) :
    parse p = .ok (components.map parseComponent) := by
  unfold parse
  rw [hp]
  cases components with
  | nil => rfl
  | cons component rest =>
    rw [joined_eq (List.cons_ne_nil _ _)]
    change Except.ok (((['/'].intercalate (component :: rest)).splitOn '/').map parseComponent) = _
    rw [List.splitOn_intercalate '/' slash (List.cons_ne_nil _ _)]

theorem parse_eq_error {p : String} {error : CursorError} :
    parse p = .error error ↔ error = .notAbsolute ∧ p ≠ "" ∧ p.toList.head? ≠ some '/' := by
  unfold parse
  split
  · rename_i hp
    simp [String.toList_eq_nil_iff.1 hp]
  · rename_i rest hp
    simp [hp]
  · rename_i hnil hslash
    have hempty : p ≠ "" := by
      rintro rfl
      exact hnil String.toList_empty
    have hhead : p.toList.head? ≠ some '/' :=
      mt List.head?_eq_some_iff.1 (not_exists.2 hslash)
    simp [hempty, hhead, eq_comm]

/-- A component spells an index if the key that it is written for does. -/
theorem indexOfText?_encode (k : String) :
    Step.indexOfText? (String.ofList (encode k.toList)) = Step.indexOfText? k := by
  refine Option.ext fun n => ?_
  have hkey : String.ofList (encode k.toList) = toString n ↔ k = toString n := by
    rw [← String.toList_inj, ← String.toList_inj, String.toList_ofList, ← encode_decimal n,
      encode_injective.eq_iff, encode_decimal n]
  rw [Step.indexOfText?_eq_some, Step.indexOfText?_eq_some, hkey]

theorem parseComponent_encode (s : Step) : parseComponent (encode s.asKey.toList) = s.readBack := by
  have hkey : String.ofList (unescapeChars (encode s.asKey.toList)) = s.asKey := by
    rw [unescapeChars_eq_decode, decode_encode, String.ofList_toList]
  cases hindex : Step.indexOfText? s.asKey <;>
    simp [parseComponent, Step.readBack, indexOfText?_encode, Step.asIndex?_eq, hindex, hkey]

theorem parse_format (c : Cursor) : parse (format c) = .ok (c.map Step.readBack) := by
  rw [parse_joined (toList_format c), List.map_map]
  · simp only [Function.comp_def, parseComponent_encode]
  · simpa using fun (s : Step) _ => slash_not_mem_encode s.asKey.toList

/-- Pointers tell cursors apart by their keys. -/
theorem format_eq_iff {c d : Cursor} : format c = format d ↔ c.keys = d.keys := by
  refine ⟨fun h => ?_, format_congr⟩
  have hread : c.map Step.readBack = d.map Step.readBack := by
    simpa [parse_format] using congrArg parse h
  simpa only [Cursor.keys_readBack] using congrArg Cursor.keys hread

theorem encode_parseComponent {component : List Char} (h : Escaped component)
    (slash : '/' ∉ component) :
    encode (parseComponent component).asKey.toList = component := by
  unfold parseComponent
  split
  · rename_i n hindex
    obtain ⟨hlt, hdecimal⟩ := Step.indexOfText?_eq_some.1 hindex
    rw [Step.asKey, UInt64.toNat_ofNat_of_lt' hlt, encode_decimal, ← hdecimal, String.toList_ofList]
  · rw [Step.asKey, String.toList_ofList, unescapeChars_eq_decode, encode_decode h slash]

theorem escaped_joined {components : List (List Char)} :
    Escaped (joined components) ↔ ∀ component ∈ components, Escaped component := by
  induction components with
  | nil => simpa [joined] using escaped_nil
  | cons component rest ih =>
    have happend : Escaped (component ++ joined rest) ↔ Escaped component ∧ Escaped (joined rest) :=
      ⟨fun h => ⟨h.left (head?_joined rest (by decide)) (head?_joined rest (by decide)), h.right⟩,
        fun h => h.1.append h.2⟩
    rw [joined, List.flatMap_cons, ← joined, List.cons_append, escaped_cons, happend, ih]
    simp

/-- A pointer is written for the cursor that it stands for, unless one of its tildes starts no
escape. -/
theorem format_eq_of_parse {p : String} {c : Cursor} (h : parse p = .ok c) :
    format c = p ↔ Escaped p.toList := by
  have habsolute : p = "" ∨ p.toList.head? = some '/' := by
    by_contra hnot
    have herror := parse_eq_error.2 ⟨rfl, not_or.1 hnot⟩
    rw [h] at herror
    cases herror
  obtain ⟨components, hp, slash⟩ := exists_joined habsolute
  obtain rfl : components.map parseComponent = c :=
    Except.ok.inj ((parse_joined hp slash).symm.trans h)
  constructor
  · rintro rfl
    rw [toList_format, escaped_joined]
    simpa using fun component _ => escaped_encode (parseComponent component).asKey.toList
  · intro hescaped
    rw [hp, escaped_joined] at hescaped
    have hwritten : components.map (fun component =>
        encode (parseComponent component).asKey.toList) = components :=
      (List.map_congr_left fun component hmem =>
        encode_parseComponent (hescaped component hmem) (slash component hmem)).trans
          (List.map_id' components)
    rw [← String.toList_inj, toList_format, List.map_map, hp]
    exact congrArg joined hwritten

/-- Reading back what is written for a cursor gives the same cursor up to the spelling of indexes,
and writing what was read gives the pointer back if every tilde in it starts an escape. -/
theorem parse_format_exact :
    (∀ c : Cursor, ∃ d, parse (format c) = .ok d ∧ List.Forall₂ Step.ReadBack c d ∧ d.Same c) ∧
    (∀ c d : Cursor, format c = format d ↔ c.keys = d.keys) ∧
    (∀ (p : String) (error : CursorError), parse p = .error error ↔
      error = .notAbsolute ∧ p ≠ "" ∧ p.toList.head? ≠ some '/') ∧
    ∀ (p : String) (c : Cursor), parse p = .ok c → (format c = p ↔ Escaped p.toList) := by
  refine ⟨fun c => ⟨c.map Step.readBack, parse_format c, ?_, ?_⟩, fun _ _ => format_eq_iff,
    fun _ _ => parse_eq_error, fun _ _ => format_eq_of_parse⟩
  · rw [List.forall₂_map_right_iff, List.forall₂_same]
    exact fun s _ => s.readBack_spec
  · exact Cursor.same_of_keys c.keys_readBack

end Pointer

end FixtureBench
