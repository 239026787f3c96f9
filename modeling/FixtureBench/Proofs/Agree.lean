import FixtureBench.Keyed
import Mathlib.Data.List.Forall2
import Mathlib.Data.List.Perm.Subperm

/-!
# Lists and maps with related members

Two maps agree if they have the same keys, in any order, with related values. The comparisons of
the library count the members of both maps and look for each member of the first in the second
one. As long as the first repeats no key, that decides whether the maps agree. Lists are compared
item by item. The laws are stated for relations that need hold of the members only, as it is in an
induction over documents or types.
-/

namespace FixtureBench

universe u

section Lists

variable {α β γ : Type u} {R : α → β → Prop} {S : β → γ → Prop} {T : α → γ → Prop}
  {xs : List α} {ys : List β} {zs : List γ}

theorem forall₂_imp {R' : α → β → Prop} (h : List.Forall₂ R xs ys)
    (weaker : ∀ a ∈ xs, ∀ b ∈ ys, R a b → R' a b) : List.Forall₂ R' xs ys := by
  induction h with
  | nil => exact .nil
  | cons first rest ih =>
    exact .cons (weaker _ List.mem_cons_self _ List.mem_cons_self first)
      (ih fun a ha b hb => weaker a (List.mem_cons_of_mem _ ha) b (List.mem_cons_of_mem _ hb))

theorem forall₂_symm {R' : β → α → Prop} (h : List.Forall₂ R xs ys)
    (sym : ∀ a ∈ xs, ∀ b ∈ ys, R a b → R' b a) : List.Forall₂ R' ys xs :=
  (forall₂_imp h sym).flip

theorem forall₂_trans (h : List.Forall₂ R xs ys) (h' : List.Forall₂ S ys zs)
    (comp : ∀ a ∈ xs, ∀ b ∈ ys, ∀ c ∈ zs, R a b → S b c → T a c) : List.Forall₂ T xs zs := by
  induction h generalizing zs with
  | nil =>
    cases h'
    exact .nil
  | cons first rest ih =>
    cases h' with
    | cons first' rest' =>
      exact .cons
        (comp _ List.mem_cons_self _ List.mem_cons_self _ List.mem_cons_self first first')
        (ih rest' fun a ha b hb c hc => comp a (List.mem_cons_of_mem _ ha) b
          (List.mem_cons_of_mem _ hb) c (List.mem_cons_of_mem _ hc))

theorem exists_mem_of_forall₂ {a : α} (h : List.Forall₂ R xs ys) (ha : a ∈ xs) :
    ∃ b ∈ ys, R a b := by
  induction h with
  | nil => cases ha
  | cons first rest ih =>
    rcases List.mem_cons.1 ha with rfl | ha
    · exact ⟨_, List.mem_cons_self, first⟩
    · obtain ⟨b, hb, hab⟩ := ih ha
      exact ⟨b, List.mem_cons_of_mem _ hb, hab⟩

theorem eq_map_of_forall₂ {f : α → β} (h : List.Forall₂ R xs ys)
    (image : ∀ a ∈ xs, ∀ b, R a b → b = f a) : ys = xs.map f := by
  induction h with
  | nil => rfl
  | cons first rest ih =>
    rw [List.map_cons, ← image _ List.mem_cons_self _ first,
      ← ih fun a ha => image a (List.mem_cons_of_mem _ ha)]

theorem any_eq_of_forall₂ {test : α → Bool} {test' : β → Bool} (h : List.Forall₂ R xs ys)
    (same : ∀ a ∈ xs, ∀ b ∈ ys, R a b → test a = test' b) : xs.any test = ys.any test' := by
  induction h with
  | nil => rfl
  | cons first rest ih =>
    have hrest := ih fun a ha b hb =>
      same a (List.mem_cons_of_mem _ ha) b (List.mem_cons_of_mem _ hb)
    rw [List.any_cons, List.any_cons, hrest, same _ List.mem_cons_self _ List.mem_cons_self first]

theorem beq_list_iff [BEq α] {xs ys : List α} :
    (xs == ys) = true ↔ List.Forall₂ (fun a b => (a == b) = true) xs ys := by
  induction xs generalizing ys with
  | nil => cases ys <;> simp
  | cons a rest ih => cases ys <;> simp [ih]

end Lists

namespace Keyed

variable {α β γ : Type u} {m : Keyed α} {n : Keyed β} {p : Keyed γ}

theorem mem_keys_of_get? {key : String} {a : α} (h : m.get? key = some a) : key ∈ m.keys :=
  exists_get?_iff.1 ⟨a, h⟩

theorem mem_values_of_get? {key : String} {a : α} (h : m.get? key = some a) : a ∈ m.values :=
  List.mem_map_of_mem (mem_entries_of_get? h)

theorem eq_of_keys_of_values {n : Keyed α} (keys : m.keys = n.keys)
    (values : m.values = n.values) : m = n := by
  have hzip : m.entries = n.keys.zip n.values := List.zip_of_prod keys values
  obtain ⟨others⟩ := n
  exact congrArg Keyed.mk (hzip.trans (List.zip_of_prod rfl rfl).symm)

theorem get?_mapEntries (f : String → α → β) (m : Keyed α) (key : String) :
    (Keyed.mk (m.entries.map fun e => (e.1, f e.1 e.2))).get? key = (m.get? key).map (f key) := by
  obtain ⟨entries⟩ := m
  induction entries with
  | nil => rfl
  | cons e rest ih =>
    obtain ⟨k, a⟩ := e
    simp only [get?, List.map_cons, lookup_cons_ite] at ih ⊢
    by_cases h : key = k
    · simp [h]
    · simpa [h] using ih

theorem Distinct.mapEntries (h : m.Distinct) (f : String → α → β) :
    (Keyed.mk (m.entries.map fun e => (e.1, f e.1 e.2))).Distinct := by
  simpa [Distinct, Keyed.keys, Function.comp_def] using h

/-- The same keys in any order, with related values. -/
structure Agree (R : α → β → Prop) (m : Keyed α) (n : Keyed β) : Prop where
  keys : m.keys.Perm n.keys
  members : ∀ {key : String} {a : α} {b : β}, m.get? key = some a → n.get? key = some b → R a b

namespace Agree

variable {R : α → β → Prop} {S : β → γ → Prop} {T : α → γ → Prop}

theorem get? (h : Agree R m n) {key : String} {a : α} (ha : m.get? key = some a) :
    ∃ b, n.get? key = some b ∧ R a b := by
  obtain ⟨b, hb⟩ := exists_get?_iff.2 (h.keys.mem_iff.1 (mem_keys_of_get? ha))
  exact ⟨b, hb, h.members ha hb⟩

theorem refl {R : α → α → Prop} (h : ∀ a ∈ m.values, R a a) : Agree R m m := by
  refine ⟨.refl _, fun {key a b} ha hb => ?_⟩
  obtain rfl := Option.some.inj (ha.symm.trans hb)
  exact h a (mem_values_of_get? ha)

theorem of_perm {R : α → α → Prop} {m n : Keyed α} (hn : n.Distinct)
    (hperm : m.entries.Perm n.entries) (h : ∀ a ∈ m.values, R a a) : Agree R m n := by
  refine ⟨hperm.map _, fun {key a b} ha hb => ?_⟩
  have ha' : n.get? key = some a := hn.get?_of_mem (hperm.mem_iff.1 (mem_entries_of_get? ha))
  obtain rfl := Option.some.inj (ha'.symm.trans hb)
  exact h a (mem_values_of_get? ha)

theorem imp {R' : α → β → Prop} (h : Agree R m n)
    (weaker : ∀ a ∈ m.values, ∀ b ∈ n.values, R a b → R' a b) : Agree R' m n :=
  ⟨h.keys, fun ha hb =>
    weaker _ (mem_values_of_get? ha) _ (mem_values_of_get? hb) (h.members ha hb)⟩

theorem symm {R' : β → α → Prop} (h : Agree R m n)
    (sym : ∀ a ∈ m.values, ∀ b ∈ n.values, R a b → R' b a) : Agree R' n m :=
  ⟨h.keys.symm, fun hb ha =>
    sym _ (mem_values_of_get? ha) _ (mem_values_of_get? hb) (h.members ha hb)⟩

theorem trans (h : Agree R m n) (h' : Agree S n p)
    (comp : ∀ a ∈ m.values, ∀ b ∈ n.values, ∀ c ∈ p.values, R a b → S b c → T a c) :
    Agree T m p := by
  refine ⟨h.keys.trans h'.keys, fun ha hc => ?_⟩
  obtain ⟨b, hb, hab⟩ := h.get? ha
  exact comp _ (mem_values_of_get? ha) b (mem_values_of_get? hb) _ (mem_values_of_get? hc) hab
    (h'.members hb hc)

/-- Agreeing maps still agree when their values are converted, each by its key. -/
theorem mapEntries {δ ε : Type u} {R' : δ → ε → Prop} {f : String → α → δ}
    {g : String → β → ε} (h : Agree R m n)
    (conv : ∀ key, ∀ a ∈ m.values, ∀ b ∈ n.values, R a b → R' (f key a) (g key b)) :
    Agree R' ⟨m.entries.map fun e => (e.1, f e.1 e.2)⟩
      ⟨n.entries.map fun e => (e.1, g e.1 e.2)⟩ := by
  refine ⟨?_, fun {key d e} hd he => ?_⟩
  · simpa [Keyed.keys, Function.comp_def] using h.keys
  · rw [get?_mapEntries, Option.map_eq_some_iff] at hd he
    obtain ⟨a, ha, rfl⟩ := hd
    obtain ⟨b, hb, rfl⟩ := he
    exact conv key a (mem_values_of_get? ha) b (mem_values_of_get? hb) (h.members ha hb)

theorem all_entries (h : Agree R m n) (hm : m.Distinct) (hn : n.Distinct)
    {test : String → α → Bool} {test' : String → β → Bool}
    (same : ∀ key, ∀ a ∈ m.values, ∀ b ∈ n.values, R a b → test key a = test' key b) :
    (m.entries.all fun e => test e.1 e.2) = n.entries.all fun e => test' e.1 e.2 := by
  rw [Bool.eq_iff_iff, List.all_eq_true, List.all_eq_true]
  constructor
  · intro hall e he
    have hb := hn.get?_of_mem he
    obtain ⟨a, ha⟩ := exists_get?_iff.2 (h.keys.mem_iff.2 (mem_keys_of_get? hb))
    rw [← same e.1 a (mem_values_of_get? ha) e.2 (mem_values_of_get? hb) (h.members ha hb)]
    exact hall _ (mem_entries_of_get? ha)
  · intro hall e he
    have ha := hm.get?_of_mem he
    obtain ⟨b, hb, hab⟩ := h.get? ha
    rw [same e.1 e.2 (mem_values_of_get? ha) b (mem_values_of_get? hb) hab]
    exact hall _ (mem_entries_of_get? hb)

end Agree

/-- Counting the members and finding each of them in the other map decides whether maps agree. -/
theorem agree_iff {R : α → β → Prop} (distinct : m.Distinct) :
    Agree R m n ↔
      m.size = n.size ∧ ∀ e ∈ m.entries, ∃ b, n.get? e.1 = some b ∧ R e.2 b := by
  rw [size_eq_length_keys, size_eq_length_keys]
  constructor
  · intro h
    exact ⟨h.keys.length_eq, fun e he => h.get? (distinct.get?_of_mem he)⟩
  · rintro ⟨hlength, hfound⟩
    have hsub : m.keys ⊆ n.keys := by
      intro key hkey
      obtain ⟨e, he, rfl⟩ := List.mem_map.1 hkey
      obtain ⟨b, hb, -⟩ := hfound e he
      exact mem_keys_of_get? hb
    -- Different keys that are all found leave no room for others.
    have hperm : m.keys.Perm n.keys :=
      (List.subperm_of_subset distinct hsub).perm_of_length_le (Nat.le_of_eq hlength.symm)
    refine ⟨hperm, fun ha hb => ?_⟩
    obtain ⟨b', hb', hab⟩ := hfound _ (mem_entries_of_get? ha)
    rwa [Option.some.inj (hb.symm.trans hb')]

end Keyed

end FixtureBench
