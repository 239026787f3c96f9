import FixtureBench.Proofs.Equality
import FixtureBench.Proofs.PropValue

/-!
# Writing values as plain documents

A prop value written as a plain document and read again is the value with null in place of each
callback and each instance. `Tree.Voided` says so of any two trees without converting anything. A
plain document survives both ways, so a second conversion changes nothing more, and a value
survives if no callback and no instance occurs in it, at any depth.
-/

namespace FixtureBench

namespace Tree

variable {ε δ : Type} {e : ε} {t : Tree ε}

/-- The same tree with null for every leaf. Members keep their keys and their order. -/
inductive Voided : Tree ε → Tree δ → Prop where
  | null : Voided .null .null
  | bool (b : Bool) : Voided (.bool b) (.bool b)
  | num (n : Number) : Voided (.num n) (.num n)
  | str (s : String) : Voided (.str s) (.str s)
  | arr {items : List (Tree ε)} {others : List (Tree δ)} (h : List.Forall₂ Voided items others) :
      Voided (.arr items) (.arr others)
  | obj {members : Keyed (Tree ε)} {others : Keyed (Tree δ)} (keys : members.keys = others.keys)
      (values : List.Forall₂ Voided members.values others.values) :
      Voided (.obj members) (.obj others)
  | leaf (e : ε) : Voided (.leaf e) .null

/-- The leaf occurs in the tree, at any depth. -/
inductive Holds (e : ε) : Tree ε → Prop where
  | leaf : Holds e (.leaf e)
  | item {items : List (Tree ε)} {t : Tree ε} (mem : t ∈ items) (h : Holds e t) :
      Holds e (.arr items)
  | member {members : Keyed (Tree ε)} {t : Tree ε} (mem : t ∈ members.values) (h : Holds e t) :
      Holds e (.obj members)

theorem voided_subst (t : Tree ε) : t.Voided (t.subst fun _ => (.null : Tree δ)) := by
  induction t with
  | arr items ih =>
    rw [subst_arr]
    exact .arr (List.forall₂_map_right_iff.2 (List.forall₂_same.2 ih))
  | obj members ih =>
    rw [subst_obj]
    apply Voided.obj
    · exact (Keyed.keys_map _ members).symm
    · rw [Keyed.values_map, List.forall₂_map_right_iff, List.forall₂_same]
      exact List.forall_mem_map.2 ih
  | _ => constructor

theorem Voided.eq_subst {u : Tree δ} (h : t.Voided u) : u = t.subst fun _ => .null := by
  induction t generalizing u with
  | arr items ih =>
    cases h with
    | arr h => rw [subst_arr, eq_map_of_forall₂ h fun t ht u => ih t ht]
  | obj members ih =>
    cases h with
    | obj keys values =>
      have hvalues := eq_map_of_forall₂ values (List.forall_mem_map.2 fun e he u => ih e he)
      rw [subst_obj, Tree.obj.injEq]
      apply Keyed.eq_of_keys_of_values
      · rw [Keyed.keys_map, keys]
      · rw [Keyed.values_map, hvalues]
  | _ =>
    cases h
    rfl

/-- There is one way to put null for every leaf. -/
theorem voided_iff {u : Tree δ} : t.Voided u ↔ u = t.subst fun _ => .null := by
  constructor
  · exact Voided.eq_subst
  · rintro rfl
    exact t.voided_subst

/-- Null in place of its leaves leaves a tree without leaves as it is. -/
theorem voided_self (h : ∀ e, ¬ t.Holds e) : t.Voided t := by
  induction t with
  | arr items ih =>
    apply Voided.arr
    rw [List.forall₂_same]
    exact fun t ht => ih t ht fun e he => h e (.item ht he)
  | obj members ih =>
    apply Voided.obj rfl
    rw [List.forall₂_same, Keyed.values, List.forall_mem_map]
    intro entry hentry
    exact ih entry hentry fun e he => h e (.member (List.mem_map_of_mem hentry) he)
  | leaf e => exact absurd .leaf (h e)
  | _ => constructor

theorem Voided.not_holds {u : Tree δ} {e : δ} (h : t.Voided u) : ¬ u.Holds e := by
  intro he
  induction he generalizing t with
  | leaf => cases h
  | item mem _ ih =>
    cases h with
    | arr h =>
      obtain ⟨t, -, ht⟩ := exists_mem_of_forall₂ h.flip mem
      exact ih ht
  | member mem _ ih =>
    cases h with
    | obj keys values =>
      obtain ⟨t, -, ht⟩ := exists_mem_of_forall₂ values.flip mem
      exact ih ht

theorem SameBy.holds {numbers : Number → Number → Prop} {u : Tree ε} (h : t.SameBy numbers u)
    (wellFormed : t.WellFormed) (he : t.Holds e) : u.Holds e := by
  induction he generalizing u with
  | leaf =>
    cases h
    exact .leaf
  | item mem _ ih =>
    cases h with
    | arr h =>
      obtain ⟨u, hu, hsame⟩ := exists_mem_of_forall₂ h mem
      exact .item hu (ih hsame (wellFormed_arr.1 wellFormed _ mem))
  | member mem _ ih =>
    cases h with
    | obj keys parts =>
      obtain ⟨distinct, hparts⟩ := wellFormed_obj.1 wellFormed
      obtain ⟨entry, hentry, rfl⟩ := List.mem_map.1 mem
      obtain ⟨u, hu, hsame⟩ := (agree (.obj keys parts)).get? (distinct.get?_of_mem hentry)
      exact .member (Keyed.mem_values_of_get? hu) (ih hsame (hparts entry hentry))

theorem WellFormed.subst {f : ε → Tree δ} (h : t.WellFormed) (image : ∀ e, (f e).WellFormed) :
    (t.subst f).WellFormed := by
  induction t with
  | arr items ih =>
    rw [wellFormed_arr] at h
    rw [subst_arr, wellFormed_arr, List.forall_mem_map]
    exact fun t ht => ih t ht (h t ht)
  | obj members ih =>
    obtain ⟨distinct, hparts⟩ := wellFormed_obj.1 h
    rw [subst_obj, wellFormed_obj, Keyed.map, List.forall_mem_map]
    exact ⟨distinct.map _, fun entry hentry => ih entry hentry (hparts entry hentry)⟩
  | leaf e => exact image e
  | _ => trivial

end Tree

namespace PropValue

variable {v : PropValue}

theorem ofJson_toJson_eq_self_iff : ofJson v.toJson = v ↔ ∀ handle, ¬ v.Holds handle := by
  rw [ofJson_toJson, plain]
  constructor
  · intro heq handle hholds
    have hvoided : v.Voided v := Tree.voided_iff.2 heq.symm
    exact hvoided.not_holds hholds
  · intro h
    exact (Tree.voided_self h).eq_subst.symm

theorem ofJson_toJson_beq_self_iff (wellFormed : v.WellFormed) :
    (ofJson v.toJson == v) = true ↔ ∀ handle, ¬ v.Holds handle := by
  constructor
  · intro heq handle hholds
    have hplain : (ofJson v.toJson).WellFormed := by
      rw [ofJson_toJson]
      exact wellFormed.subst fun _ => trivial
    have hsame := (Tree.eqBy_iff hplain).1 heq
    have hback := (hsame.symm fun _ _ => Number.beq_equivalence.symm).holds wellFormed hholds
    rw [ofJson_toJson] at hback
    exact v.voided_subst.not_holds hback
  · intro h
    rw [ofJson_toJson_eq_self_iff.2 h]
    exact Tree.beq_self wellFormed

/-- Writing and reading is a projection of the values onto those that hold no callback and no
instance. -/
theorem json_projection :
    (∀ j : Json, (ofJson j).toJson = j) ∧
      ∀ v : PropValue,
        (∀ w, v.Voided w ↔ w = ofJson v.toJson) ∧
        (ofJson v.toJson = v ↔ ∀ handle, ¬ v.Holds handle) ∧
        (v.WellFormed → ((ofJson v.toJson == v) = true ↔ ∀ handle, ¬ v.Holds handle)) ∧
        ofJson (ofJson v.toJson).toJson = ofJson v.toJson := by
  refine ⟨toJson_ofJson, fun v => ⟨fun w => ?_, ?_, ?_, ?_⟩⟩
  · rw [ofJson_toJson]
    exact Tree.voided_iff
  · exact ofJson_toJson_eq_self_iff
  · exact ofJson_toJson_beq_self_iff
  · rw [toJson_ofJson]

/-- The props of a button: plain data, and a callback and an instance at two depths. -/
def button : PropValue :=
  .obj ⟨[("label", .str "Save"), ("onClick", func .noop),
    ("rows", .arr [.null, inst ⟨"row", "Row"⟩])]⟩

theorem wellFormed_button : button.WellFormed := by
  rw [button, Tree.wellFormed_obj]
  refine ⟨by decide, ?_⟩
  simp [func, inst, Tree.WellFormed, Tree.WellFormedItems]

theorem json_projection_button :
    button.WellFormed ∧
      ((ofJson button.toJson == button) = true ↔ ∀ handle, ¬ button.Holds handle) :=
  ⟨wellFormed_button, (json_projection.2 button).2.2.1 wellFormed_button⟩

end PropValue

end FixtureBench
