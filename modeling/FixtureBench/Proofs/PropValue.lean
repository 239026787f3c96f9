import FixtureBench.PropValue

/-!
# Prop values and plain documents

A plain document read as a prop value is written as the same document. A prop value that is written
and read again has null for every callback and every instance, and is otherwise as it was.
-/

namespace FixtureBench

namespace Tree

variable {ε δ γ : Type}

theorem subst_subst (f : ε → Tree δ) (g : δ → Tree γ) (t : Tree ε) :
    (t.subst f).subst g = t.subst fun e => (f e).subst g := by
  induction t with
  | arr items ih => simpa using ih
  | obj members ih =>
    rw [subst_obj, subst_obj, subst_obj, Keyed.map_map]
    exact congrArg obj (Keyed.map_congr (List.forall_mem_map.2 ih))
  | _ => simp [subst]

theorem subst_leaf (t : Tree ε) : t.subst leaf = t := by
  induction t with
  | arr items ih => rw [subst_arr, List.map_congr_left ih, List.map_id']
  | obj members ih =>
    rw [subst_obj, Keyed.map_congr (g := id) (List.forall_mem_map.2 ih)]
    simp [Keyed.map]
  | _ => simp [subst]

end Tree

namespace PropValue

@[simp] theorem toJson_arr (items : List PropValue) :
    toJson (.arr items) = .arr (items.map toJson) := Tree.subst_arr _ items

@[simp] theorem toJson_obj (members : Keyed PropValue) :
    toJson (.obj members) = .obj (members.map toJson) := Tree.subst_obj _ members

@[simp] theorem toJson_ofJson (t : Json) : (ofJson t).toJson = t := by
  rw [toJson, ofJson, Tree.subst_subst]
  refine Eq.trans (congrArg (Tree.subst · t) ?_) t.subst_leaf
  funext e
  cases e

def plain (v : PropValue) : PropValue := v.subst fun _ => .null

@[simp] theorem ofJson_toJson (v : PropValue) : ofJson v.toJson = v.plain :=
  Tree.subst_subst _ _ v

end PropValue

end FixtureBench
