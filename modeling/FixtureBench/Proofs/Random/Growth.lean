import FixtureBench.Random.Growth

/-!
# The root of a random document

A document grows below its root: whatever is inserted, the root stays the array or object that it
was at the start.
-/

namespace FixtureBench

/-- The container that a document is, if it is one. -/
def Tree.root? {ε : Type} : Tree ε → Option RootNode
  | .arr _ => some .array
  | .obj _ => some .object
  | _ => none

namespace Slot

theorem root?_putChild (slot : Slot) (container child : Json) :
    (slot.putChild container child).root? = container.root? := by
  cases slot with
  | item i => cases container <;> rfl
  | member key => cases container <;> rfl

theorem root?_replaceAt {path : List Slot} {doc old new : Json} (h : nodeAt? path doc = some old)
    (same : new.root? = old.root?) : (replaceAt path doc new).root? = doc.root? := by
  cases path with
  | nil =>
    cases h
    exact same
  | cons slot rest =>
    rw [replaceAt]
    cases slot.child? doc with
    | none => rfl
    | some child => exact root?_putChild slot doc _

end Slot

namespace Growth

theorem root?_insert (g : Growth) (path : List Slot) (key : String) (roll : Nat)
    (isContainer : Bool) (node : Json) :
    (g.insert path key roll isContainer node).doc.root? = g.doc.root? := by
  rw [insert]
  cases h : Slot.nodeAt? path g.doc with
  | none => rfl
  | some container =>
    cases container with
    | arr items => exact Slot.root?_replaceAt h rfl
    | obj members => exact Slot.root?_replaceAt h rfl
    | _ => rfl

/-- What one node preserves. -/
theorem root?_addNode {o : GrowthOptions} {g g' : Growth} (h : (g.addNode o).CanYield g') :
    g'.doc.root? = g.doc.root? := by
  simp only [addNode, Draw.canYield_bind, Draw.canYield_pure] at h
  obtain ⟨i, -, type, -, node, -, key, -, roll, -, rfl⟩ := h
  exact g.root?_insert _ _ _ _ _

theorem root?_addNodes {o : GrowthOptions} {count : Nat} {g g' : Growth}
    (h : (addNodes o count g).CanYield g') : g'.doc.root? = g.doc.root? := by
  induction count generalizing g with
  | zero => rw [Draw.canYield_pure.1 h]
  | succ count ih =>
    rw [addNodes, Draw.canYield_bind] at h
    obtain ⟨next, hnext, hrest⟩ := h
    rw [ih hrest, root?_addNode hnext]

theorem root?_draw {o : GrowthOptions} {doc : Json} (h : (draw o).CanYield doc) :
    doc.root? = some o.root := by
  rw [draw, Draw.canYield_bind] at h
  obtain ⟨g, hg, hdoc⟩ := h
  rw [Draw.canYield_pure.1 hdoc, root?_addNodes hg]
  cases o.root <;> rfl

end Growth

end FixtureBench
