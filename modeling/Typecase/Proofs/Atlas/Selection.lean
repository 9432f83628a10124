import Typecase.Atlas.Group

/-!
# Choosing a group twice

What `GlyphGroups.select` does to a request, and what it does to the same request again once the
group chosen has been marked with the text.

* **The first sealed group** with the whole text is chosen whenever there is one
  (`select_of_sealed`). Otherwise the choice is between the last group and a new one
  (`select_of_sealedWith?_eq_none`).
* **Spurning.** A last group that has the whole text need not be chosen: when it has reached the
  ceiling, or its texture answers that it has no room for zero more glyphs, a new group is opened
  although nothing is missing. `Spurns` says that this is what happens to a request.
* **The second choice** is the first one, unless the request was spurned before or is spurned
  after it (`Marked.second_choice`).
-/

namespace Typecase

variable {τ : Type}

/-- At one size the keys of two characters differ. -/
theorem GlyphKey.mk_toNat_inj {c d : Char} {size : Int} :
    (⟨c.toNat, size⟩ : GlyphKey) = ⟨d.toNat, size⟩ ↔ c = d :=
  ⟨fun h => Char.toNat_inj.mp (congrArg GlyphKey.code h), fun h => h ▸ rfl⟩

namespace GlyphGroup

variable {g : GlyphGroup τ} {text : List Char} {size : Int}

@[simp] theorem texture_mark (g : GlyphGroup τ) (text : List Char) (size : Int) :
    (g.mark text size).texture = g.texture := rfl

theorem mark_append (g : GlyphGroup τ) (text text' : List Char) (size : Int) :
    g.mark (text ++ text') size = (g.mark text size).mark text' size := by
  simp [mark, List.foldl_append]

/-- Marking adds the keys of the text. -/
theorem mem_keys_mark {key : GlyphKey} : key ∈ (g.mark text size).keys ↔
    key ∈ g.keys ∨ ∃ c ∈ text, key = ⟨c.toNat, size⟩ := by
  rw [mark]
  induction text generalizing g with
  | nil => simp
  | cons c rest ih =>
    rw [List.foldl_cons]
    have := ih (g := { g with keys := g.keys.insert ⟨c.toNat, size⟩ })
    rw [this]
    simp only [List.mem_insert_iff, List.mem_cons, exists_eq_or_imp]
    rw [or_assoc, or_left_comm]

theorem missing_eq_zero_iff : g.missing text size = 0 ↔ ∀ c ∈ text, g.has c size := by
  simp [missing, List.countP_eq_zero]

/-- A group that was marked with a text has all of it. -/
theorem missing_mark (g : GlyphGroup τ) (text : List Char) (size : Int) :
    (g.mark text size).missing text size = 0 :=
  missing_eq_zero_iff.mpr fun c hc => decide_eq_true (mem_keys_mark.mpr (.inr ⟨c, hc, rfl⟩))

end GlyphGroup

namespace GlyphGroups

variable {gs gs' : GlyphGroups τ} {room room' : τ → Nat → Bool} {text : List Char} {size : Int}
  {active : GlyphGroup τ} {i : Nat}

/-! ### The first choice -/

theorem sealedWith?_eq_none_iff : gs.sealedWith? text size = none ↔
    ∀ j g, j + 1 < gs.groups.length → gs.groups[j]? = some g → g.missing text size ≠ 0 := by
  rw [sealedWith?, List.findIdx?_eq_none_iff]
  constructor
  · intro h j g hj hg
    have hmem : g ∈ gs.groups.dropLast := by
      refine List.mem_of_getElem? (i := j) ?_
      rw [List.getElem?_dropLast, if_pos (by omega), hg]
    simpa using h g hmem
  · intro h g hg
    obtain ⟨j, hj⟩ := List.mem_iff_getElem?.mp hg
    rw [List.getElem?_dropLast] at hj
    split at hj
    · simpa using h j g (by omega) hj
    · contradiction

theorem sealedWith?_eq_some_iff : gs.sealedWith? text size = some i ↔
    i + 1 < gs.groups.length ∧ (∃ g, gs.groups[i]? = some g ∧ g.missing text size = 0) ∧
      ∀ j g, j < i → gs.groups[j]? = some g → g.missing text size ≠ 0 := by
  rw [sealedWith?, List.findIdx?_eq_some_iff_getElem]
  simp only [List.length_dropLast, List.getElem_dropLast, beq_iff_eq]
  constructor
  · rintro ⟨hi, hmissing, hfirst⟩
    refine ⟨by omega, ⟨_, List.getElem?_eq_getElem (by omega), hmissing⟩, fun j g hj hg => ?_⟩
    obtain ⟨_, rfl⟩ := List.getElem?_eq_some_iff.mp hg
    exact hfirst j hj
  · rintro ⟨hi, ⟨g, hg, hmissing⟩, hfirst⟩
    obtain ⟨_, rfl⟩ := List.getElem?_eq_some_iff.mp hg
    exact ⟨by omega, hmissing, fun j hj => hfirst j _ hj (List.getElem?_eq_getElem (by omega))⟩

/-- A sealed group with the whole text serves it. -/
theorem select_of_sealed (h : gs.sealedWith? text size = some i) (room : τ → Nat → Bool) :
    (gs.select room text size).index = i ∧ (gs.select room text size).groups = gs := by
  obtain ⟨hi, -, -⟩ := sealedWith?_eq_some_iff.mp h
  rw [select]
  cases hlast : gs.groups.getLast? with
  | none =>
    rw [List.getLast?_eq_none_iff] at hlast
    simp [hlast] at hi
  | some active =>
    have hquick : gs.quickPick active room text = false := by
      rw [quickPick, beq_false_of_ne (by omega), Bool.and_false, Bool.false_and]
    simp [hquick, selectPlain, h]

/-- Without a sealed group with the whole text, the last group serves it or a new one does. A last
group with nothing missing serves it unless it must be sealed. -/
theorem select_of_sealedWith?_eq_none (hactive : gs.groups.getLast? = some active)
    (h : gs.sealedWith? text size = none) (hroom : ∀ t n, room t n = true → room t 0 = true) :
    let r := gs.select room text size
    (r.index + 1 = gs.groups.length ∧ r.groups = gs ∧
        (active.missing text size = 0 → gs.mustSeal active room 0 = false)) ∨
      (r.index = gs.groups.length ∧ r.groups = gs.extend ∧
        gs.mustSeal active room (active.missing text size) = true) := by
  have hpos : 0 < gs.groups.length := by
    refine List.length_pos_iff.mpr fun hnil => ?_
    simp [hnil] at hactive
  rw [select, hactive]
  dsimp only
  split
  · rename_i hquick
    simp only [quickPick, Bool.and_eq_true, beq_iff_eq, decide_eq_true_eq] at hquick
    obtain ⟨⟨hfits, hone⟩, hbelow⟩ := hquick
    have hzero : active.hasRoom room 0 = true := by
      rw [GlyphGroup.hasRoom] at hfits ⊢
      cases ht : active.texture with
      | none => rfl
      | some t =>
        rw [ht] at hfits
        exact hroom t _ hfits
    refine .inl ⟨hone.symm, rfl, fun _ => ?_⟩
    rw [mustSeal, hzero, decide_eq_false (by omega)]
    rfl
  · rw [selectPlain, h]
    dsimp only
    split
    · rename_i hseal
      exact .inr ⟨rfl, rfl, hseal⟩
    · rename_i hseal
      exact .inl ⟨Nat.sub_add_cancel hpos, rfl, fun hz => by simpa [hz] using hseal⟩

/-- The group chosen exists, or is opened. -/
theorem select_cases (gs : GlyphGroups τ) (room : τ → Nat → Bool) (text : List Char)
    (size : Int) : let r := gs.select room text size
    (r.index < gs.groups.length ∧ r.groups = gs) ∨
      (r.index = gs.groups.length ∧ r.groups = gs.extend) := by
  rw [select]
  cases hlast : gs.groups.getLast? with
  | none =>
    rw [List.getLast?_eq_none_iff] at hlast
    exact .inr ⟨by rw [hlast]; rfl, rfl⟩
  | some active =>
    have hpos : 0 < gs.groups.length :=
      List.length_pos_of_mem (List.mem_of_getLast? hlast)
    dsimp only
    split
    · exact .inl ⟨hpos, rfl⟩
    · rw [selectPlain]
      split
      · rename_i i hi
        have := (sealedWith?_eq_some_iff.mp hi).1
        exact .inl ⟨by dsimp only; omega, rfl⟩
      · split
        · exact .inr ⟨rfl, rfl⟩
        · exact .inl ⟨Nat.sub_one_lt (Nat.ne_of_gt hpos), rfl⟩

/-! ### The second choice -/

/-- A new group is opened for a text although the last group has all of it: no sealed group has
it, and the last group is at the ceiling or its texture has no room for zero more glyphs. -/
def Spurns (gs : GlyphGroups τ) (room : τ → Nat → Bool) (text : List Char) (size : Int) : Prop :=
  ∃ active, gs.groups.getLast? = some active ∧ active.missing text size = 0 ∧
    gs.sealedWith? text size = none ∧ gs.mustSeal active room 0 = true

theorem not_spurns_of_sealed (h : gs.sealedWith? text size = some i) :
    ¬gs.Spurns room text size := by
  rintro ⟨g, -, -, hnone, -⟩
  rw [h] at hnone
  contradiction

/-- Only the last group can spurn a request. -/
theorem spurns_iff_of_last (h : gs.groups.getLast? = some active) :
    gs.Spurns room text size ↔ active.missing text size = 0 ∧
      gs.sealedWith? text size = none ∧ gs.mustSeal active room 0 = true := by
  constructor
  · rintro ⟨g, hg, hspurns⟩
    obtain rfl := Option.some.inj (h.symm.trans hg)
    exact hspurns
  · exact fun hspurns => ⟨active, h, hspurns⟩

/-- Group number `i`, which may be a new one, has a text now; no other group has changed. -/
structure Marked (gs gs' : GlyphGroups τ) (text : List Char) (size : Int) (i : Nat) : Prop where
  le : i ≤ gs.groups.length
  length : gs'.groups.length = max gs.groups.length (i + 1)
  other : ∀ j, j ≠ i → gs'.groups[j]? = gs.groups[j]?
  whole : ∀ g, gs'.groups[i]? = some g → g.missing text size = 0

/-- The first sealed group with the text stays the first. -/
theorem Marked.sealedWith?_eq_some (hm : Marked gs gs' text size i)
    (h : gs.sealedWith? text size = some i) : gs'.sealedWith? text size = some i := by
  obtain ⟨hi, -, hfirst⟩ := sealedWith?_eq_some_iff.mp h
  have hlen := hm.length
  refine sealedWith?_eq_some_iff.mpr ⟨by omega, ?_, fun j g hj hg => ?_⟩
  · have hg : gs'.groups[i]? = some _ := List.getElem?_eq_getElem (by omega)
    exact ⟨_, hg, hm.whole _ hg⟩
  · rw [hm.other j (by omega)] at hg
    exact hfirst j g hj hg

/-- Marking the last group makes no sealed group have the text, unless a group that had it was
sealed just then. -/
theorem Marked.sealedWith?_eq_none (hm : Marked gs gs' text size i)
    (hlast : gs'.groups.length = i + 1) (h : gs.sealedWith? text size = none)
    (hactive : i = gs.groups.length →
      ∀ g, gs.groups.getLast? = some g → g.missing text size ≠ 0) :
    gs'.sealedWith? text size = none := by
  rw [sealedWith?_eq_none_iff] at h ⊢
  intro j g hj hg
  rw [hm.other j (by omega)] at hg
  have hle := hm.le
  by_cases hji : j + 1 < gs.groups.length
  · exact h j g hji hg
  · refine hactive (by omega) g ?_
    rw [List.getLast?_eq_getElem?, show gs.groups.length - 1 = j by omega, hg]

/-- A group that had the text and was sealed for a new one has it as a sealed group. -/
theorem Marked.sealedWith?_of_missing_eq_zero (hm : Marked gs gs' text size gs.groups.length)
    (hlast : gs.groups.getLast? = some active) (hactive : active.missing text size = 0)
    (h : gs.sealedWith? text size = none) :
    gs'.sealedWith? text size = some (gs.groups.length - 1) := by
  have hpos : 0 < gs.groups.length := List.length_pos_of_mem (List.mem_of_getLast? hlast)
  have hlen := hm.length
  rw [List.getLast?_eq_getElem?] at hlast
  rw [sealedWith?_eq_none_iff] at h
  refine sealedWith?_eq_some_iff.mpr ⟨by omega, ⟨active, ?_, hactive⟩, fun j g hj hg => ?_⟩
  · rw [hm.other _ (by omega), hlast]
  · rw [hm.other j (by omega)] at hg
    exact h j g (by omega) hg

/-- A request that finds everything in the last group is served by it or spurned. -/
theorem select_of_missing_eq_zero (hactive : gs.groups.getLast? = some active)
    (hmissing : active.missing text size = 0) (h : gs.sealedWith? text size = none)
    (hroom : ∀ t n, room t n = true → room t 0 = true) :
    let r := gs.select room text size
    (¬gs.Spurns room text size ∧ r.index + 1 = gs.groups.length) ∨
      (gs.Spurns room text size ∧ r.index = gs.groups.length) := by
  intro r
  rw [spurns_iff_of_last hactive]
  rcases select_of_sealedWith?_eq_none hactive h hroom with ⟨hi, -, hseal⟩ | ⟨hi, -, hseal⟩
  · refine .inl ⟨fun hspurns => ?_, hi⟩
    rw [hseal hmissing] at hspurns
    exact Bool.false_ne_true hspurns.2.2
  · exact .inr ⟨⟨hmissing, h, hmissing ▸ hseal⟩, hi⟩

/-- How a request that is made again fares: `gs` are the groups before it was made, and `gs'` those
before it is made again. -/
inductive Again (gs gs' : GlyphGroups τ) (room room' : τ → Nat → Bool) (text : List Char)
    (size : Int) : Prop
  /-- It is given the same group. -/
  | same (hbefore : ¬gs.Spurns room text size) (hafter : ¬gs'.Spurns room' text size)
    (hi : (gs'.select room' text size).index = (gs.select room text size).index)
  /-- It is spurned, and given a new group. -/
  | spurned (hbefore : ¬gs.Spurns room text size) (hafter : gs'.Spurns room' text size)
    (hi : (gs'.select room' text size).index = gs'.groups.length)
  /-- It was spurned, and is given the group that spurned it. -/
  | returned (hbefore : gs.Spurns room text size) (hafter : ¬gs'.Spurns room' text size)
    (hi : (gs'.select room' text size).index + 1 = (gs.select room text size).index)

private theorem Marked.again_of_last
    (hm : Marked gs gs' text size (gs.select room text size).index)
    (hroom' : ∀ t n, room' t n = true → room' t 0 = true) (hbefore : ¬gs.Spurns room text size)
    (hlast : gs'.groups.length = (gs.select room text size).index + 1)
    (hnone : gs'.sealedWith? text size = none) : Again gs gs' room room' text size := by
  obtain ⟨g, hg⟩ : ∃ g, gs'.groups[(gs.select room text size).index]? = some g :=
    ⟨_, List.getElem?_eq_getElem (by omega)⟩
  have hactive : gs'.groups.getLast? = some g := by
    rw [List.getLast?_eq_getElem?, hlast, Nat.add_sub_cancel, hg]
  rcases select_of_missing_eq_zero hactive (hm.whole g hg) hnone hroom' with
    ⟨hafter, hi⟩ | ⟨hafter, hi⟩
  · exact .same hbefore hafter (by omega)
  · exact .spurned hbefore hafter hi

/-- **The second choice.** After the group chosen for a text was marked with it, the same request
is given the same group, unless it was spurned before or is spurned now. -/
theorem Marked.second_choice
    (hm : Marked gs gs' text size (gs.select room text size).index)
    (hroom : ∀ t n, room t n = true → room t 0 = true)
    (hroom' : ∀ t n, room' t n = true → room' t 0 = true) :
    Again gs gs' room room' text size := by
  have hlen := hm.length
  cases hlast : gs.groups.getLast? with
  | none =>
    have hnil : gs.groups.length = 0 := by simpa using hlast
    have hle := hm.le
    have hbefore : ¬gs.Spurns room text size := by
      rintro ⟨g, hg, -⟩
      rw [hlast] at hg
      contradiction
    refine hm.again_of_last hroom' hbefore (by omega) ?_
    exact sealedWith?_eq_none_iff.mpr fun j g hj _ => by omega
  | some active =>
    cases hsealed : gs.sealedWith? text size with
    | some i =>
      obtain ⟨hi, -⟩ := select_of_sealed hsealed room
      have hsealed' : gs'.sealedWith? text size = some i :=
        (hi ▸ hm).sealedWith?_eq_some hsealed
      obtain ⟨hi', -⟩ := select_of_sealed hsealed' room'
      exact .same (not_spurns_of_sealed hsealed) (not_spurns_of_sealed hsealed')
        (hi'.trans hi.symm)
    | none =>
      have hpos : 0 < gs.groups.length := List.length_pos_of_mem (List.mem_of_getLast? hlast)
      have hspurns : gs.Spurns room text size ↔ active.missing text size = 0 ∧
          gs.sealedWith? text size = none ∧ gs.mustSeal active room 0 = true :=
        spurns_iff_of_last hlast
      rcases select_of_sealedWith?_eq_none hlast hsealed hroom with ⟨hi, -, hseal⟩ | ⟨hi, -, hseal⟩
      · -- the last group serves the request, so it is the last one afterwards as well
        have hbefore : ¬gs.Spurns room text size := fun h => by
          obtain ⟨hmissing, -, hmust⟩ := hspurns.mp h
          rw [hseal hmissing] at hmust
          contradiction
        refine hm.again_of_last hroom' hbefore (by omega) ?_
        exact hm.sealedWith?_eq_none (by omega) hsealed fun h => by omega
      · by_cases hmissing : active.missing text size = 0
        · -- the last group had the text, and is the first sealed group that has it now
          have hsealed' : gs'.sealedWith? text size = some (gs.groups.length - 1) :=
            (hi ▸ hm).sealedWith?_of_missing_eq_zero hlast hmissing hsealed
          obtain ⟨hi', -⟩ := select_of_sealed hsealed' room'
          exact .returned (hspurns.mpr ⟨hmissing, hsealed, hmissing ▸ hseal⟩)
            (not_spurns_of_sealed hsealed') (by omega)
        · -- something was missing, so that only the new group has the text now
          refine hm.again_of_last hroom' (fun h => hmissing (hspurns.mp h).1) (by omega) ?_
          refine hm.sealedWith?_eq_none (by omega) hsealed fun _ g hg => ?_
          obtain rfl := Option.some.inj (hlast.symm.trans hg)
          exact hmissing

end GlyphGroups

end Typecase
