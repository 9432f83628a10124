import Typecase.Atlas.Basic
import Typecase.Proofs.Atlas.Placing
import Typecase.Proofs.Atlas.Selection

/-!
# How a request is served

An atlas that packages in place is *orderly* when group number `i` draws on page number `i`, and
all pages are listed in order. Every request keeps it orderly, and what a request does is then said
page by page and group by group: `Serves` names the group chosen and the page that it leaves
behind, and says that every other page and group stays as it is.

`lookup_spec` is the specification of a request of several lines: the page left behind is the one
that results from asking the page of the group for the text of all lines, and the regions are the
answers.
-/

namespace Typecase

namespace Atlas

variable {a a' : Atlas} {s₀ : FontStack} {text : List Char} {size : Int} {i : Nat} {p : Page}

/-- Group number `i` draws on page number `i`, and the pages are listed in order. -/
structure Orderly (a : Atlas) (s₀ : FontStack) : Prop where
  bench : a.bench.Upholds s₀
  live : a.released = false
  listed : a.listed = List.range a.pages.length
  groups : a.groups.groups.length = a.pages.length
  texture : ∀ (i : Nat) (g : GlyphGroup Nat), a.groups.groups[i]? = some g → g.texture = some i

/-- The page that group number `i` draws on; a new group gets an empty one. -/
def pageAt (a : Atlas) (s₀ : FontStack) (i : Nat) : Page :=
  (a.page? i).getD (.empty i a.settings.textureSize a.settings.textureSize s₀.baseHeight)

/-- Group number `i`; a new group is empty. -/
def groupAt (a : Atlas) (i : Nat) : GlyphGroup Nat := (a.groups.groups[i]?).getD ⟨[], some i⟩

/-- The group chosen for a text. -/
def choiceFor (a : Atlas) (text : List Char) (size : Int) : GroupChoice Nat :=
  a.groups.select a.hasRoom text size

/-- The atlas `a'` comes from `a` by marking group number `i` with a text and leaving page `p` as
page number `i`. -/
structure Serves (a : Atlas) (s₀ : FontStack) (text : List Char) (size : Int) (i : Nat) (p : Page)
    (a' : Atlas) : Prop where
  bench : a'.bench.Upholds s₀
  live : a'.released = false
  settings : a'.settings = a.settings
  ceiling : a'.maxGlyphs = a.maxGlyphs
  le : i ≤ a.pages.length
  count : a'.pages.length = max a.pages.length (i + 1)
  listed : a'.listed = List.range a'.pages.length
  groups : a'.groups.groups.length = a'.pages.length
  page : ∀ j, a'.page? j = if j = i then some p else a.page? j
  group : ∀ j, a'.groups.groups[j]? =
    if j = i then some ((a.groupAt i).mark text size) else a.groups.groups[j]?
  quiet : a'.quiet = true →
    a.quiet = true ∧ i < a.pages.length ∧ p.pending = (a.pageAt s₀ i).pending

theorem Orderly.texture_groupAt (h : a.Orderly s₀) (i : Nat) :
    (a.groupAt i).texture = some i := by
  rw [groupAt]
  cases hg : a.groups.groups[i]? with
  | none => rfl
  | some g => exact h.texture i g hg

/-- An atlas stays orderly when a request is served. -/
theorem Serves.orderly (hs : a.Serves s₀ text size i p a') (h : a.Orderly s₀) :
    a'.Orderly s₀ where
  bench := hs.bench
  live := hs.live
  listed := hs.listed
  groups := hs.groups
  texture j g hg := by
    rw [hs.group] at hg
    split at hg
    · rename_i hj
      obtain rfl := Option.some.inj hg
      rw [GlyphGroup.texture_mark, h.texture_groupAt, hj]
    · exact h.texture j g hg

/-! ### Opening the page -/

/-- Marking a group with line after line is marking it with the text of all lines. -/
theorem foldl_mark (gs : GlyphGroups Nat) (i : Nat) (lines : List (List Char)) (size : Int) :
    lines.foldl (fun gs line => gs.mark i line size) gs = gs.mark i lines.flatten size := by
  induction lines generalizing gs with
  | nil => exact congrArg (GlyphGroups.mk · gs.ceiling) (List.modify_id i gs.groups).symm
  | cons line rest ih =>
    rw [List.foldl_cons, ih, GlyphGroups.mark, GlyphGroups.mark, GlyphGroups.mark,
      List.modify_modify_eq]
    congr 2
    funext g
    rw [List.flatten_cons, GlyphGroup.mark_append]
    rfl

/-- Choosing a group marks it, and adds a notice at most. -/
theorem choose_spec (h : a.Orderly s₀) (lines : List (List Char)) (size : Int) :
    ∃ gs b, b.Upholds s₀ ∧ b.stack = a.bench.stack ∧ gs.ceiling = a.groups.ceiling ∧
      gs.groups = ((a.choiceFor lines.flatten size).groups.groups.modify
        (a.choiceFor lines.flatten size).index fun g => g.mark lines.flatten size) ∧
      a.choose lines size =
        ((a.choiceFor lines.flatten size).index, { a with groups := gs, bench := b }) := by
  have hceiling : (a.choiceFor lines.flatten size).groups.ceiling = a.groups.ceiling := by
    rcases GlyphGroups.select_cases a.groups a.hasRoom lines.flatten size with ⟨-, hgs⟩ | ⟨-, hgs⟩
    · rw [choiceFor, hgs]
    · rw [choiceFor, hgs, GlyphGroups.extend]
  have hmark := foldl_mark (a.choiceFor lines.flatten size).groups
    (a.choiceFor lines.flatten size).index lines size
  have hgroups := congrArg GlyphGroups.groups hmark
  have hceiling' := (congrArg GlyphGroups.ceiling hmark).trans hceiling
  unfold choose
  dsimp only
  split
  · exact ⟨_, _, h.bench.note _, rfl, hceiling', hgroups, rfl⟩
  · exact ⟨_, _, h.bench, rfl, hceiling', hgroups, rfl⟩

theorem page?_eq_none_iff {j : Nat} : a.page? j = none ↔ a.pages.length ≤ j := by
  rw [page?, List.getElem?_eq_none_iff]

theorem pageAt_of_page? {j : Nat} (h : a.page? j = some p) (s₀ : FontStack) :
    a.pageAt s₀ j = p := by
  rw [pageAt, h, Option.getD_some]

/-- Marking a group that exists opens its page. -/
private theorem Orderly.serves_mark (h : a.Orderly s₀) {gs : GlyphGroups Nat} {b : Bench Nat}
    (hb : b.Upholds s₀) (hceiling : gs.ceiling = a.groups.ceiling)
    (hi : i < a.groups.groups.length)
    (hgs : gs.groups = a.groups.groups.modify i fun g => g.mark text size) :
    a.Serves s₀ text size i (a.pageAt s₀ i) { a with groups := gs, bench := b } where
  bench := hb
  live := h.live
  settings := rfl
  ceiling := hceiling
  le := by
    have := h.groups
    omega
  count := by
    have := h.groups
    change a.pages.length = _
    omega
  listed := h.listed
  groups := by
    change gs.groups.length = a.pages.length
    rw [hgs, List.length_modify, h.groups]
  page j := by
    obtain ⟨p, hp⟩ : ∃ p, a.page? i = some p :=
      ⟨_, List.getElem?_eq_getElem (h.groups ▸ hi)⟩
    change a.page? j = _
    split
    · rename_i hj
      rw [hj, hp, pageAt_of_page? hp]
    · rfl
  group j := by
    change gs.groups[j]? = _
    rw [hgs]
    split
    · rename_i hj
      obtain ⟨g, hg⟩ : ∃ g, a.groups.groups[i]? = some g := ⟨_, List.getElem?_eq_getElem hi⟩
      rw [hj, List.getElem?_modify_eq, groupAt, hg]
      rfl
    · rename_i hj
      rw [List.getElem?_modify_ne _ _ (Ne.symm hj)]
  quiet hq := ⟨hq, h.groups ▸ hi, rfl⟩

/-- Making a page for a group that was opened for a text. -/
private theorem Orderly.serves_allocate (h : a.Orderly s₀) {gs : GlyphGroups Nat} {b : Bench Nat}
    (hb : b.Upholds s₀) (hceiling : gs.ceiling = a.groups.ceiling)
    (hi : i = a.groups.groups.length)
    (hgs : gs.groups = a.groups.extend.groups.modify i fun g => g.mark text size) :
    a.Serves s₀ text size i (a.pageAt s₀ i)
      ({ a with groups := gs, bench := b }.allocate i).2 where
  bench := hb.note _
  live := h.live
  settings := rfl
  ceiling := hceiling
  le := by
    have := h.groups
    omega
  count := by
    have := h.groups
    change (a.pages ++ [_]).length = _
    rw [List.length_append, List.length_singleton]
    omega
  listed := by
    change a.listed ++ [a.pages.length] = List.range (a.pages ++ [_]).length
    rw [h.listed, List.length_append, List.length_singleton, List.range_succ]
  groups := by
    change (gs.groups.modify i _).length = (a.pages ++ [_]).length
    rw [hgs, List.length_modify, List.length_modify, GlyphGroups.extend, List.length_append,
      List.length_append, h.groups]
    rfl
  page j := by
    have hnone : a.page? i = none := page?_eq_none_iff.mpr (Nat.le_of_eq (hi.trans h.groups).symm)
    have hbase : b.stack.baseHeight = s₀.baseHeight := by
      rw [← hb.bare]
      rfl
    -- the new page is the last one, and there is none behind it
    change (a.pages ++ [Page.empty a.pages.length _ _ b.stack.baseHeight])[j]? = _
    rw [pageAt, hnone, Option.getD_none, ← h.groups, ← hi, hbase]
    split
    · rename_i hj
      rw [hj, hi, h.groups, List.getElem?_concat_length]
    · rename_i hj
      rw [List.getElem?_append]
      split
      · rfl
      · have hlt : a.pages.length < j := by
          have := h.groups
          omega
        rw [List.getElem?_eq_none (by simp; omega), page?_eq_none_iff.mpr (Nat.le_of_lt hlt)]
  group j := by
    change (gs.groups.modify i _)[j]? = _
    rw [hgs, GlyphGroups.extend]
    split
    · rename_i hj
      rw [hj, List.getElem?_modify_eq, List.getElem?_modify_eq, groupAt, hi,
        List.getElem?_concat_length, List.getElem?_eq_none (Nat.le_refl _), h.groups]
      rfl
    · rename_i hj
      rw [List.getElem?_modify_ne _ _ (Ne.symm hj), List.getElem?_modify_ne _ _ (Ne.symm hj),
        List.getElem?_append]
      split
      · rfl
      · rw [List.getElem?_eq_none (by simp; omega), List.getElem?_eq_none (by omega)]
  quiet hq := by contradiction

/-- **The page of the group chosen is opened**: it exists already, or it is made. -/
theorem pageOf_choose_spec (h : a.Orderly s₀) (lines : List (List Char)) (size : Int) :
    let i := (a.choiceFor lines.flatten size).index
    let opened := (a.choose lines size).2.pageOf (a.choose lines size).1
    opened.1 = i ∧ a.Serves s₀ lines.flatten size i (a.pageAt s₀ i) opened.2 ∧
      opened.2.bench.stack = a.bench.stack := by
  obtain ⟨gs, b, hb, hstack, hceiling, hgs, hchoose⟩ := choose_spec h lines size
  have hcases := GlyphGroups.select_cases a.groups a.hasRoom lines.flatten size
  change let r := a.choiceFor lines.flatten size
    r.index < _ ∧ r.groups = _ ∨ r.index = _ ∧ r.groups = _ at hcases
  rw [hchoose]
  generalize a.choiceFor lines.flatten size = r at *
  rcases hcases with ⟨hi, hrg⟩ | ⟨hi, hrg⟩
  · -- the group exists, and has its page
    have hserves := h.serves_mark hb hceiling hi (hrg ▸ hgs)
    have htexture : gs.textureOf? r.index = some r.index := by
      have hg := hserves.group r.index
      rw [if_pos rfl] at hg
      rw [GlyphGroups.textureOf?]
      exact (congrArg (Option.bind · GlyphGroup.texture) hg).trans (h.texture_groupAt r.index)
    rw [pageOf]
    dsimp only
    rw [htexture]
    exact ⟨rfl, hserves, hstack⟩
  · -- the group is new, and its page is made
    have hserves := h.serves_allocate hb hceiling hi (hrg ▸ hgs)
    have htexture : gs.textureOf? r.index = none := by
      rw [GlyphGroups.textureOf?, hgs, hrg, GlyphGroups.extend, hi, List.getElem?_modify_eq,
        List.getElem?_concat_length]
      rfl
    rw [pageOf]
    dsimp only
    rw [htexture]
    exact ⟨by rw [hi, h.groups]; rfl, hserves, hstack⟩

/-! ### Filling the page -/

theorem page?_setPage (hp : a.page? i = some p) (p' : Page) (j : Nat) :
    (a.setPage i p').page? j = if j = i then some p' else a.page? j := by
  have hi : i < a.pages.length := (List.getElem?_eq_some_iff.mp hp).1
  rw [page?, setPage]
  split
  · rename_i hj
    rw [hj, List.getElem?_set_self hi]
  · rename_i hj
    rw [List.getElem?_set_ne (Ne.symm hj)]
    rfl

theorem setPage_self (hp : a.page? i = some p) : a.setPage i p = a := by
  obtain ⟨hi, rfl⟩ := List.getElem?_eq_some_iff.mp hp
  have hset : a.pages.set i a.pages[i] = a.pages := List.set_getElem_self hi
  rw [setPage, hset]

/-- The regions of one line are the answers of the page. -/
theorem regionsIn_eq (hp : a.page? i = some p) (size : Int) (line : List Char) :
    a.regionsIn i size line =
      let f := p.find a.bench size line
      (f.placements.map fun e => ⟨i, e⟩,
        { a.setPage i f.page with bench := f.bench, quiet := a.quiet && !f.isNew }) := by
  rw [regionsIn, hp]

/-- The regions of several lines are the answers of the page to the text of all lines. -/
theorem regionsOfLines_eq (hp : a.page? i = some p) (size : Int) (lines : List (List Char)) :
    let f := p.find a.bench size lines.flatten
    (a.regionsOfLines i size lines).1.flatten = f.placements.map (fun e => ⟨i, e⟩) ∧
      (a.regionsOfLines i size lines).1.length = lines.length ∧
      (a.regionsOfLines i size lines).2 =
        { a.setPage i f.page with bench := f.bench, quiet := a.quiet && !f.isNew } := by
  induction lines generalizing a p with
  | nil =>
    refine ⟨rfl, rfl, ?_⟩
    simp only [regionsOfLines, List.flatten_nil, Page.find, setPage_self hp, Bool.not_false,
      Bool.and_true]
  | cons line rest ih =>
    have hi : i < a.pages.length := (List.getElem?_eq_some_iff.mp hp).1
    have hp' := page?_setPage hp (p.find a.bench size line).page i
    rw [if_pos rfl] at hp'
    obtain ⟨hregions, hlength, hrest⟩ :=
      ih (a := { a.setPage i (p.find a.bench size line).page with
        bench := (p.find a.bench size line).bench
        quiet := a.quiet && !(p.find a.bench size line).isNew }) hp'
    rw [regionsOfLines, regionsIn_eq hp, List.flatten_cons, Page.find_append]
    dsimp only at hregions hlength hrest ⊢
    refine ⟨?_, ?_, ?_⟩
    · rw [List.flatten_cons, hregions, List.map_append]
    · rw [List.length_cons, hlength, List.length_cons]
    · rw [hrest]
      simp only [setPage, List.set_set, Bool.not_or, Bool.and_assoc]

/-- **How a request is served.** The page that the request leaves behind results from asking the
page of the group for the text of all lines, and the regions are the answers. The page draws on the
font stack as the atlas has it. -/
theorem lookup_spec (h : a.Orderly s₀) (lines : List (List Char)) (size : Int) :
    let i := (a.choiceFor lines.flatten size).index
    ∃ b : Bench Nat, b.Upholds s₀ ∧
      let f := (a.pageAt s₀ i).find b size lines.flatten
      a.Serves s₀ lines.flatten size i f.page (a.lookup lines size).2 ∧
        (a.lookup lines size).1.flatten = f.placements.map (fun e => ⟨i, e⟩) ∧
        (a.lookup lines size).1.length = lines.length ∧
        b.stack = a.bench.stack ∧ (a.lookup lines size).2.bench = f.bench := by
  intro i
  obtain ⟨hid, ho, hstack⟩ := pageOf_choose_spec h lines size
  have hlookup : a.lookup lines size =
      ((a.choose lines size).2.pageOf (a.choose lines size).1).2.regionsOfLines
        ((a.choose lines size).2.pageOf (a.choose lines size).1).1 size lines := by
    rw [lookup, h.live]
    rfl
  rw [hlookup, hid]
  generalize ((a.choose lines size).2.pageOf (a.choose lines size).1).2 = opened at ho hstack
  have hp : opened.page? i = some (a.pageAt s₀ i) := by rw [ho.page, if_pos rfl]
  obtain ⟨hregions, hlength, hstate⟩ := regionsOfLines_eq hp size lines
  obtain ⟨hb, -, -, -⟩ := Page.find_spec ho.bench (a.pageAt s₀ i) size lines.flatten
  refine ⟨opened.bench, ho.bench, ?_, hregions, hlength, hstack, by rw [hstate]⟩
  rw [hstate]
  exact {
    bench := hb
    live := ho.live
    settings := ho.settings
    ceiling := ho.ceiling
    le := ho.le
    count := (List.length_set ..).trans ho.count
    listed := ho.listed.trans (congrArg List.range (List.length_set ..).symm)
    groups := ho.groups.trans (List.length_set ..).symm
    page := fun j => by
      refine (page?_setPage hp _ j).trans ?_
      split
      · rfl
      · rename_i hj
        rw [ho.page, if_neg hj]
    group := ho.group
    quiet := fun hq => by
      obtain ⟨hquiet, hnew⟩ := Bool.and_eq_true_iff.mp hq
      obtain ⟨hq', hi, -⟩ := ho.quiet hquiet
      exact ⟨hq', hi, Page.pending_find_of_not_isNew ho.bench (by simpa using hnew)⟩ }

end Atlas

end Typecase
