import Mathlib.Data.List.Forall2
import Typecase.Proofs.Atlas.Releasing

/-!
# Lines

A request of several lines marks its group and fills its page line by line, where a request of a
single text does so in one go. It comes to the same (`Service.lines_are_one_text`): a request of
some lines leaves behind what a request of the text of all lines leaves behind, and the regions of
the lines, put end to end, are the regions of that text.

* **One text.** The choice of a group and its page reads the text of all lines only
  (`pageFor_flatten`), and the characters are looked up in the same order, line breaks or not
  (`regionsOfLines_flatten`). Nothing is assumed about the atlas.
* **One page.** All regions lie on the page of the group that serves the request. As long as the
  page exists, every line has an answer, with a region for each of its characters
  (`HasPages.lookup_answers`).
* **One page for each group.** Page number `i` is made when group number `i` is opened, and never
  again (`IsPaired`). This holds at every step of a call, of the worker, and of a release, so that
  the pages of all groups exist whenever a request is made.
-/

namespace Typecase

variable {a a' : Atlas} {p : Page} {id i : Nat} {lines : List (List Char)} {size : Int}

/-! ### What a page keeps -/

namespace Page

theorem length_find (p : Page) (b : Bench Nat) (size : Int) (text : List Char) :
    (p.find b size text).placements.length = text.length := by
  induction text generalizing p b with
  | nil => rfl
  | cons c rest ih => rw [find, List.length_cons, ih, List.length_cons]

theorem id_place (p : Page) (b : Bench Nat) (c : Char) (size : Int) :
    (p.place b c size).page.id = p.id := by
  rw [place]
  dsimp only
  split
  · rfl
  · split
    · rw [enter]
      dsimp only
      split <;> rfl
    · rfl

end Page

/-! ### What a group draws on -/

namespace GlyphGroups

variable {τ : Type} {gs : GlyphGroups τ}

@[simp] theorem textureOf?_mark (gs : GlyphGroups τ) (i : Nat) (text : List Char) (size : Int)
    (j : Nat) : (gs.mark i text size).textureOf? j = gs.textureOf? j := by
  rw [textureOf?, mark, textureOf?, List.getElem?_modify]
  cases gs.groups[j]? with
  | none => rfl
  | some g =>
    dsimp only [Option.map_some, Option.bind_some]
    split <;> rfl

/-- A group that was just opened has no texture, as if it were not there. -/
@[simp] theorem textureOf?_extend (gs : GlyphGroups τ) (j : Nat) :
    gs.extend.textureOf? j = gs.textureOf? j := by
  rw [textureOf?, extend, textureOf?, List.getElem?_append]
  split
  · rfl
  · rename_i hj
    rw [List.getElem?_eq_none (Nat.le_of_not_lt hj)]
    cases j - gs.groups.length <;> rfl

/-- A group without a texture is given one. -/
theorem textureOf?_attach (hi : i < gs.groups.length) (hnone : gs.textureOf? i = none) (t : τ)
    (j : Nat) : (gs.attach i t).textureOf? j = if j = i then some t else gs.textureOf? j := by
  rw [textureOf?, attach]
  split
  · rename_i hj
    rw [textureOf?, List.getElem?_eq_getElem hi, Option.bind_some] at hnone
    rw [hj, List.getElem?_modify_eq, List.getElem?_eq_getElem hi]
    exact congrArg (Option.or · (some t)) hnone
  · rename_i hj
    rw [List.getElem?_modify_ne _ _ (Ne.symm hj), textureOf?]

end GlyphGroups

/-! ### One text -/

namespace Atlas

/-- The page that a request is answered from; it is made if the group chosen has none. -/
def pageFor (a : Atlas) (lines : List (List Char)) (size : Int) : Nat × Atlas :=
  (a.choose lines size).2.pageOf (a.choose lines size).1

theorem lookup_eq (hlive : a.released = false) (lines : List (List Char)) (size : Int) :
    a.lookup lines size =
      (a.pageFor lines size).2.regionsOfLines (a.pageFor lines size).1 size lines := by
  rw [lookup, hlive]
  rfl

theorem regions_eq (hlive : a.released = false) (text : List Char) (size : Int) :
    a.regions text size =
      (a.pageFor [text] size).2.regionsIn (a.pageFor [text] size).1 size text := by
  rw [regions, lookup_eq hlive]
  rfl

/-- The choice reads the text of all lines only. -/
theorem choose_flatten (a : Atlas) (lines : List (List Char)) (size : Int) :
    a.choose lines size = a.choose [lines.flatten] size := by
  rw [choose, choose, foldl_mark, foldl_mark, List.flatten_singleton]

theorem pageFor_flatten (a : Atlas) (lines : List (List Char)) (size : Int) :
    a.pageFor lines size = a.pageFor [lines.flatten] size := by
  rw [pageFor, pageFor, choose_flatten]

/-- **Lines are looked up as the text of all lines is**, on a page that exists or not. -/
theorem regionsOfLines_flatten (a : Atlas) (id : Nat) (size : Int) (lines : List (List Char)) :
    (a.regionsOfLines id size lines).1.flatten = (a.regionsIn id size lines.flatten).1 ∧
      (a.regionsOfLines id size lines).2 = (a.regionsIn id size lines.flatten).2 := by
  cases hp : a.page? id with
  | some p =>
    obtain ⟨hregions, -, hstate⟩ := regionsOfLines_eq hp size lines
    rw [regionsIn_eq hp]
    exact ⟨hregions, hstate⟩
  | none =>
    have hnothing (text : List Char) : a.regionsIn id size text = ([], a) := by rw [regionsIn, hp]
    rw [hnothing]
    induction lines with
    | nil => exact ⟨rfl, rfl⟩
    | cons line rest ih =>
      rw [regionsOfLines, hnothing]
      exact ih

/-- **A request of some lines is a request of the text of all lines**, in what it leaves behind and
in its regions. -/
theorem lookup_flatten (a : Atlas) (lines : List (List Char)) (size : Int) :
    (a.lookup lines size).2 = (a.regions lines.flatten size).2 ∧
      (a.lookup lines size).1.flatten = (a.regions lines.flatten size).1 := by
  cases hlive : a.released with
  | true =>
    have hrefused (lines : List (List Char)) :
        a.lookup lines size = ([], a.note .lookupAfterRelease) := if_pos hlive
    rw [regions, hrefused, hrefused]
    exact ⟨rfl, rfl⟩
  | false =>
    rw [lookup_eq hlive, regions_eq hlive, ← pageFor_flatten]
    exact (regionsOfLines_flatten ..).symm

/-! ### One page -/

/-- The regions in `rs` answer a line from a page: there is one for each character. -/
def Answers (id : Nat) (line : List Char) (rs : List Region) : Prop :=
  rs.length = line.length ∧ ∀ r ∈ rs, r.page = id

theorem regionsIn_keeps (a : Atlas) (id : Nat) (size : Int) (line : List Char) :
    (a.regionsIn id size line).2.groups = a.groups ∧
      (a.regionsIn id size line).2.pages.length = a.pages.length := by
  rw [regionsIn]
  split
  · exact ⟨rfl, rfl⟩
  · exact ⟨rfl, List.length_set ..⟩

/-- On a page that exists, every line has an answer. -/
theorem forall₂_answers_regionsOfLines (hid : id < a.pages.length) (size : Int)
    (lines : List (List Char)) :
    List.Forall₂ (Answers id) lines (a.regionsOfLines id size lines).1 := by
  induction lines generalizing a with
  | nil => exact .nil
  | cons line rest ih =>
    have hp : a.page? id = some a.pages[id] := List.getElem?_eq_getElem hid
    rw [regionsOfLines]
    refine .cons ?_ (ih (by rwa [(a.regionsIn_keeps id size line).2]))
    rw [regionsIn_eq hp]
    refine ⟨(List.length_map _).trans (Page.length_find ..), fun r hr => ?_⟩
    obtain ⟨e, -, rfl⟩ := List.mem_map.mp hr
    rfl

/-- Every group that has a page has one that exists. -/
def HasPages (a : Atlas) : Prop :=
  ∀ i id, a.groups.textureOf? i = some id → id < a.pages.length

/-- The group chosen existed before, or was opened for the request. No group is given a page yet. -/
theorem choose_frame (a : Atlas) (lines : List (List Char)) (size : Int) :
    let r := a.choose lines size
    (r.1 < a.groupCount ∧ r.2.groupCount = a.groupCount ∨
        r.1 = a.groupCount ∧ r.2.groupCount = a.groupCount + 1) ∧
      (∀ j, r.2.groups.textureOf? j = a.groups.textureOf? j) := by
  intro r
  have hgroups : r.2.groups = (a.choiceFor lines.flatten size).groups.mark
      (a.choiceFor lines.flatten size).index lines.flatten size := by
    rw [← foldl_mark]
    unfold r choose
    dsimp only
    split <;> rfl
  have hindex : r.1 = (a.choiceFor lines.flatten size).index := rfl
  have hcount : r.2.groupCount = (a.choiceFor lines.flatten size).groups.groups.length := by
    rw [groupCount, hgroups, GlyphGroups.mark, List.length_modify]
  rw [hindex, hcount, hgroups]
  have hcases := GlyphGroups.select_cases a.groups a.hasRoom lines.flatten size
  change let r := a.choiceFor lines.flatten size
    r.index < _ ∧ r.groups = _ ∨ r.index = _ ∧ r.groups = _ at hcases
  rcases hcases with ⟨hi, hgs⟩ | ⟨hi, hgs⟩
  · refine ⟨.inl ⟨hi, by rw [hgs]; rfl⟩, fun j => ?_⟩
    rw [GlyphGroups.textureOf?_mark, hgs]
  · refine ⟨.inr ⟨hi, ?_⟩, fun j => ?_⟩
    · rw [hgs, GlyphGroups.extend, List.length_append, List.length_singleton]
      rfl
    · rw [GlyphGroups.textureOf?_mark, hgs, GlyphGroups.textureOf?_extend]

/-- The group chosen has its page already, and keeps it; or it has none, and is given one that is
new. -/
theorem pageFor_cases (a : Atlas) (lines : List (List Char)) (size : Int) :
    let i := (a.choose lines size).1
    a.groups.textureOf? i = some (a.pageFor lines size).1 ∧
        (a.pageFor lines size).2 = (a.choose lines size).2 ∨
      a.groups.textureOf? i = none ∧
        a.pageFor lines size = (a.choose lines size).2.allocate i := by
  intro i
  have htexture : (a.choose lines size).2.groups.textureOf? i = a.groups.textureOf? i :=
    (a.choose_frame lines size).2 i
  rw [pageFor, pageOf, ← htexture]
  cases (a.choose lines size).2.groups.textureOf? i with
  | some id => exact .inl ⟨rfl, rfl⟩
  | none => exact .inr ⟨rfl, rfl⟩

/-- The group chosen draws on the page that the request is answered from. -/
theorem textureOf?_pageFor (a : Atlas) (lines : List (List Char)) (size : Int) :
    (a.pageFor lines size).2.groups.textureOf? (a.choose lines size).1 =
      some (a.pageFor lines size).1 := by
  obtain ⟨hindex, htexture⟩ := a.choose_frame lines size
  rcases a.pageFor_cases lines size with ⟨hsome, hstate⟩ | ⟨hnone, hpage⟩
  · rw [hstate, htexture, hsome]
  · have hlt : (a.choose lines size).1 < (a.choose lines size).2.groupCount := by omega
    rw [hpage]
    exact (GlyphGroups.textureOf?_attach hlt ((htexture _).trans hnone) _ _).trans (if_pos rfl)

theorem HasPages.pageFor (h : a.HasPages) (lines : List (List Char)) (size : Int) :
    (a.pageFor lines size).1 < (a.pageFor lines size).2.pages.length := by
  rcases a.pageFor_cases lines size with ⟨hsome, hstate⟩ | ⟨-, hpage⟩
  · rw [hstate, (a.alike_choose lines size).pages]
    exact h _ _ hsome
  · rw [hpage]
    change (a.choose lines size).2.pages.length < (_ ++ [_]).length
    rw [List.length_append, List.length_singleton]
    exact Nat.lt_succ_self _

/-- **All lines are answered from one page**, which is the page of the group chosen. -/
theorem HasPages.lookup_answers (h : a.HasPages) (hlive : a.released = false)
    (lines : List (List Char)) (size : Int) :
    ∃ id, (a.lookup lines size).2.groups.textureOf? (a.choose lines size).1 = some id ∧
      id < (a.lookup lines size).2.pages.length ∧
      List.Forall₂ (Answers id) lines (a.lookup lines size).1 := by
  have hid := h.pageFor lines size
  have htexture := a.textureOf?_pageFor lines size
  rw [lookup_eq hlive]
  generalize a.pageFor lines size = opened at hid htexture
  obtain ⟨hgroups, hcount⟩ := opened.2.regionsIn_keeps opened.1 size lines.flatten
  refine ⟨opened.1, ?_, ?_, forall₂_answers_regionsOfLines hid size lines⟩
  · rw [(regionsOfLines_flatten ..).2, hgroups, htexture]
  · rwa [(regionsOfLines_flatten ..).2, hcount]

/-! ### One page for each group -/

/-- Every page has its number. Group number `i` draws on page number `i`, and these are the pages
that are listed; as long as the atlas was not released there are no others. -/
structure IsPaired (a : Atlas) : Prop where
  ids : a.pages.map Page.id = List.range a.pages.length
  listed : a.listed = List.range a.groupCount
  texture : ∀ i, a.groups.textureOf? i = if i < a.groupCount then some i else none
  le : a.groupCount ≤ a.pages.length
  live : a.released = false → a.pages.length = a.groupCount

/-- Two atlases have the same pages by number, list the same, and agree in which group draws on
which page; none that was released is live again. -/
structure SamePairs (a a' : Atlas) : Prop where
  ids : a'.pages.map Page.id = a.pages.map Page.id
  listed : a'.listed = a.listed
  count : a'.groupCount = a.groupCount
  texture : ∀ i, a'.groups.textureOf? i = a.groups.textureOf? i
  live : a'.released = false → a.released = false

theorem isPaired_ofStack (settings : AtlasSettings) (stack : FontStack) (k : Packager Nat) :
    (ofStack settings stack k).IsPaired where
  ids := rfl
  listed := rfl
  texture _ := rfl
  le := Nat.le_refl 0
  live _ := rfl

theorem IsPaired.hasPages (h : a.IsPaired) : a.HasPages := by
  intro i id hid
  rw [h.texture] at hid
  split at hid
  · rename_i hi
    obtain rfl := Option.some.inj hid
    exact Nat.lt_of_lt_of_le hi h.le
  · contradiction

theorem IsPaired.id_eq (h : a.IsPaired) (hp : a.page? i = some p) : p.id = i := by
  obtain ⟨hi, rfl⟩ := List.getElem?_eq_some_iff.mp hp
  have hid := congrArg (·[i]?) h.ids
  simpa [hi] using hid

theorem IsPaired.of_samePairs (h : a.IsPaired) (hs : a.SamePairs a') : a'.IsPaired := by
  have hpages : a'.pages.length = a.pages.length := by
    simpa only [List.length_map] using congrArg List.length hs.ids
  exact {
    ids := by rw [hs.ids, hpages, h.ids]
    listed := by rw [hs.listed, hs.count, h.listed]
    texture := fun i => by rw [hs.texture, hs.count, h.texture]
    le := by rw [hs.count, hpages]; exact h.le
    live := fun hlive => by rw [hs.count, hpages]; exact h.live (hs.live hlive) }

/-- A page is made for the group that was opened last. -/
theorem IsPaired.allocate (h : a.IsPaired) (hlive : a.released = false) (ha : a.Alike a')
    (hcount : a'.groupCount = a.groupCount + 1)
    (htexture : ∀ i, a'.groups.textureOf? i = a.groups.textureOf? i) :
    (a'.allocate a.groupCount).2.IsPaired := by
  have hpages : a'.pages.length = a.groupCount := by rw [ha.pages, h.live hlive]
  have hcount' : (a'.allocate a.groupCount).2.groupCount = a.groupCount + 1 :=
    (List.length_modify ..).trans hcount
  have hpages' : (a'.allocate a.groupCount).2.pages.length = a.groupCount + 1 := by
    rw [← hpages]
    exact List.length_append
  have hnone : a'.groups.textureOf? a.groupCount = none := by
    rw [htexture, h.texture, if_neg (Nat.lt_irrefl _)]
  exact {
    ids := by
      rw [hpages']
      change (a'.pages ++ [_]).map Page.id = _
      rw [List.map_append, ha.pages, h.ids, h.live hlive, List.range_succ]
      rfl
    listed := by
      rw [hcount']
      change a'.listed ++ [a'.pages.length] = _
      rw [ha.listed, h.listed, hpages, List.range_succ]
    texture := fun i => by
      have hlt : a.groupCount < a'.groupCount := hcount ▸ Nat.lt_succ_self _
      rw [hcount']
      refine (GlyphGroups.textureOf?_attach hlt hnone a'.pages.length i).trans ?_
      rw [htexture, h.texture, hpages]
      by_cases hi : i = a.groupCount
      · rw [if_pos hi, if_pos (by omega), hi]
      · simp only [if_neg hi, show i < a.groupCount + 1 ↔ i < a.groupCount by omega]
    le := Nat.le_of_eq (hcount'.trans hpages'.symm)
    live := fun _ => by rw [hcount', hpages'] }

/-- **A request opens a group and its page together**, or none of them. -/
theorem IsPaired.pageFor (h : a.IsPaired) (hlive : a.released = false)
    (lines : List (List Char)) (size : Int) : (a.pageFor lines size).2.IsPaired := by
  obtain ⟨hindex, htexture⟩ := a.choose_frame lines size
  have halike := a.alike_choose lines size
  have hpaired := h.texture (a.choose lines size).1
  rcases a.pageFor_cases lines size with ⟨hsome, hstate⟩ | ⟨hnone, hpage⟩
  · -- the group has a page, so that it is not new
    have hlt : (a.choose lines size).1 < a.groupCount := by
      by_contra hge
      rw [if_neg hge, hsome] at hpaired
      contradiction
    rw [hstate]
    refine h.of_samePairs ⟨by rw [halike.pages], halike.listed, by omega, htexture, fun hr => ?_⟩
    rwa [← halike.released]
  · have hnew : (a.choose lines size).1 = a.groupCount := by
      rcases hindex with ⟨hlt, -⟩ | ⟨hnew, -⟩
      · rw [if_pos hlt, hnone] at hpaired
        contradiction
      · exact hnew
    rw [hpage, hnew]
    exact h.allocate hlive halike (by omega) htexture

/-! ### Whatever else happens -/

theorem SamePairs.refl (a : Atlas) : a.SamePairs a := ⟨rfl, rfl, rfl, fun _ => rfl, id⟩

/-- A page may be replaced by one with its number. -/
theorem samePairs_setPage (hp : a.page? i = some p) {p' : Page} (hid : p'.id = p.id)
    (b : Bench Nat) : a.SamePairs { a.setPage i p' with bench := b } := by
  refine ⟨?_, rfl, rfl, fun _ => rfl, id⟩
  obtain ⟨hi, rfl⟩ := List.getElem?_eq_some_iff.mp hp
  change (a.pages.set i p').map Page.id = _
  have hi' : i < (a.pages.map Page.id).length := by rwa [List.length_map]
  rw [List.map_set, hid, ← List.getElem_map Page.id (h := hi'), List.set_getElem_self]

/-- Deliveries do not change numbers. -/
theorem samePairs_step? (ha : a.step? = some a') : a.SamePairs a' := by
  obtain ⟨⟨delivery, b⟩, -, rfl⟩ := Option.map_eq_some_iff.mp ha
  cases delivery with
  | none => exact ⟨rfl, rfl, rfl, fun _ => rfl, id⟩
  | some d =>
    refine ⟨?_, rfl, rfl, fun _ => rfl, id⟩
    change (a.pages.modify d.listener fun p => p.accept d.jobs).map Page.id = _
    refine List.ext_getElem? fun i => ?_
    rw [List.getElem?_map, List.getElem?_map, List.getElem?_modify]
    cases a.pages[i]? with
    | none => rfl
    | some p =>
      rw [Option.map_eq_map, Option.map_some, Option.map_some, Option.map_some]
      split <;> rfl

end Atlas

namespace Running

variable {r : Running}

/-- The steps of a call after its beginning change no numbers. -/
theorem samePairs_proceed (r : Running) :
    r.session.atlas.SamePairs r.proceed.session.atlas := by
  obtain ⟨⟨a, d, calls⟩, call⟩ := r
  have hflag (quiet : Bool) : a.SamePairs { a with quiet } := ⟨rfl, rfl, rfl, fun _ => rfl, id⟩
  cases call with
  | resting => exact .refl a
  | asking id size line isNew rest =>
    cases line with
    | nil => exact hflag _
    | cons c line =>
      rw [proceed]
      dsimp only
      cases hp : a.page? id with
      | none => exact hflag _
      | some p => exact Atlas.samePairs_setPage hp (p.id_place a.bench c size) _
  | gating =>
    rw [proceed]
    dsimp only
    split
    · exact .refl a
    · exact hflag true
  | passing => exact .refl a
  | uploading ids =>
    cases ids with
    | nil => exact .refl a
    | cons id ids =>
      rw [proceed]
      dsimp only
      cases hp : a.page? id with
      | none => exact .refl a
      | some p =>
        have hid : (p.upload ⟨calls, d, a.bench.stack⟩).1.id = p.id := rfl
        exact Atlas.samePairs_setPage hp hid _

/-- **Every move keeps groups and pages paired.** -/
theorem isPaired_move (h : r.session.atlas.IsPaired) (m : Move) :
    (r.move m).session.atlas.IsPaired := by
  cases m with
  | request lines size =>
    rw [move]
    split
    · rw [ask]
      dsimp only
      split
      · exact h.of_samePairs ⟨rfl, rfl, rfl, fun _ => rfl, id⟩
      · rename_i hlive
        exact h.pageFor (by simpa using hlive) lines size
    · exact h
  | update =>
    rw [move]
    split
    · rw [beginUpdate]
      split <;> exact h
    · exact h
  | proceed => exact h.of_samePairs r.samePairs_proceed
  | work =>
    rw [move]
    cases hstep : r.session.atlas.step? with
    | none => exact h
    | some a => exact h.of_samePairs (Atlas.samePairs_step? hstep)
  | recycle pool => exact h.of_samePairs ⟨rfl, rfl, rfl, fun _ => rfl, id⟩

end Running

namespace Service

variable {s : Service}

/-- **Every event keeps groups and pages paired.** A release drops all of them together. -/
theorem isPaired_step {s' : Service} (h : s.running.session.atlas.IsPaired) (hproper : s.IsProper)
    (hs : s.Step s') : s'.running.session.atlas.IsPaired := by
  cases hs with
  | same => exact h
  | flag => exact h.of_samePairs ⟨rfl, rfl, rfl, fun _ => rfl, fun hlive => by contradiction⟩
  | cancel => exact h.of_samePairs ⟨rfl, rfl, rfl, fun _ => rfl, id⟩
  | close hstage =>
    rw [IsProper, hstage] at hproper
    exact {
      ids := h.ids
      listed := rfl
      texture := fun _ => rfl
      le := Nat.zero_le _
      live := fun hlive => absurd (hproper.2.1.symm.trans hlive) (by decide) }
  | move m => exact Running.isPaired_move h m

theorem isPaired_run (h : s.running.session.atlas.IsPaired) (hproper : s.IsProper)
    (events : List Event) : (s.run events).running.session.atlas.IsPaired := by
  induction events generalizing s with
  | nil => exact h
  | cons e events ih =>
    have hs := s.step_step e
    exact ih (isPaired_step h hproper hs) (hproper.step hs)

/-- **Lines are one text.** Whatever state an atlas is in, a request of some lines leaves behind
what a request of the text of all lines leaves behind, and its regions, put end to end, are the
regions of that text. If the pages of all groups exist and the atlas was not released, there is one
answer for each line, with one region for each character, and all regions lie on the page of the
group chosen. The pages of all groups exist at any time: with packaging in place or by a worker,
whatever is asked for and however the steps of the calls, of the worker and of a release are
interleaved, there are as many pages listed as groups, and group number `i` has the page with
number `i`. -/
theorem lines_are_one_text :
    (∀ (a : Atlas) (lines : List (List Char)) (size : Int),
      (a.lookup lines size).2 = (a.regions lines.flatten size).2 ∧
        (a.lookup lines size).1.flatten = (a.regions lines.flatten size).1 ∧
        (a.HasPages → a.released = false →
          ∃ id, (a.lookup lines size).2.groups.textureOf? (a.choose lines size).1 = some id ∧
            id < (a.lookup lines size).2.pages.length ∧
            List.Forall₂ (Atlas.Answers id) lines (a.lookup lines size).1)) ∧
    ∀ (settings : AtlasSettings) (stack : FontStack) (k : Packager Nat) (events : List Event),
      let a := ((start settings stack k).run events).running.session.atlas
      a.HasPages ∧ a.textureCount = a.groupCount ∧
        ∀ i < a.groupCount, a.groups.textureOf? i = some i ∧ a.listed[i]? = some i ∧
          ∃ p, a.page? i = some p ∧ p.id = i := by
  constructor
  · intro a lines size
    obtain ⟨hstate, hregions⟩ := a.lookup_flatten lines size
    exact ⟨hstate, hregions, fun hpages hlive => hpages.lookup_answers hlive lines size⟩
  · intro settings stack k events a
    have h : a.IsPaired :=
      isPaired_run (s := start settings stack k) (Atlas.isPaired_ofStack settings stack k) trivial
        events
    refine ⟨h.hasPages, by rw [Atlas.textureCount, h.listed, List.length_range], fun i hi => ?_⟩
    obtain ⟨p, hp⟩ : ∃ p, a.page? i = some p :=
      ⟨_, List.getElem?_eq_getElem (Nat.lt_of_lt_of_le hi h.le)⟩
    refine ⟨by rw [h.texture, if_pos hi], ?_, p, hp, h.id_eq hp⟩
    rw [h.listed, List.getElem?_range hi]

/-- Three lines are asked for while the worker has a glyph in hand. One of the lines is empty, and
the others share a character. -/
theorem three_lines_are_one_text :
    let events : List Event := [.move (.request [['A']] 1), .move .proceed, .move .proceed,
      .move .work]
    let a := ((start .usual Running.spotStack (.threaded .empty)).run events).running.session.atlas
    let lines : List (List Char) := [['A', 'B'], [], ['B', 'C']]
    a.HasPages ∧ a.released = false ∧ a.groupCount = 1 ∧ a.groups.textureOf? 0 = some 0 ∧
      (a.lookup lines 1).2 = (a.regions ['A', 'B', 'B', 'C'] 1).2 ∧
      ∃ id, List.Forall₂ (Atlas.Answers id) lines (a.lookup lines 1).1 := by
  intro events a lines
  have hcount : a.groupCount = 1 := by rfl
  have hlive : a.released = false := by rfl
  obtain ⟨htext, hpaired⟩ := lines_are_one_text
  obtain ⟨hpages, -, htextures⟩ :=
    hpaired .usual Running.spotStack (.threaded .empty) events
  obtain ⟨hstate, -, hanswers⟩ := htext a lines 1
  obtain ⟨id, -, -, hall⟩ := hanswers hpages hlive
  obtain ⟨htexture, -⟩ := htextures 0 (hcount ▸ Nat.one_pos)
  exact ⟨hpages, hlive, hcount, htexture, hstate, id, hall⟩

end Service

end Typecase
