import Bylaws.Proofs.Rendering.Scene
import Bylaws.Proofs.Session.Runs
import Mathlib

/-!
# Pages and outlines show the same

Elements tell some passages if they can be read as these, one after the other, with nothing left
over (`Html.Tells`). The page of a document tells the passages of its scene, in the order in
which headings and what is below them are laid out (`Store.page_matches`), and the display
outline is the same scene as a nested list; so both show the same paragraphs with the same texts
(`Store.page_and_outline_agree`).
-/

namespace Bylaws

namespace Text

/-- The parts of a text with the separator between each two make up the text. -/
theorem intercalate_parts (separator : Char) (s : List Char) :
    List.intercalate [separator] (parts separator s) = s := by
  induction s with
  | nil => rfl
  | cons c rest ih =>
    unfold parts
    cases hp : parts separator rest with
    | nil => exact absurd hp (parts_ne_nil separator rest)
    | cons part more =>
      rw [hp] at ih
      by_cases hc : c = separator
      · rw [if_pos hc, hc, ← ih]
        cases more <;> rfl
      · rw [if_neg hc, ← ih]
        cases more <;> rfl

end Text

namespace Html

/-! ## Reading elements -/

/-- Texts and line breaks spell some characters. -/
inductive Spells : List Element → List Char → Prop where
  | nil : Spells [] []
  | text {es : List Element} {cs : List Char} (s : String) :
      Spells es cs → Spells (.text s :: es) (s.toList ++ cs)
  | lineBreak {es : List Element} {cs : List Char} :
      Spells es cs → Spells (.lineBreak :: es) ('\n' :: cs)

/-- Elements tell some passages, one after the other. Only the blank that parts the text of a
continuation from a text before it belongs to no passage. -/
inductive Tells : List Element → List Passage → Prop where
  | nil : Tells [] []
  | passage {es : List Element} {x : Passage} : Spells es x.text.toList → Tells es [x]
  | continuation {es es' : List Element} {s : String} {xs : List Passage} {x : Passage} :
      Tells (es ++ [.text s]) xs → x.paragraph.continuation = true → Spells es' x.text.toList →
      Tells (es ++ [.text s] ++ .text " " :: es') (xs ++ [x])
  | node {content : List Element} {xs : List Passage} (tag : Tag) :
      Tells content xs → Tells [.node tag content] xs
  | append {es es' : List Element} {xs xs' : List Passage} :
      Tells es xs → Tells es' xs' → Tells (es ++ es') (xs ++ xs')

theorem spells_ofLines : ∀ lines : List (List Char),
    Spells (ofLines lines) (List.intercalate ['\n'] lines)
  | [] => .nil
  | [line] => by
    show Spells ((if line.isEmpty then [] else [.text (String.ofList line)]) ++ []) _
    cases line with
    | nil => exact .nil
    | cons c cs => simpa using Spells.text (String.ofList (c :: cs)) .nil
  | line :: line' :: rest => by
    have hrest := Spells.lineBreak (spells_ofLines (line' :: rest))
    have hcut : List.intercalate ['\n'] (line :: line' :: rest) =
        line ++ '\n' :: List.intercalate ['\n'] (line' :: rest) := rfl
    rw [hcut]
    show Spells ((if line.isEmpty then [] else [.text (String.ofList line)]) ++ _) _
    cases line with
    | nil => exact hrest
    | cons c cs => simpa using Spells.text (String.ofList (c :: cs)) hrest

/-- The elements of a text spell it. -/
theorem spells_ofText (s : String) : Spells (ofText s) s.toList := by
  have h := spells_ofLines (Text.parts '\n' s.toList)
  rwa [Text.intercalate_parts] at h

theorem tells_ofText (x : Passage) : Tells (ofText x.text) [x] := .passage (spells_ofText x.text)

theorem tells_continued {content : List Element} {xs : List Passage} (h : Tells content xs)
    {x : Passage} (hx : x.paragraph.continuation = true) :
    Tells (continued content x.text) (xs ++ [x]) := by
  unfold continued
  split
  · rename_i s hlast
    obtain ⟨es, rfl⟩ := List.getLast?_eq_some_iff.1 hlast
    exact .continuation h hx (spells_ofText x.text)
  · exact .append h (tells_ofText x)

/-! ## Entries and groups -/

/-- What an entry shows itself. -/
def Entry.passage (e : Entry) : Passage := ⟨e.paragraph, e.text⟩

/-- An entry makes a group of its own: its passage over what the elements below it tell. -/
def Entry.Makes (e : Entry) (g : Group) : Prop :=
  g.heads = [e.passage] ∧ ∃ content, e.below = .ok content ∧ Tells content g.below

/-- The entries of a block. -/
def Block.entries : Block → List Entry
  | .headings first rest => first :: rest
  | .items entries => entries

/-- Blocks are laid out for some groups: a block of headings is a group, and each entry of
another block is one by itself. -/
inductive Laid : List Block → List Group → Prop where
  | nil : Laid [] []
  | headings {first : Entry} {rest : List Entry} {gs gs' : List Group} {bs : List Block} :
      (∀ e ∈ first :: rest, e.paragraph.isHeading = true) →
      List.Forall₂ Entry.Makes (first :: rest) gs → Laid bs gs' →
      Laid (.headings first rest :: bs) (⟨gs.flatMap Group.heads, gs.flatMap Group.below⟩ :: gs')
  | items {e : Entry} {entries : List Entry} {gs gs' : List Group} {bs : List Block} :
      (∀ e' ∈ e :: entries, e'.paragraph.isHeading = false) →
      List.Forall₂ Entry.Makes (e :: entries) gs → Laid bs gs' →
      Laid (.items (e :: entries) :: bs) (gs ++ gs')

theorem Laid.single_heading {e : Entry} {g : Group} {bs : List Block} {gs : List Group}
    (h : Laid bs gs) (he : e.Makes g) (hh : e.paragraph.isHeading = true) :
    Laid (.headings e [] :: bs) (g :: gs) := by
  have hl := Laid.headings (by simpa using hh) (.cons he .nil) h
  simpa using hl

theorem Laid.single_item {e : Entry} {g : Group} {bs : List Block} {gs : List Group}
    (h : Laid bs gs) (he : e.Makes g) (hh : e.paragraph.isHeading = false) :
    Laid (.items [e] :: bs) (g :: gs) :=
  .items (by simpa using hh) (.cons he .nil) h

/-- Putting an entry in front of blocks joins it with the groups that they are laid out for. -/
theorem Laid.addEntry {e : Entry} {below : List Passage} {bs : List Block} {gs : List Group}
    (h : Laid bs gs) (he : e.Makes ⟨[e.passage], below⟩) :
    Laid (Html.addEntry e bs) (Group.join e.passage below gs) := by
  unfold Html.addEntry
  by_cases hh : e.paragraph.isHeading = true
  · rw [if_pos hh]
    cases h with
    | nil => exact Laid.nil.single_heading he hh
    | @headings next more gs gs' bs hall hmakes hlaid =>
      cases hmakes with
      | @cons _ g _ gs hg hgs =>
        have hc : (Group.mk ((g :: gs).flatMap Group.heads)
            ((g :: gs).flatMap Group.below)).continues = next.paragraph.continuation := by
          simp [Group.continues, Passage.continuesHeading, hg.1, Entry.passage,
            hall next List.mem_cons_self]
        have hjoin : Group.join e.passage below (⟨(g :: gs).flatMap Group.heads,
            (g :: gs).flatMap Group.below⟩ :: gs') = if next.paragraph.continuation then _ else _ :=
          if_congr (by rw [hc, show e.passage.paragraph.isHeading = true from hh, Bool.true_and])
            rfl rfl
        rw [hjoin]
        dsimp only
        by_cases hn : next.paragraph.continuation = true
        · rw [if_pos hn, if_pos hn]
          exact .headings (List.forall_mem_cons.2 ⟨hh, hall⟩) (.cons he (.cons hg hgs)) hlaid
        · rw [if_neg hn, if_neg hn]
          exact (Laid.headings hall (.cons hg hgs) hlaid).single_heading he hh
    | @items e' entries gs gs' bs hall hmakes hlaid =>
      cases hmakes with
      | @cons _ g _ gs hg hgs =>
        have hc : g.continues = false := by
          simp [Group.continues, Passage.continuesHeading, hg.1, Entry.passage,
            hall e' List.mem_cons_self]
        rw [Group.join_of_not_continues (.inr (by simpa using hc))]
        exact (Laid.items hall (.cons hg hgs) hlaid).single_heading he hh
  · have hh' : e.paragraph.isHeading = false := by simpa using hh
    rw [if_neg hh, Group.join_of_not_continues (.inl hh')]
    cases h with
    | nil => exact Laid.nil.single_item he hh'
    | headings hall hmakes hlaid => exact (Laid.headings hall hmakes hlaid).single_item he hh'
    | items hall hmakes hlaid =>
      exact .items (List.forall_mem_cons.2 ⟨hh', hall⟩) (.cons he hmakes) hlaid

/-- Entries show the topmost passages of a scene, and what is below them tells the rest. -/
inductive Shapes : List Entry → Scene → Prop where
  | nil : Shapes [] .nil
  | cons {e : Entry} {es : List Entry} {B R : Scene} :
      e.Makes ⟨[e.passage], B.arranged⟩ → Shapes es R → Shapes (e :: es) (.cons e.passage B R)

theorem Shapes.laid {es : List Entry} {S : Scene} (h : Shapes es S) :
    Laid (blocks es) S.groups := by
  induction h with
  | nil => exact .nil
  | cons he _ ih => exact ih.addEntry he

theorem Shapes.endTexts {es : List Entry} {S : Scene} (h : Shapes es S) :
    Shapes (Html.endTexts es) S.ended := by
  induction h with
  | nil => exact .nil
  | @cons e es B R he hes ih =>
    have hmark : (if es.isEmpty then "." else ";") = if R.isNil then "." else ";" := by
      cases hes <;> rfl
    unfold Html.endTexts Scene.ended
    rw [← hmark]
    exact .cons ⟨rfl, he.2⟩ ih

/-! ## Elements of groups -/

section Groups

variable (rank : Paragraph → Option Nat)

theorem tells_allBelow {es : List Entry} {gs : List Group} (h : List.Forall₂ Entry.Makes es gs) :
    ∃ content, allBelow es = .ok content ∧ Tells content (gs.flatMap Group.below) := by
  induction h with
  | nil => exact ⟨[], rfl, .nil⟩
  | cons he _ ih =>
    obtain ⟨-, content, hbelow, ht⟩ := he
    obtain ⟨content', hbelow', ht'⟩ := ih
    refine ⟨content ++ content', ?_, .append ht ht'⟩
    rw [allBelow, hbelow, hbelow']
    rfl

theorem tells_headingElement {e : Entry} {g : Group} (h : e.Makes g) :
    Tells [headingElement e] g.heads := by
  rw [h.1]
  exact .node _ (tells_ofText e.passage)

theorem tells_map_headingElement {es : List Entry} {gs : List Group}
    (h : List.Forall₂ Entry.Makes es gs) :
    Tells (es.map headingElement) (gs.flatMap Group.heads) := by
  induction h with
  | nil => exact .nil
  | cons he _ ih => exact .append (tells_headingElement he) ih

theorem tells_headingElements {first : Entry} {rest : List Entry} {gs : List Group}
    (h : List.Forall₂ Entry.Makes (first :: rest) gs) :
    ∃ es, headingElements first rest = .ok es ∧
      Tells es (gs.flatMap Group.heads ++ gs.flatMap Group.below) := by
  obtain ⟨content, hbelow, ht⟩ := tells_allBelow h
  have hheads := tells_map_headingElement h
  unfold headingElements
  rw [hbelow]
  cases rest with
  | nil => exact ⟨_, rfl, .append hheads ht⟩
  | cons next more => exact ⟨_, rfl, .append (.node .headingGroup hheads) ht⟩

/-- The passages of a run of items that is being laid out. -/
inductive Items.Tells : Items → List Passage → Prop where
  | loose {loose : List Element} {xs : List Passage} :
      Html.Tells loose xs → Items.Tells ⟨loose, [], none⟩ xs
  | listed {loose done content : List Element} {n : Nat} {xs ys zs : List Passage} :
      Html.Tells loose xs → Html.Tells done ys → Html.Tells content zs →
      Items.Tells ⟨loose, done, some (n, content)⟩ (xs ++ (ys ++ zs))

/-- Adding an entry to a run adds its passage and those below it. -/
theorem Items.Tells.add {i : Items} {xs : List Passage} (hi : i.Tells xs) {e : Entry} {g : Group}
    (he : e.Makes g) : ∃ j, i.add rank e = .ok j ∧ j.Tells (xs ++ (g.heads ++ g.below)) := by
  obtain ⟨hheads, content, hbelow, ht⟩ := he
  have hown : Html.Tells (ofText e.text ++ content) (g.heads ++ g.below) := by
    rw [hheads]
    exact .append (tells_ofText e.passage) ht
  unfold Items.add
  rw [hbelow]
  by_cases hc : e.paragraph.continuation = true
  · rw [if_pos hc]
    cases hi with
    | loose hloose => exact ⟨_, rfl, .loose (.append hloose (.node .paragraph hown))⟩
    | @listed loose done current n xs ys zs hloose hdone hcurrent =>
      refine ⟨_, rfl, ?_⟩
      have hjoined : Html.Tells (continued current e.text ++ content)
          (zs ++ (g.heads ++ g.below)) := by
        rw [hheads, ← List.append_assoc]
        exact .append (tells_continued (x := e.passage) hcurrent hc) ht
      have hlisted := Items.Tells.listed (n := n) hloose hdone hjoined
      rwa [← List.append_assoc ys, ← List.append_assoc xs] at hlisted
  · rw [if_neg hc]
    cases hi with
    | loose hloose =>
      refine ⟨_, rfl, ?_⟩
      have hlisted := Items.Tells.listed (n := (rank e.paragraph).getD 0) hloose .nil hown
      rwa [List.nil_append] at hlisted
    | @listed loose done current n xs ys zs hloose hdone hcurrent =>
      refine ⟨_, rfl, ?_⟩
      have hlisted := Items.Tells.listed (n := (rank e.paragraph).getD 0) hloose
        (.append hdone (.node (.item n) hcurrent)) hown
      rwa [← List.append_assoc xs] at hlisted

theorem Items.Tells.elements {i : Items} {xs : List Passage} (h : i.Tells xs) :
    Html.Tells i.elements xs := by
  cases h with
  | loose hloose => exact hloose
  | @listed loose done content n xs ys zs hloose hdone hcontent =>
    exact .append hloose (.node .orderedList (.append hdone (.node (.item n) hcontent)))

theorem Items.Tells.addAll {es : List Entry} {gs : List Group}
    (h : List.Forall₂ Entry.Makes es gs) {i : Items} {xs : List Passage} (hi : i.Tells xs) :
    ∃ j, es.foldlM (Items.add rank) i = .ok j ∧ j.Tells (xs ++ Group.inOrder gs) := by
  induction h generalizing i xs with
  | nil => exact ⟨i, rfl, by simpa [Group.inOrder] using hi⟩
  | cons he _ ih =>
    obtain ⟨j, hj, hjt⟩ := hi.add rank he
    obtain ⟨k, hk, hkt⟩ := ih hjt
    refine ⟨k, ?_, by rwa [Group.inOrder_cons, ← List.append_assoc]⟩
    rw [List.foldlM_cons, hj]
    exact hk

theorem tells_itemElements {es : List Entry} {gs : List Group}
    (h : List.Forall₂ Entry.Makes es gs) :
    ∃ elements, itemElements rank es = .ok elements ∧ Tells elements (Group.inOrder gs) := by
  obtain ⟨j, hj, hjt⟩ := Items.Tells.addAll rank h (.loose .nil)
  unfold itemElements
  rw [hj]
  exact ⟨_, rfl, hjt.elements⟩

/-- Blocks that are laid out for some groups tell their passages. -/
theorem Laid.tells {bs : List Block} {gs : List Group} (h : Laid bs gs) :
    ∃ es, blockElements rank bs = .ok es ∧ Tells es (Group.inOrder gs) := by
  induction h with
  | nil => exact ⟨[], rfl, .nil⟩
  | headings _ hmakes _ ih =>
    obtain ⟨es, hes, ht⟩ := tells_headingElements hmakes
    obtain ⟨es', hes', ht'⟩ := ih
    refine ⟨es ++ es', ?_, .append ht ht'⟩
    rw [blockElements, Block.elements, hes, hes']
    rfl
  | items _ hmakes _ ih =>
    obtain ⟨es, hes, ht⟩ := tells_itemElements rank hmakes
    obtain ⟨es', hes', ht'⟩ := ih
    refine ⟨es ++ es', ?_, Group.inOrder_append _ _ ▸ .append ht ht'⟩
    rw [blockElements, Block.elements, hes, hes']
    rfl

/-! ## Failure -/

variable {rank}

theorem entries_addEntry (e : Entry) (bs : List Block) :
    (addEntry e bs).flatMap Block.entries = e :: bs.flatMap Block.entries := by
  unfold addEntry
  split
  · split
    · split <;> rfl
    · rfl
  · split <;> rfl

/-- Every entry is in a block, in its turn. -/
theorem entries_blocks (es : List Entry) : (blocks es).flatMap Block.entries = es := by
  induction es with
  | nil => rfl
  | cons e es ih =>
    show (addEntry e (blocks es)).flatMap Block.entries = e :: es
    rw [entries_addEntry, ih]

theorem below_of_allBelow {es : List Entry} {content : List Element}
    (h : allBelow es = .ok content) : ∀ e ∈ es, ∃ below, e.below = .ok below := by
  induction es generalizing content with
  | nil => exact fun e he => absurd he List.not_mem_nil
  | cons e es ih =>
    obtain ⟨below, hbelow, h⟩ := Fault.bind_eq_ok h
    obtain ⟨content', hcontent, -⟩ := Fault.bind_eq_ok h
    exact List.forall_mem_cons.2 ⟨⟨below, hbelow⟩, ih hcontent⟩

theorem below_of_add {i j : Items} {e : Entry} (h : i.add rank e = .ok j) :
    ∃ below, e.below = .ok below := by
  unfold Items.add at h
  cases hb : e.below with
  | ok below => exact ⟨below, rfl⟩
  | error f =>
    rw [hb] at h
    split at h
    · split at h <;> exact nomatch h
    · exact nomatch h

theorem below_of_addAll {es : List Entry} {i j : Items}
    (h : es.foldlM (Items.add rank) i = .ok j) : ∀ e ∈ es, ∃ below, e.below = .ok below := by
  induction es generalizing i with
  | nil => exact fun e he => absurd he List.not_mem_nil
  | cons e es ih =>
    rw [List.foldlM_cons] at h
    obtain ⟨k, hk, h⟩ := Fault.bind_eq_ok h
    exact List.forall_mem_cons.2 ⟨below_of_add hk, ih h⟩

theorem below_of_elements {b : Block} {elements : List Element}
    (h : b.elements rank = .ok elements) : ∀ e ∈ b.entries, ∃ below, e.below = .ok below := by
  cases b with
  | headings first rest =>
    obtain ⟨content, hcontent, -⟩ := Fault.bind_eq_ok h
    exact below_of_allBelow hcontent
  | items entries =>
    unfold Block.elements itemElements at h
    dsimp only at h
    cases hj : entries.foldlM (Items.add rank) {} with
    | error e =>
      rw [hj] at h
      exact nomatch h
    | ok j => exact below_of_addAll hj

/-- Blocks have elements only if what is below each of their entries has. -/
theorem below_of_blockElements {bs : List Block} {elements : List Element}
    (h : blockElements rank bs = .ok elements) :
    ∀ e ∈ bs.flatMap Block.entries, ∃ below, e.below = .ok below := by
  induction bs generalizing elements with
  | nil => exact fun e he => absurd he List.not_mem_nil
  | cons b bs ih =>
    obtain ⟨es, hes, h⟩ := Fault.bind_eq_ok h
    obtain ⟨es', hes', -⟩ := Fault.bind_eq_ok h
    rw [List.flatMap_cons, List.forall_mem_append]
    exact ⟨below_of_elements hes, ih hes'⟩

theorem below_of_endTexts {es : List Entry}
    (h : ∀ e ∈ endTexts es, ∃ below, e.below = .ok below) :
    ∀ e ∈ es, ∃ below, e.below = .ok below := by
  induction es with
  | nil => exact fun e he => absurd he List.not_mem_nil
  | cons e es ih =>
    unfold endTexts at h
    rw [List.forall_mem_cons] at h ⊢
    exact ⟨h.1, ih h.2⟩

end Groups

end Html

namespace Store

variable {s : Store} {v : View}

/-! ## The page -/

/-- Elements that are asked for are there if and only if a scene is, whose passages they tell. -/
structure Matches (x : Except Fault (List Html.Element)) (y : Except Fault Scene) : Prop where
  tells : ∀ S, y = .ok S → ∃ es, x = .ok es ∧ Html.Tells es S.arranged
  exists_scene : ∀ es, x = .ok es → ∃ S, y = .ok S

theorem shapes_shownEntries {xs : List (Paragraph × Except Fault (List Html.Element))}
    {ys : List (Paragraph × Except Fault Scene)}
    (h : List.Forall₂ (fun x y => x.1 = y.1 ∧ Matches x.2 y.2) xs ys) {S : Scene}
    (hS : s.sceneOf v ys = .ok S) :
    ∃ es, Html.shownEntries s v xs = .ok es ∧ Html.Shapes es S := by
  induction h generalizing S with
  | nil =>
    obtain rfl := Except.ok.inj hS
    exact ⟨[], rfl, .nil⟩
  | @cons x y xs ys hx _ ih =>
    obtain ⟨p, inner⟩ := x
    obtain ⟨q, below⟩ := y
    obtain ⟨rfl, hm⟩ : p = q ∧ Matches inner below := hx
    unfold Html.shownEntries
    rcases sceneOf_cons_eq_ok hS with ⟨hp, hS⟩ | ⟨text, B, R, -, ht, hB, hR, rfl⟩
    · rw [displayText_of_omitted hp]
      exact ih hS
    · obtain ⟨es, hes, hshapes⟩ := ih hR
      obtain ⟨content, hcontent, htells⟩ := hm.tells B hB
      rw [ht, hes]
      exact ⟨_, rfl, .cons (e := ⟨p, text, inner⟩) ⟨rfl, content, hcontent, htells⟩ hshapes⟩

theorem exists_sceneOf {xs : List (Paragraph × Except Fault (List Html.Element))}
    {ys : List (Paragraph × Except Fault Scene)}
    (h : List.Forall₂ (fun x y => x.1 = y.1 ∧ Matches x.2 y.2) xs ys) {es : List Html.Entry}
    (hes : Html.shownEntries s v xs = .ok es) (hb : ∀ e ∈ es, ∃ below, e.below = .ok below) :
    ∃ S, s.sceneOf v ys = .ok S := by
  induction h generalizing es with
  | nil => exact ⟨.nil, rfl⟩
  | @cons x y xs ys hx _ ih =>
    obtain ⟨p, inner⟩ := x
    obtain ⟨q, below⟩ := y
    obtain ⟨rfl, hm⟩ : p = q ∧ Matches inner below := hx
    obtain ⟨shown, ht, hes⟩ := Fault.bind_eq_ok hes
    unfold sceneOf
    rw [ht]
    cases shown with
    | none => exact ih hes hb
    | some text =>
      obtain ⟨es', hes', hes⟩ := Fault.bind_eq_ok hes
      obtain rfl := Except.ok.inj hes
      rw [List.forall_mem_cons] at hb
      obtain ⟨content, hcontent⟩ := hb.1
      obtain ⟨B, hB⟩ := hm.exists_scene content hcontent
      obtain ⟨R, hR⟩ := ih hes' hb.2
      rw [hB, hR]
      exact ⟨_, rfl⟩

theorem tells_sequence {xs : List (Paragraph × Except Fault (List Html.Element))}
    {ys : List (Paragraph × Except Fault Scene)}
    (h : List.Forall₂ (fun x y => x.1 = y.1 ∧ Matches x.2 y.2) xs ys) {S : Scene}
    (hS : s.sceneOf v ys = .ok S) (listed : Bool) :
    ∃ es, Html.sequence s v listed xs = .ok es ∧
      Html.Tells es (if listed then S.ended else S).arranged := by
  obtain ⟨es, hes, hshapes⟩ := shapes_shownEntries h hS
  unfold Html.sequence
  rw [hes]
  cases listed with
  | false => exact hshapes.laid.tells _
  | true => exact hshapes.endTexts.laid.tells _

theorem exists_sceneOf_of_sequence {xs : List (Paragraph × Except Fault (List Html.Element))}
    {ys : List (Paragraph × Except Fault Scene)}
    (h : List.Forall₂ (fun x y => x.1 = y.1 ∧ Matches x.2 y.2) xs ys) {listed : Bool}
    {elements : List Html.Element} (he : Html.sequence s v listed xs = .ok elements) :
    ∃ S, s.sceneOf v ys = .ok S := by
  obtain ⟨es, hes, he⟩ := Fault.bind_eq_ok he
  refine exists_sceneOf h hes ?_
  have hb := Html.below_of_blockElements he
  rw [Html.entries_blocks] at hb
  cases listed with
  | false => exact hb
  | true => exact Html.below_of_endTexts hb

theorem matches_below {p : Paragraph} {xs : List (Paragraph × Except Fault (List Html.Element))}
    {ys : List (Paragraph × Except Fault Scene)}
    (h : List.Forall₂ (fun x y => x.1 = y.1 ∧ Matches x.2 y.2) xs ys) :
    Matches (Html.sequence s v p.list xs) (s.sceneBelow v p ys) where
  tells := by
    intro S hS
    obtain ⟨R, hR, rfl⟩ := sceneBelow_eq_ok hS
    exact tells_sequence h hR p.list
  exists_scene := by
    intro es hes
    obtain ⟨R, hR⟩ := exists_sceneOf_of_sequence h hes
    unfold sceneBelow
    rw [hR]
    exact ⟨_, rfl⟩

/-- The content of a page tells the passages of the scene. -/
theorem page_matches (s : Store) (v : View) :
    Matches (Html.sequence s v false
      (foldForest (fun p => Html.sequence s v p.list) s.forest)) (s.scene v) := by
  have h := forall₂_foldForest (R := Matches) (F := fun p => Html.sequence s v p.list)
    (G := s.sceneBelow v) (fun _ _ _ hx => matches_below hx) s.forest
  exact ⟨fun S hS => tells_sequence h hS false, fun es hes => exists_sceneOf_of_sequence h hes⟩

/-- A document shows one scene: the display outline has its passages as a nested list, and the
page tells them in its own order. They are the paragraphs of which neither they nor any above them
are left out, each once, with the texts that they show. Only where a number has to be written in a
style that does not exist there may be no scene, and then there is neither outline nor page. -/
theorem page_and_outline_agree (h : s.Reachable) (v : View) :
    (¬ v.Writable ∧ (∃ e, s.outline v .display = .error e) ∧ ∃ e, s.html v = .error e) ∨
    ∃ (S : Scene) (content : List Html.Element), s.outline v .display = .ok S.items ∧
      s.html v = .ok (String.ofList (Html.Element.node .section_ content).write) ∧
      Html.Tells content S.arranged ∧ S.arranged.Perm S.passages ∧
      ((∀ x ∈ S.passages, x.continuesHeading = false) → S.arranged = S.passages) ∧
      S.passages.map (·.paragraph) = s.documentOrder.filter (s.isShown v.choices) ∧
      (S.passages.map (·.paragraph.id)).Nodup ∧ ∀ x ∈ S.passages, x.ShownBy s v := by
  obtain ⟨f, hf⟩ := h.exists_shows
  have hpage := page_matches s v
  have houtline := outline_eq_items s v
  rcases hS : s.scene v with e | S
  · have hv : ¬ v.Writable := by
      intro hv
      obtain ⟨S, hS'⟩ := hf.exists_scene hv
      exact nomatch hS'.symm.trans hS
    rw [hS] at hpage houtline
    refine .inl ⟨hv, ⟨e, houtline⟩, ?_⟩
    rcases hes : Html.sequence s v false
      (foldForest (fun p => Html.sequence s v p.list) s.forest) with e' | es
    · refine ⟨e', ?_⟩
      unfold html page
      dsimp only
      rw [hes]
      rfl
    · obtain ⟨S, hS'⟩ := hpage.exists_scene es hes
      exact nomatch hS'
  · rw [hS] at houtline
    obtain ⟨content, hcontent, htells⟩ := hpage.tells S hS
    have hparagraphs := hf.map_paragraph_passages hS
    refine .inr ⟨S, content, houtline, ?_, htells, S.arranged_perm, Scene.arranged_eq_passages,
      hparagraphs, ?_, allShown_scene s v S hS⟩
    · unfold html page
      dsimp only
      rw [hcontent]
      rfl
    · have hids : (S.passages.map (·.paragraph.id)) =
          (S.passages.map (·.paragraph)).map (·.id) := by
        rw [List.map_map]
        rfl
      have hnodup := (hf.documentOrder_perm.map (·.id)).trans hf.ids_perm
      rw [hids, hparagraphs]
      exact (List.Sublist.map _ List.filter_sublist).nodup (hnodup.nodup_iff.2 hf.nodup)

/-- Two headings that continue one another, with a paragraph below each, and a paragraph after
them that continues nothing. -/
def headed : Store :=
  (Session.run { store := { documentId := "d" } }
    [.edit (.append { body := "A", heading := some 1 } none),
      .edit (.append { body := "a" } (some 1)),
      .edit (.append { body := "B", heading := some 2, continuation := true } none),
      .edit (.append { body := "b" } (some 3)),
      .edit (.append { body := "c", continuation := true } none)]).store

theorem reachable_headed : headed.Reachable :=
  ⟨_, _, fresh_empty .memory "d", by simp [Event.Holdable, Edit.Holdable], rfl, rfl⟩

theorem page_and_outline_agree_headed :
    ∃ (S : Scene) (content : List Html.Element),
      headed.outline { withNumbers := true } .display = .ok S.items ∧
      headed.html { withNumbers := true } =
        .ok (String.ofList (Html.Element.node .section_ content).write) ∧
      S.items = [.text "A", .list [.text "1 a"], .text "B", .list [.text "1 b"], .text "c"] ∧
      String.ofList (Html.Element.node .section_ content).write =
        "<section><hgroup><h1>A</h1><h2>B</h2></hgroup><ol><li value=\"1\">1 a</li></ol>" ++
        "<ol><li value=\"1\">1 b</li></ol><p>c</p></section>" ∧
      Html.Tells content S.arranged ∧ S.arranged.Perm S.passages ∧
      S.passages.map (·.paragraph) =
        headed.documentOrder.filter (headed.isShown {}) ∧
      S.passages.map (·.paragraph.id) = [1, 2, 3, 4, 5] := by
  have houtline : headed.outline { withNumbers := true } .display =
      .ok [.text "A", .list [.text "1 a"], .text "B", .list [.text "1 b"], .text "c"] := by cbv
  have hhtml : headed.html { withNumbers := true } =
      .ok ("<section><hgroup><h1>A</h1><h2>B</h2></hgroup><ol><li value=\"1\">1 a</li></ol>" ++
        "<ol><li value=\"1\">1 b</li></ol><p>c</p></section>") := by cbv
  have hids : (headed.documentOrder.filter (headed.isShown {})).map (·.id) = [1, 2, 3, 4, 5] := by
    cbv
  rcases page_and_outline_agree reachable_headed { withNumbers := true } with
    ⟨-, ⟨e, he⟩, -⟩ | ⟨S, content, ho, hh, htells, hperm, -, hshown, -⟩
  · exact absurd (houtline.symm.trans he) (by simp)
  · refine ⟨S, content, ho, hh, Except.ok.inj (ho.symm.trans houtline),
      Except.ok.inj (hh.symm.trans hhtml), htells, hperm, hshown, ?_⟩
    rw [← hids, ← hshown, List.map_map]
    rfl

end Store

end Bylaws
