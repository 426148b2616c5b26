import Bylaws.Proofs.Rendering.Reading

/-!
# Portions of a page

A page gives every paragraph that is shown a portion of its own, but for headings that continue
one another, which share one (`Scene.portions`). `Html.Lays` reads elements as portions, one after
the other: every item of a list, every heading and every group of headings is exactly one portion.
What is laid out in this way is orderly (`Html.Lays.orderly`): lists have items only and at least
one, and groups have headings only and at least two. The page of a document lays out the portions
of its scene (`Store.lays_page`).
-/

namespace Bylaws

/-- What a page makes of a paragraph that is shown, or of headings that continue one another. A
paragraph that continues another one stands in the item before it, or by itself. -/
inductive Portion where
  | headings (first : Passage) (rest : List Passage)
  | item (value : Nat) (x : Passage)
  | continuation (x : Passage)

namespace Portion

def passages : Portion → List Passage
  | headings first rest => first :: rest
  | item _ x => [x]
  | continuation x => [x]

/-- The portion of a passage by itself. An item has the rank of its paragraph as its value. -/
def single (rank : Paragraph → Option Nat) (x : Passage) : Portion :=
  if x.paragraph.isHeading then headings x []
  else if x.paragraph.continuation then continuation x
  else item ((rank x.paragraph).getD 0) x

/-- Puts a passage and what is below it in front of the portions after it: a heading joins the
headings that continue it, and what is below it then comes after all of them. -/
def join (rank : Paragraph → Option Nat) (x : Passage) (below : List Portion) :
    List Portion → List Portion
  | headings first rest :: after =>
    if x.paragraph.isHeading && first.paragraph.continuation then
      headings x (first :: rest) :: (below ++ after)
    else single rank x :: (below ++ headings first rest :: after)
  | after => single rank x :: (below ++ after)

section Join

variable {rank : Paragraph → Option Nat} {x : Passage} {below ps : List Portion}

theorem passages_single : (single rank x).passages = [x] := by
  unfold single
  split
  · rfl
  · split <;> rfl

theorem single_ne_headings (hx : x.paragraph.isHeading = false) {first : Passage}
    {rest : List Passage} : single rank x ≠ headings first rest := by
  unfold single
  rw [if_neg (by simp [hx])]
  split <;> exact nofun

theorem single_of_isHeading (hx : x.paragraph.isHeading = true) :
    single rank x = headings x [] := if_pos hx

/-- A passage is a portion by itself unless it is a heading before one that continues it. -/
theorem join_of_alone (h : x.paragraph.isHeading = true → ∀ first rest after,
    ps = headings first rest :: after → first.paragraph.continuation = false) :
    join rank x below ps = single rank x :: (below ++ ps) := by
  unfold join
  split
  · rename_i first rest after
    refine if_neg fun hc => ?_
    rw [Bool.and_eq_true] at hc
    simp [h hc.1 first rest after rfl] at hc
  · rfl

/-- A heading joins the portions after it, or is one by itself. -/
theorem join_of_isHeading (hx : x.paragraph.isHeading = true) :
    join rank x below ps = headings x [] :: (below ++ ps) ∨
      ∃ first rest after, ps = headings first rest :: after ∧
        first.paragraph.continuation = true ∧
        join rank x below ps = headings x (first :: rest) :: (below ++ after) := by
  unfold join
  rw [single_of_isHeading hx]
  split
  · rename_i first rest after
    cases hc : first.paragraph.continuation with
    | false => exact .inl (by simp)
    | true => exact .inr ⟨first, rest, after, rfl, hc, by simp [hx]⟩
  · exact .inl rfl

/-- Joining changes the order of passages and loses none. -/
theorem passages_join_perm :
    ((join rank x below ps).flatMap passages).Perm
      (x :: (below.flatMap passages ++ ps.flatMap passages)) := by
  unfold join
  split
  · rename_i first rest after
    split
    · simp only [List.flatMap_cons, List.flatMap_append, passages, List.cons_append]
      have hswap : (first :: rest ++ below.flatMap passages).Perm
          (below.flatMap passages ++ first :: rest) := List.perm_append_comm
      simpa using (hswap.append_right (after.flatMap passages)).cons x
    · simp [passages_single]
  · simp [passages_single]

end Join

end Portion

namespace Scene

variable (rank : Paragraph → Option Nat)

/-- The portions of a scene in the order of a page. -/
def portions : Scene → List Portion
  | nil => []
  | cons x below rest => Portion.join rank x below.portions rest.portions

theorem passages_portions_perm (S : Scene) :
    ((S.portions rank).flatMap Portion.passages).Perm S.passages := by
  induction S with
  | nil => rfl
  | cons x below rest ih₁ ih₂ =>
    exact Portion.passages_join_perm.trans (.cons x (ih₁.append ih₂))

end Scene

namespace Html

/-! ## Orderly elements -/

def Element.isItem : Element → Bool
  | .node (.item _) _ => true
  | _ => false

def Element.isHeading : Element → Bool
  | .node (.heading _) _ => true
  | _ => false

/-- What an element may contain: a list has items and nothing else, a group of headings two or
more of them and nothing else. Headings have one of six levels. -/
def Tag.Admits : Tag → List Element → Prop
  | .orderedList, content => content ≠ [] ∧ ∀ e ∈ content, e.isItem = true
  | .headingGroup, content => 2 ≤ content.length ∧ ∀ e ∈ content, e.isHeading = true
  | .heading level, _ => 1 ≤ level ∧ level ≤ deepestHeading
  | _, _ => True

mutual

/-- Every element contains what it may contain. -/
def Element.Orderly : Element → Prop
  | .text _ => True
  | .lineBreak => True
  | .node tag content => tag.Admits content ∧ AllOrderly content

def AllOrderly : List Element → Prop
  | [] => True
  | e :: rest => e.Orderly ∧ AllOrderly rest

end

theorem allOrderly_append {es es' : List Element} :
    AllOrderly (es ++ es') ↔ AllOrderly es ∧ AllOrderly es' := by
  induction es with
  | nil => simp [AllOrderly]
  | cons e es ih => simp only [List.cons_append, AllOrderly, ih, and_assoc]

theorem allOrderly_ofLines : ∀ lines : List (List Char), AllOrderly (ofLines lines)
  | [] => trivial
  | line :: rest => by
    have hline : AllOrderly (if line.isEmpty then [] else [.text (String.ofList line)]) := by
      split
      · trivial
      · exact ⟨trivial, trivial⟩
    refine allOrderly_append.2 ⟨hline, ?_⟩
    cases rest with
    | nil => trivial
    | cons next more => exact ⟨trivial, allOrderly_ofLines (next :: more)⟩

theorem allOrderly_ofText (s : String) : AllOrderly (ofText s) := allOrderly_ofLines _

/-! ## Elements as portions -/

/-- The heading of a passage. -/
def headingOf (x : Passage) : Element :=
  .node (.heading (min (x.paragraph.heading.getD 1).toNat deepestHeading)) (ofText x.text)

/-- Elements are some portions, one after the other. The items of a list, headings and groups of
headings are nowhere but in the portions that have them. -/
inductive Lays : List Element → List Portion → Prop where
  | nil : Lays [] []
  | append {es es' : List Element} {ps ps' : List Portion} :
      Lays es ps → Lays es' ps' → Lays (es ++ es') (ps ++ ps')
  | heading (x : Passage) : Lays [headingOf x] [.headings x []]
  | headingGroup (x y : Passage) (rest : List Passage) :
      Lays [.node .headingGroup ((x :: y :: rest).map headingOf)] [.headings x (y :: rest)]
  | orderedList {items : List Element} {ps : List Portion} :
      Lays items ps → items ≠ [] → (∀ e ∈ items, e.isItem = true) →
      Lays [.node .orderedList items] ps
  | item {es : List Element} {ps : List Portion} (n : Nat) (x : Passage) :
      Lays es ps → Lays [.node (.item n) (ofText x.text ++ es)] (.item n x :: ps)
  | alone {es : List Element} {ps : List Portion} (x : Passage) :
      Lays es ps → Lays [.node .paragraph (ofText x.text ++ es)] (.continuation x :: ps)
  | within (x : Passage) : Lays (ofText x.text) [.continuation x]
  | parted (x : Passage) : Lays (.text " " :: ofText x.text) [.continuation x]

theorem orderly_headingOf {x : Passage} (h : Leveled x.paragraph) : (headingOf x).Orderly := by
  refine ⟨?_, allOrderly_ofText x.text⟩
  have hlevel : 1 ≤ x.paragraph.heading.getD 1 := by
    cases hh : x.paragraph.heading with
    | none => simp
    | some n => exact h n hh
  unfold Tag.Admits deepestHeading
  omega

theorem allOrderly_map_headingOf {xs : List Passage} (h : ∀ x ∈ xs, Leveled x.paragraph) :
    AllOrderly (xs.map headingOf) := by
  induction xs with
  | nil => trivial
  | cons x xs ih =>
    rw [List.forall_mem_cons] at h
    exact ⟨orderly_headingOf h.1, ih h.2⟩

/-- Elements that are portions are orderly, if their headings have a level of at least one. -/
theorem Lays.orderly {es : List Element} {ps : List Portion} (h : Lays es ps)
    (hl : ∀ x ∈ ps.flatMap Portion.passages, Leveled x.paragraph) : AllOrderly es := by
  induction h with
  | nil => trivial
  | append _ _ ih₁ ih₂ =>
    rw [List.flatMap_append, List.forall_mem_append] at hl
    exact allOrderly_append.2 ⟨ih₁ hl.1, ih₂ hl.2⟩
  | heading x => exact ⟨orderly_headingOf (hl x (by simp [Portion.passages])), trivial⟩
  | headingGroup x y rest =>
    have hall : ∀ z ∈ x :: y :: rest, Leveled z.paragraph := by
      simpa [Portion.passages] using hl
    refine ⟨⟨⟨by simp, ?_⟩, allOrderly_map_headingOf hall⟩, trivial⟩
    simp [headingOf, Element.isHeading]
  | orderedList _ hne hitems ih => exact ⟨⟨⟨hne, hitems⟩, ih hl⟩, trivial⟩
  | item n x _ ih =>
    rw [List.flatMap_cons, List.forall_mem_append] at hl
    exact ⟨⟨trivial, allOrderly_append.2 ⟨allOrderly_ofText x.text, ih hl.2⟩⟩, trivial⟩
  | alone x _ ih =>
    rw [List.flatMap_cons, List.forall_mem_append] at hl
    exact ⟨⟨trivial, allOrderly_append.2 ⟨allOrderly_ofText x.text, ih hl.2⟩⟩, trivial⟩
  | within x => exact allOrderly_ofText x.text
  | parted x => exact ⟨trivial, allOrderly_ofText x.text⟩

/-! ## Entries and blocks -/

@[simp] theorem Entry.passage_paragraph (e : Entry) : e.passage.paragraph = e.paragraph := rfl

@[simp] theorem Entry.passage_text (e : Entry) : e.passage.text = e.text := rfl

/-- What is below an entry are some portions. -/
def Entry.Carries (e : Entry) (ps : List Portion) : Prop :=
  ∃ content, e.below = .ok content ∧ Lays content ps

/-- Entries show the topmost passages of a scene, and what is below them are its other portions. -/
inductive Fits (rank : Paragraph → Option Nat) : List Entry → Scene → Prop where
  | nil : Fits rank [] .nil
  | cons {e : Entry} {es : List Entry} {B R : Scene} :
      e.Carries (B.portions rank) → Fits rank es R → Fits rank (e :: es) (.cons e.passage B R)

/-- An entry that is no heading makes some portions: its own and those below it. -/
def Entry.Yields (rank : Paragraph → Option Nat) (e : Entry) (ps : List Portion) : Prop :=
  e.paragraph.isHeading = false ∧
    ∃ below, e.Carries below ∧ ps = Portion.single rank e.passage :: below

/-- Blocks are laid out for some portions. -/
inductive Blocked (rank : Paragraph → Option Nat) : List Block → List Portion → Prop where
  | nil : Blocked rank [] []
  | headings {first : Entry} {rest : List Entry} {below : List (List Portion)} {bs : List Block}
      {ps : List Portion} :
      List.Forall₂ Entry.Carries (first :: rest) below → Blocked rank bs ps →
      Blocked rank (.headings first rest :: bs)
        (.headings first.passage (rest.map Entry.passage) :: (below.flatten ++ ps))
  | items {e : Entry} {entries : List Entry} {made : List (List Portion)} {bs : List Block}
      {ps : List Portion} :
      List.Forall₂ (Entry.Yields rank) (e :: entries) made → Blocked rank bs ps →
      Blocked rank (.items (e :: entries) :: bs) (made.flatten ++ ps)

section Layout

variable {rank : Paragraph → Option Nat}

/-- Putting an entry in front of blocks joins it with the portions that they are laid out for. -/
theorem Blocked.addEntry {e : Entry} {below : List Portion} {bs : List Block} {ps : List Portion}
    (h : Blocked rank bs ps) (he : e.Carries below) :
    Blocked rank (Html.addEntry e bs) (Portion.join rank e.passage below ps) := by
  have alone : (e.paragraph.isHeading = true → ∀ first rest after,
      ps = .headings first rest :: after → first.paragraph.continuation = false) →
      (e.paragraph.isHeading = true → Blocked rank (.headings e [] :: bs)
        (Portion.join rank e.passage below ps)) ∧
      (e.paragraph.isHeading = false → Blocked rank (.items [e] :: bs)
        (Portion.join rank e.passage below ps)) := by
    intro halone
    rw [Portion.join_of_alone halone]
    refine ⟨fun hh => ?_, fun hh => ?_⟩
    · simpa [Portion.single_of_isHeading (x := e.passage) hh] using
        Blocked.headings (.cons he .nil) h
    · simpa using Blocked.items (.cons ⟨hh, below, he, rfl⟩ .nil) h
  unfold Html.addEntry
  by_cases hh : e.paragraph.isHeading = true
  · rw [if_pos hh]
    cases h with
    | nil => exact (alone (by simp)).1 hh
    | @headings next more below' bs ps hbelow h =>
      by_cases hn : next.paragraph.continuation = true
      · simpa [Portion.join, hh, hn] using Blocked.headings (.cons he hbelow) h
      · have hlast := (alone (by simp; simp [hn])).1 hh
        simpa [hn] using hlast
    | @items e' entries made bs ps hmade h =>
      refine (alone fun _ first rest after heq => ?_).1 hh
      cases hmade with
      | cons hy _ =>
        obtain ⟨hi, below', -, rfl⟩ := hy
        exact absurd (List.cons.inj heq).1 (Portion.single_ne_headings hi)
  · have hh' : e.paragraph.isHeading = false := by simpa using hh
    rw [if_neg hh]
    cases h with
    | nil => exact (alone (by simp [hh'])).2 hh'
    | headings hbelow h => exact (alone (by simp [hh'])).2 hh'
    | items hmade h =>
      rw [Portion.join_of_alone (by simp [hh'])]
      simpa using Blocked.items (.cons ⟨hh', below, he, rfl⟩ hmade) h

theorem Fits.blocked {es : List Entry} {S : Scene} (h : Fits rank es S) :
    Blocked rank (blocks es) (S.portions rank) := by
  induction h with
  | nil => exact .nil
  | cons he _ ih => exact ih.addEntry he

theorem Fits.endTexts {es : List Entry} {S : Scene} (h : Fits rank es S) :
    Fits rank (Html.endTexts es) S.ended := by
  induction h with
  | nil => exact .nil
  | @cons e es B R he hes ih =>
    have hmark : (if es.isEmpty then "." else ";") = if R.isNil then "." else ";" := by
      cases hes <;> rfl
    unfold Html.endTexts Scene.ended
    rw [← hmark]
    exact .cons he ih

/-! ## Elements of blocks -/

theorem lays_allBelow {es : List Entry} {below : List (List Portion)}
    (h : List.Forall₂ Entry.Carries es below) :
    ∃ content, allBelow es = .ok content ∧ Lays content below.flatten := by
  induction h with
  | nil => exact ⟨[], rfl, .nil⟩
  | cons he _ ih =>
    obtain ⟨content, hc, hl⟩ := he
    obtain ⟨content', hc', hl'⟩ := ih
    refine ⟨content ++ content', ?_, .append hl hl'⟩
    rw [allBelow, hc, hc']
    rfl

theorem lays_headingElements {first : Entry} {rest : List Entry} {below : List (List Portion)}
    (h : List.Forall₂ Entry.Carries (first :: rest) below) :
    ∃ es, headingElements first rest = .ok es ∧
      Lays es (.headings first.passage (rest.map Entry.passage) :: below.flatten) := by
  obtain ⟨content, hc, hl⟩ := lays_allBelow h
  have hmap : ∀ es : List Entry, es.map headingElement = (es.map Entry.passage).map headingOf := by
    intro es
    rw [List.map_map]
    rfl
  unfold headingElements
  rw [hc]
  cases rest with
  | nil => exact ⟨_, rfl, .append (.heading first.passage) hl⟩
  | cons next more =>
    refine ⟨_, rfl, ?_⟩
    rw [hmap]
    exact .append (.headingGroup first.passage next.passage (more.map Entry.passage)) hl

/-- The portions of a run of items that is being laid out. The item in progress begins with the
text of its own passage. -/
inductive Items.Lays : Items → List Portion → Prop where
  | loose {loose : List Element} {ps : List Portion} :
      Html.Lays loose ps → Items.Lays ⟨loose, [], none⟩ ps
  | listed {loose done content : List Element} {n : Nat} {x : Passage} {ps qs below : List Portion} :
      Html.Lays loose ps → Html.Lays done qs → (∀ e ∈ done, e.isItem = true) →
      Html.Lays content below →
      Items.Lays ⟨loose, done, some (n, ofText x.text ++ content)⟩
        (ps ++ (qs ++ .item n x :: below))

theorem continued_ofText (x : Passage) {content : List Element} {below : List Portion}
    (h : Lays content below) (y : Passage) :
    ∃ content', continued (ofText x.text ++ content) y.text = ofText x.text ++ content' ∧
      Lays content' (below ++ [.continuation y]) := by
  unfold continued
  split
  · exact ⟨content ++ .text " " :: ofText y.text, by simp, .append h (.parted y)⟩
  · exact ⟨content ++ ofText y.text, by simp, .append h (.within y)⟩

/-- Adding an entry to a run adds its portion and those below it. -/
theorem Items.Lays.add {i : Items} {ps : List Portion} (hi : i.Lays ps) {e : Entry}
    {made : List Portion} (he : e.Yields rank made) :
    ∃ j, i.add rank e = .ok j ∧ j.Lays (ps ++ made) := by
  obtain ⟨hh, below, ⟨content, hbelow, hl⟩, rfl⟩ := he
  have hsingle : Portion.single rank e.passage = if e.paragraph.continuation = true then
      .continuation e.passage else .item ((rank e.paragraph).getD 0) e.passage :=
    if_neg (by simp [hh])
  unfold Items.add
  rw [hbelow, hsingle]
  by_cases hc : e.paragraph.continuation = true
  · rw [if_pos hc, if_pos hc]
    cases hi with
    | loose hloose => exact ⟨_, rfl, .loose (.append hloose (.alone e.passage hl))⟩
    | @listed loose done own n x ps qs inner hloose hdone hitems hown =>
      obtain ⟨own', hcontinued, hown'⟩ := continued_ofText x hown e.passage
      refine ⟨_, rfl, ?_⟩
      have hlisted := Items.Lays.listed (n := n) (x := x) hloose hdone hitems (.append hown' hl)
      rw [← List.append_assoc (ofText x.text), ← hcontinued] at hlisted
      simpa using hlisted
  · rw [if_neg hc, if_neg hc]
    cases hi with
    | loose hloose =>
      refine ⟨_, rfl, ?_⟩
      simpa using Items.Lays.listed (n := (rank e.paragraph).getD 0) (x := e.passage)
        hloose .nil (by simp) hl
    | @listed loose done own n x ps qs inner hloose hdone hitems hown =>
      refine ⟨_, rfl, ?_⟩
      have hdone' : ∀ e ∈ done ++ [Element.node (.item n) (ofText x.text ++ own)],
          e.isItem = true := by
        simp only [List.forall_mem_append, List.forall_mem_singleton]
        exact ⟨hitems, rfl⟩
      have hlisted := Items.Lays.listed (n := (rank e.paragraph).getD 0) (x := e.passage)
        hloose (.append hdone (.item n x hown)) hdone' hl
      simpa using hlisted

theorem Items.Lays.addAll {es : List Entry} {made : List (List Portion)}
    (h : List.Forall₂ (Entry.Yields rank) es made) {i : Items} {ps : List Portion}
    (hi : i.Lays ps) : ∃ j, es.foldlM (Items.add rank) i = .ok j ∧ j.Lays (ps ++ made.flatten) := by
  induction h generalizing i ps with
  | nil => exact ⟨i, rfl, by simpa using hi⟩
  | cons he _ ih =>
    obtain ⟨j, hj, hjl⟩ := hi.add he
    obtain ⟨k, hk, hkl⟩ := ih hjl
    refine ⟨k, ?_, by simpa using hkl⟩
    rw [List.foldlM_cons, hj]
    exact hk

theorem Items.Lays.elements {i : Items} {ps : List Portion} (h : i.Lays ps) :
    Html.Lays i.elements ps := by
  cases h with
  | loose hloose => exact hloose
  | @listed loose done content n x ps qs below hloose hdone hitems hcontent =>
    refine .append hloose (.orderedList (.append hdone (.item n x hcontent)) (by simp) ?_)
    simp only [List.forall_mem_append, List.forall_mem_singleton]
    exact ⟨hitems, rfl⟩

/-- Blocks that are laid out for some portions have elements, which are these portions. -/
theorem Blocked.lays {bs : List Block} {ps : List Portion} (h : Blocked rank bs ps) :
    ∃ es, blockElements rank bs = .ok es ∧ Lays es ps := by
  induction h with
  | nil => exact ⟨[], rfl, .nil⟩
  | headings hbelow _ ih =>
    obtain ⟨es, hes, hl⟩ := lays_headingElements hbelow
    obtain ⟨es', hes', hl'⟩ := ih
    refine ⟨es ++ es', ?_, .append hl hl'⟩
    rw [blockElements, Block.elements, hes, hes']
    rfl
  | items hmade _ ih =>
    obtain ⟨j, hj, hjl⟩ := Items.Lays.addAll hmade (.loose .nil)
    obtain ⟨es', hes', hl'⟩ := ih
    refine ⟨j.elements ++ es', ?_, .append hjl.elements hl'⟩
    rw [blockElements, Block.elements, itemElements, hj, hes']
    rfl

end Layout

end Html

/-! ## The page -/

namespace Store

variable {s : Store} {v : View}

/-- Elements that are asked for are the portions of a scene, if there is one. -/
def Arrays (s : Store) (v : View) (x : Except Fault (List Html.Element))
    (y : Except Fault Scene) : Prop :=
  ∀ S, y = .ok S → ∃ es, x = .ok es ∧ Html.Lays es (S.portions (s.rank? v.choices))

theorem fits_shownEntries {xs : List (Paragraph × Except Fault (List Html.Element))}
    {ys : List (Paragraph × Except Fault Scene)}
    (h : List.Forall₂ (fun x y => x.1 = y.1 ∧ s.Arrays v x.2 y.2) xs ys) {S : Scene}
    (hS : s.sceneOf v ys = .ok S) :
    ∃ es, Html.shownEntries s v xs = .ok es ∧ Html.Fits (s.rank? v.choices) es S := by
  induction h generalizing S with
  | nil =>
    obtain rfl := Except.ok.inj hS
    exact ⟨[], rfl, .nil⟩
  | @cons x y xs ys hx _ ih =>
    obtain ⟨p, inner⟩ := x
    obtain ⟨q, below⟩ := y
    obtain ⟨rfl, hm⟩ : p = q ∧ s.Arrays v inner below := hx
    unfold Html.shownEntries
    rcases sceneOf_cons_eq_ok hS with ⟨hp, hS⟩ | ⟨text, B, R, -, ht, hB, hR, rfl⟩
    · rw [displayText_of_omitted hp]
      exact ih hS
    · obtain ⟨es, hes, hfits⟩ := ih hR
      rw [ht, hes]
      exact ⟨_, rfl, .cons (e := ⟨p, text, inner⟩) (hm B hB) hfits⟩

theorem lays_sequence {xs : List (Paragraph × Except Fault (List Html.Element))}
    {ys : List (Paragraph × Except Fault Scene)}
    (h : List.Forall₂ (fun x y => x.1 = y.1 ∧ s.Arrays v x.2 y.2) xs ys) {S : Scene}
    (hS : s.sceneOf v ys = .ok S) (listed : Bool) :
    ∃ es, Html.sequence s v listed xs = .ok es ∧
      Html.Lays es ((if listed then S.ended else S).portions (s.rank? v.choices)) := by
  obtain ⟨es, hes, hfits⟩ := fits_shownEntries h hS
  unfold Html.sequence
  rw [hes]
  cases listed with
  | false => exact hfits.blocked.lays
  | true => exact hfits.endTexts.blocked.lays

/-- The content of a page is the portions of the scene. -/
theorem lays_page {S : Scene} (hS : s.scene v = .ok S) {content : List Html.Element}
    (h : s.page v = .ok (.node .section_ content)) :
    Html.Lays content (S.portions (s.rank? v.choices)) := by
  have hall := forall₂_foldForest (R := s.Arrays v) (F := fun p => Html.sequence s v p.list)
    (G := s.sceneBelow v) (fun p xs ys hx S hS => by
      obtain ⟨R, hR, rfl⟩ := sceneBelow_eq_ok hS
      exact lays_sequence hx hR p.list) s.forest
  obtain ⟨es, hes, hl⟩ := lays_sequence hall hS false
  obtain ⟨content', hcontent, h⟩ := Fault.bind_eq_ok h
  obtain ⟨-, rfl⟩ := Html.Element.node.inj (Except.ok.inj h)
  rw [← Except.ok.inj (hes.symm.trans hcontent)]
  exact hl

end Store

end Bylaws
