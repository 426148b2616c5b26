import Bylaws.Html.Layout
import Bylaws.Proofs.Fault
import Mathlib.Data.List.Forall2

/-!
# What renderings read of siblings

Both renderings of some siblings depend on those of them that are included, and of each of these
on its fields, its text, its rank and what has been made of the paragraphs below it. Siblings of
two documents that agree in this are rendered alike (`Store.SameSight.outlineBelow_eq`,
`Store.SameSight.sequence_eq`), whatever their places are.
-/

namespace Bylaws

namespace Html

/-! ## Laying out entries -/

/-- Two entries are laid out alike. -/
structure Entry.Alike (rank rank' : Paragraph → Option Nat) (e e' : Entry) : Prop where
  fields_eq : e.paragraph.fields = e'.paragraph.fields
  rank_eq : rank e.paragraph = rank' e'.paragraph
  text_eq : e.text = e'.text
  below_eq : e.below = e'.below

/-- Two blocks are laid out alike. -/
inductive Block.Alike (rank rank' : Paragraph → Option Nat) : Block → Block → Prop where
  | headings {e e' : Entry} {rest rest' : List Entry} : e.Alike rank rank' e' →
      List.Forall₂ (Entry.Alike rank rank') rest rest' →
      Alike rank rank' (.headings e rest) (.headings e' rest')
  | items {entries entries' : List Entry} :
      List.Forall₂ (Entry.Alike rank rank') entries entries' →
      Alike rank rank' (.items entries) (.items entries')

variable {rank rank' : Paragraph → Option Nat} {e e' : Entry} {es es' : List Entry}

namespace Entry.Alike

theorem heading_eq (h : e.Alike rank rank' e') : e.paragraph.heading = e'.paragraph.heading :=
  congrArg Fields.heading h.fields_eq

theorem isHeading_eq (h : e.Alike rank rank' e') :
    e.paragraph.isHeading = e'.paragraph.isHeading :=
  congrArg Option.isSome h.heading_eq

theorem continuation_eq (h : e.Alike rank rank' e') :
    e.paragraph.continuation = e'.paragraph.continuation :=
  congrArg Fields.continuation h.fields_eq

theorem headingElement_eq (h : e.Alike rank rank' e') : headingElement e = headingElement e' := by
  unfold headingElement
  rw [h.heading_eq, h.text_eq]

theorem add_eq (h : e.Alike rank rank' e') (i : Items) : i.add rank e = i.add rank' e' := by
  unfold Items.add
  rw [h.continuation_eq, h.rank_eq, h.text_eq, h.below_eq]

end Entry.Alike

theorem endTexts_alike (h : List.Forall₂ (Entry.Alike rank rank') es es') :
    List.Forall₂ (Entry.Alike rank rank') (endTexts es) (endTexts es') := by
  induction h with
  | nil => exact .nil
  | @cons e e' rest rest' he hr ih =>
    have hempty : rest.isEmpty = rest'.isEmpty := by cases hr <;> rfl
    refine .cons ⟨he.fields_eq, he.rank_eq, ?_, he.below_eq⟩ ih
    show e.text ++ _ = e'.text ++ _
    rw [he.text_eq, hempty]

theorem addEntry_alike {bs bs' : List Block} (h : e.Alike rank rank' e')
    (hb : List.Forall₂ (Block.Alike rank rank') bs bs') :
    List.Forall₂ (Block.Alike rank rank') (addEntry e bs) (addEntry e' bs') := by
  unfold addEntry
  rw [h.isHeading_eq]
  cases e'.paragraph.isHeading with
  | true =>
    rw [if_pos rfl, if_pos rfl]
    cases hb with
    | nil => exact .cons (.headings h .nil) .nil
    | cons hfirst hrest =>
      cases hfirst with
      | @headings next next' _ _ hn hm =>
        dsimp only
        rw [hn.continuation_eq]
        cases next'.paragraph.continuation with
        | true => exact .cons (.headings h (.cons hn hm)) hrest
        | false => exact .cons (.headings h .nil) (.cons (.headings hn hm) hrest)
      | items hi => exact .cons (.headings h .nil) (.cons (.items hi) hrest)
  | false =>
    rw [if_neg Bool.false_ne_true, if_neg Bool.false_ne_true]
    cases hb with
    | nil => exact .cons (.items (.cons h .nil)) .nil
    | cons hfirst hrest =>
      cases hfirst with
      | headings hn hm => exact .cons (.items (.cons h .nil)) (.cons (.headings hn hm) hrest)
      | items hi => exact .cons (.items (.cons h hi)) hrest

theorem blocks_alike (h : List.Forall₂ (Entry.Alike rank rank') es es') :
    List.Forall₂ (Block.Alike rank rank') (blocks es) (blocks es') := by
  induction h with
  | nil => exact .nil
  | cons he _ ih => exact addEntry_alike he ih

theorem allBelow_congr (h : List.Forall₂ (Entry.Alike rank rank') es es') :
    allBelow es = allBelow es' := by
  induction h with
  | nil => rfl
  | cons he _ ih => rw [allBelow, allBelow, he.below_eq, ih]

theorem map_headingElement_congr (h : List.Forall₂ (Entry.Alike rank rank') es es') :
    es.map headingElement = es'.map headingElement := by
  induction h with
  | nil => rfl
  | cons he _ ih => rw [List.map_cons, List.map_cons, he.headingElement_eq, ih]

theorem itemElements_congr (h : List.Forall₂ (Entry.Alike rank rank') es es') :
    itemElements rank es = itemElements rank' es' := by
  have key : ∀ i : Items, es.foldlM (Items.add rank) i = es'.foldlM (Items.add rank') i := by
    induction h with
    | nil => exact fun _ => rfl
    | cons he _ ih =>
      intro i
      simp only [List.foldlM_cons, he.add_eq, ih]
  unfold itemElements
  rw [key]

theorem headingElements_congr (he : e.Alike rank rank' e')
    (h : List.Forall₂ (Entry.Alike rank rank') es es') :
    headingElements e es = headingElements e' es' := by
  unfold headingElements
  rw [allBelow_congr (.cons he h)]
  cases h with
  | nil => simp only [he.headingElement_eq]
  | cons hn hm => simp only [map_headingElement_congr (.cons he (.cons hn hm))]

theorem Block.Alike.elements_eq {b b' : Block} (h : b.Alike rank rank' b') :
    b.elements rank = b'.elements rank' := by
  cases h with
  | headings he hr => exact headingElements_congr he hr
  | items hi => exact itemElements_congr hi

theorem blockElements_congr {bs bs' : List Block}
    (h : List.Forall₂ (Block.Alike rank rank') bs bs') :
    blockElements rank bs = blockElements rank' bs' := by
  induction h with
  | nil => rfl
  | cons hb _ ih => rw [blockElements, blockElements, hb.elements_eq, ih]

end Html

namespace Store

variable {s t : Store} {v : View} {α : Type}

/-! ## Included paragraphs -/

/-- A paragraph that is left out shows no text. -/
theorem displayText_of_omitted {p : Paragraph} (h : p.isIncluded v.choices = false) :
    s.displayText v p = .ok none := by
  have hr : Body.resolve? p.body v.choices v.insertions v.missing = none :=
    if_neg (fun hp => by simp [Paragraph.isIncluded, hp] at h)
  unfold displayText
  rw [hr]

/-- A paragraph that is included shows a text behind its number. -/
theorem displayText_of_included {p : Paragraph} (h : p.isIncluded v.choices = true) :
    ∃ text, Body.resolve? p.body v.choices v.insertions v.missing = some text ∧
      s.displayText v p =
        (if v.withNumbers then s.number? v.choices v.numbering p else .ok none).map
          fun number => some (numbered number text) := by
  have hr : Body.resolve? p.body v.choices v.insertions v.missing = some _ := if_pos h
  refine ⟨_, hr, ?_⟩
  unfold displayText
  rw [hr]
  cases v.withNumbers with
  | false => rfl
  | true => cases hn : s.number? v.choices v.numbering p <;> simp only [if_true] <;> rfl

/-- A text is shown if and only if its paragraph is not left out. -/
theorem isSome_of_displayText {p : Paragraph} {shown : Option String}
    (h : s.displayText v p = .ok shown) : shown.isSome = p.isIncluded v.choices := by
  cases hp : p.isIncluded v.choices with
  | false =>
    rw [displayText_of_omitted hp] at h
    obtain rfl := Except.ok.inj h
    rfl
  | true =>
    obtain ⟨text, -, ht⟩ := displayText_of_included (s := s) hp
    rw [ht] at h
    cases hn : (if v.withNumbers then s.number? v.choices v.numbering p else .ok none) with
    | error e =>
      rw [hn] at h
      exact nomatch h
    | ok number =>
      rw [hn] at h
      obtain rfl := Except.ok.inj h
      rfl

/-- The siblings that the choices do not leave out. -/
def included (choices : Choices) (xs : List (Paragraph × α)) : List (Paragraph × α) :=
  xs.filter fun x => x.1.isIncluded choices

theorem included_cons_of_included {choices : Choices} {x : Paragraph × α}
    (h : x.1.isIncluded choices = true) (xs : List (Paragraph × α)) :
    included choices (x :: xs) = x :: included choices xs := List.filter_cons_of_pos h

theorem included_cons_of_omitted {choices : Choices} {x : Paragraph × α}
    (h : x.1.isIncluded choices = false) (xs : List (Paragraph × α)) :
    included choices (x :: xs) = included choices xs :=
  List.filter_cons_of_neg (by simp [h])

theorem outlineEntries_included (s : Store) (v : View)
    (xs : List (Paragraph × Except Fault (List Value))) :
    s.outlineEntries v .display (included v.choices xs) = s.outlineEntries v .display xs := by
  induction xs with
  | nil => rfl
  | cons x xs ih =>
    cases h : x.1.isIncluded v.choices with
    | true => rw [included_cons_of_included h, outlineEntries, outlineEntries, ih]
    | false =>
      rw [included_cons_of_omitted h, outlineEntries]
      unfold outlineText
      rw [displayText_of_omitted h]
      exact ih

theorem shownEntries_included (s : Store) (v : View)
    (xs : List (Paragraph × Except Fault (List Html.Element))) :
    Html.shownEntries s v (included v.choices xs) = Html.shownEntries s v xs := by
  induction xs with
  | nil => rfl
  | cons x xs ih =>
    cases h : x.1.isIncluded v.choices with
    | true => rw [included_cons_of_included h, Html.shownEntries, Html.shownEntries, ih]
    | false =>
      rw [included_cons_of_omitted h, Html.shownEntries, displayText_of_omitted h]
      exact ih

/-! ## The same sight -/

/-- Two paragraphs of two documents look the same, and the same has been made of what is below
them. -/
structure Alike (s t : Store) (v : View) (x y : Paragraph × α) : Prop where
  fields_eq : x.1.fields = y.1.fields
  displayText_eq : s.displayText v x.1 = t.displayText v y.1
  rank?_eq : s.rank? v.choices x.1 = t.rank? v.choices y.1
  answer_eq : x.2 = y.2

/-- The included ones among some siblings of two documents look the same. -/
def SameSight (s t : Store) (v : View) (xs ys : List (Paragraph × α)) : Prop :=
  List.Forall₂ (Alike s t v) (included v.choices xs) (included v.choices ys)

theorem outlineEntries_congr {xs ys : List (Paragraph × Except Fault (List Value))}
    (h : List.Forall₂ (Alike s t v) xs ys) :
    s.outlineEntries v .display xs = t.outlineEntries v .display ys := by
  induction h with
  | nil => rfl
  | cons hx _ ih =>
    unfold outlineEntries outlineText
    rw [hx.displayText_eq, hx.answer_eq, ih]

/-- The texts of siblings that look the same make entries that are alike, or cannot be made. -/
theorem shownEntries_congr {xs ys : List (Paragraph × Except Fault (List Html.Element))}
    (h : List.Forall₂ (Alike s t v) xs ys) :
    (∃ e, Html.shownEntries s v xs = .error e ∧ Html.shownEntries t v ys = .error e) ∨
      ∃ es es', Html.shownEntries s v xs = .ok es ∧ Html.shownEntries t v ys = .ok es' ∧
        List.Forall₂ (Html.Entry.Alike (s.rank? v.choices) (t.rank? v.choices)) es es' := by
  induction h with
  | nil => exact .inr ⟨[], [], rfl, rfl, .nil⟩
  | @cons x y _ _ hx _ ih =>
    unfold Html.shownEntries
    rw [← hx.displayText_eq]
    cases s.displayText v x.1 with
    | error e => exact .inl ⟨e, rfl, rfl⟩
    | ok text =>
      cases text with
      | none => exact ih
      | some text =>
        rcases ih with ⟨e, h₁, h₂⟩ | ⟨es, es', h₁, h₂, hes⟩
        · exact .inl ⟨e, by rw [h₁]; rfl, by rw [h₂]; rfl⟩
        · refine .inr ⟨⟨x.1, text, x.2⟩ :: es, ⟨y.1, text, y.2⟩ :: es', ?_, ?_,
            .cons ⟨hx.fields_eq, hx.rank?_eq, rfl, hx.answer_eq⟩ hes⟩
          · rw [h₁]
            rfl
          · rw [h₂]
            rfl

namespace SameSight

theorem outlineEntries_eq {xs ys : List (Paragraph × Except Fault (List Value))}
    (h : SameSight s t v xs ys) :
    s.outlineEntries v .display xs = t.outlineEntries v .display ys := by
  rw [← outlineEntries_included s v xs, ← outlineEntries_included t v ys, outlineEntries_congr h]

theorem outlineBelow_eq {xs ys : List (Paragraph × Except Fault (List Value))}
    (h : SameSight s t v xs ys) {p q : Paragraph} (hp : p.fields = q.fields) :
    s.outlineBelow v .display p xs = t.outlineBelow v .display q ys := by
  have hlist : p.list = q.list := congrArg Fields.list hp
  unfold outlineBelow
  rw [h.outlineEntries_eq, hlist]

theorem sequence_eq {xs ys : List (Paragraph × Except Fault (List Html.Element))}
    (h : SameSight s t v xs ys) (listed : Bool) :
    Html.sequence s v listed xs = Html.sequence t v listed ys := by
  unfold Html.sequence
  rw [← shownEntries_included s v xs, ← shownEntries_included t v ys]
  rcases shownEntries_congr h with ⟨e, h₁, h₂⟩ | ⟨es, es', h₁, h₂, hes⟩
  · rw [h₁, h₂]
    rfl
  · rw [h₁, h₂]
    cases listed with
    | true => exact Html.blockElements_congr (Html.blocks_alike (Html.endTexts_alike hes))
    | false => exact Html.blockElements_congr (Html.blocks_alike hes)

end SameSight

end Store

end Bylaws
