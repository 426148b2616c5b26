import Bylaws.Proofs.Rendering.Markup
import Bylaws.Proofs.Rendering.Reader

/-!
# Pages read back

The page of a document has the tags of markup only and no empty texts: headings have a level of at
least one and at most six, and empty lines leave no text (`Html.plain_page`). There is a page
whenever the numbers that it shows can be written (`Store.Shows.exists_html`). So whatever texts a
document shows, its markup is read as the page that was made, with texts side by side made one
(`Store.page_read_back`).
-/

namespace Bylaws

namespace Html

/-! ## Elements of texts -/

theorem allPlain_line (line : List Char) :
    AllPlain (if line.isEmpty then [] else [.text (String.ofList line)]) := by
  cases line with
  | nil => trivial
  | cons c cs =>
    refine ⟨fun he => ?_, trivial⟩
    have hlist := congrArg String.toList he
    rw [String.toList_ofList] at hlist
    exact nomatch hlist

theorem allPlain_ofLines : ∀ lines : List (List Char), AllPlain (ofLines lines)
  | [] => trivial
  | [line] => allPlain_append.2 ⟨allPlain_line line, trivial⟩
  | line :: next :: more =>
    allPlain_append.2 ⟨allPlain_line line, trivial, allPlain_ofLines (next :: more)⟩

theorem allPlain_ofText (s : String) : AllPlain (ofText s) := allPlain_ofLines _

theorem allPlain_continued {content : List Element} (h : AllPlain content) (text : String) :
    AllPlain (continued content text) := by
  unfold continued
  split
  · exact allPlain_append.2 ⟨h, (by decide : " " ≠ ""), allPlain_ofText text⟩
  · exact allPlain_append.2 ⟨h, allPlain_ofText text⟩

/-! ## Elements of entries -/

/-- The level of a heading is at least one. -/
def Leveled (p : Paragraph) : Prop := ∀ n, p.heading = some n → 1 ≤ n

/-- Elements that are asked for are plain, if there are any. -/
def PlainIfMade (x : Except Fault (List Element)) : Prop := ∀ es, x = .ok es → AllPlain es

/-- What an entry is laid out as is plain. -/
structure Entry.Plain (e : Entry) : Prop where
  leveled : Leveled e.paragraph
  below : PlainIfMade e.below

theorem plain_headingElement {e : Entry} (h : Leveled e.paragraph) : (headingElement e).Plain := by
  refine ⟨?_, allPlain_ofText e.text⟩
  have hlevel : 1 ≤ e.paragraph.heading.getD 1 := by
    cases hh : e.paragraph.heading with
    | none => exact Int.le_refl 1
    | some n => exact h n hh
  show 1 ≤ min (e.paragraph.heading.getD 1).toNat 6 ∧ min (e.paragraph.heading.getD 1).toNat 6 ≤ 6
  omega

theorem plainIfMade_allBelow {es : List Entry} (h : ∀ e ∈ es, e.Plain) :
    PlainIfMade (allBelow es) := by
  induction es with
  | nil =>
    rintro _ ⟨⟩
    trivial
  | cons e es ih =>
    intro content hc
    rw [List.forall_mem_cons] at h
    obtain ⟨below, hbelow, hc⟩ := Fault.bind_eq_ok hc
    obtain ⟨rest, hrest, hc⟩ := Fault.bind_eq_ok hc
    obtain rfl := Except.ok.inj hc
    exact allPlain_append.2 ⟨h.1.below below hbelow, ih h.2 rest hrest⟩

theorem allPlain_map_headingElement {es : List Entry} (h : ∀ e ∈ es, e.Plain) :
    AllPlain (es.map headingElement) := by
  induction es with
  | nil => trivial
  | cons e es ih =>
    rw [List.forall_mem_cons] at h
    exact ⟨plain_headingElement h.1.leveled, ih h.2⟩

theorem plainIfMade_headingElements {first : Entry} {rest : List Entry}
    (h : ∀ e ∈ first :: rest, e.Plain) : PlainIfMade (headingElements first rest) := by
  intro es hes
  obtain ⟨below, hbelow, hes⟩ := Fault.bind_eq_ok hes
  have hplain := plainIfMade_allBelow h below hbelow
  cases rest with
  | nil =>
    obtain rfl := Except.ok.inj hes
    exact ⟨plain_headingElement (h first List.mem_cons_self).leveled, hplain⟩
  | cons next more =>
    obtain rfl := Except.ok.inj hes
    exact ⟨⟨trivial, allPlain_map_headingElement h⟩, hplain⟩

section Items

variable {rank : Paragraph → Option Nat}

/-- All that a run of items has made is plain. -/
structure Items.Plain (i : Items) : Prop where
  loose : AllPlain i.loose
  done : AllPlain i.done
  current : ∀ n content, i.current = some (n, content) → AllPlain content

theorem Items.Plain.add {i j : Items} (hi : i.Plain) {e : Entry} (he : e.Plain)
    (h : i.add rank e = .ok j) : j.Plain := by
  have own : ∀ below, e.below = .ok below → AllPlain (ofText e.text ++ below) := fun below hb =>
    allPlain_append.2 ⟨allPlain_ofText e.text, he.below below hb⟩
  unfold Items.add at h
  by_cases hc : e.paragraph.continuation = true
  · rw [if_pos hc] at h
    cases hcurrent : i.current with
    | none =>
      rw [hcurrent] at h
      obtain ⟨below, hb, h⟩ := Fault.bind_eq_ok h
      obtain rfl := Except.ok.inj h
      exact ⟨allPlain_append.2 ⟨hi.loose, ⟨trivial, own below hb⟩, trivial⟩, hi.done, nofun⟩
    | some current =>
      obtain ⟨n, content⟩ := current
      rw [hcurrent] at h
      obtain ⟨below, hb, h⟩ := Fault.bind_eq_ok h
      obtain rfl := Except.ok.inj h
      refine ⟨hi.loose, hi.done, ?_⟩
      rintro _ _ ⟨⟩
      exact allPlain_append.2 ⟨allPlain_continued (hi.current n content hcurrent) e.text,
        he.below below hb⟩
  · rw [if_neg hc] at h
    obtain ⟨below, hb, h⟩ := Fault.bind_eq_ok h
    obtain rfl := Except.ok.inj h
    refine ⟨hi.loose, ?_, ?_⟩
    · cases hcurrent : i.current with
      | none => exact hi.done
      | some current =>
        obtain ⟨n, content⟩ := current
        exact allPlain_append.2 ⟨hi.done, ⟨trivial, hi.current n content hcurrent⟩, trivial⟩
    · rintro _ _ ⟨⟩
      exact own below hb

theorem Items.Plain.addAll {es : List Entry} {i j : Items} (hi : i.Plain)
    (he : ∀ e ∈ es, e.Plain) (h : es.foldlM (Items.add rank) i = .ok j) : j.Plain := by
  induction es generalizing i with
  | nil =>
    obtain rfl := Except.ok.inj h
    exact hi
  | cons e es ih =>
    rw [List.forall_mem_cons] at he
    rw [List.foldlM_cons] at h
    obtain ⟨k, hk, h⟩ := Fault.bind_eq_ok h
    exact ih (hi.add he.1 hk) he.2 h

theorem Items.Plain.elements {i : Items} (h : i.Plain) : AllPlain i.elements := by
  unfold Items.elements
  cases hc : i.current with
  | none => exact h.loose
  | some current =>
    obtain ⟨n, content⟩ := current
    have hdone : AllPlain (i.done ++ [.node (.item n) content]) :=
      allPlain_append.2 ⟨h.done, ⟨trivial, h.current n content hc⟩, trivial⟩
    exact allPlain_append.2 ⟨h.loose, ⟨trivial, hdone⟩, trivial⟩

theorem plainIfMade_elements {b : Block} (h : ∀ e ∈ b.entries, e.Plain) :
    PlainIfMade (b.elements rank) := by
  cases b with
  | headings first rest => exact plainIfMade_headingElements h
  | items entries =>
    intro es hes
    unfold Block.elements itemElements at hes
    dsimp only at hes
    cases hj : entries.foldlM (Items.add rank) {} with
    | error e =>
      rw [hj] at hes
      exact nomatch hes
    | ok j =>
      rw [hj] at hes
      obtain rfl := Except.ok.inj hes
      have hstart : Items.Plain {} := ⟨trivial, trivial, nofun⟩
      exact (hstart.addAll h hj).elements

theorem plainIfMade_blockElements {bs : List Block} (h : ∀ e ∈ bs.flatMap Block.entries, e.Plain) :
    PlainIfMade (blockElements rank bs) := by
  induction bs with
  | nil =>
    rintro _ ⟨⟩
    trivial
  | cons b bs ih =>
    intro es hes
    rw [List.flatMap_cons, List.forall_mem_append] at h
    obtain ⟨own, hown, hes⟩ := Fault.bind_eq_ok hes
    obtain ⟨rest, hrest, hes⟩ := Fault.bind_eq_ok hes
    obtain rfl := Except.ok.inj hes
    exact allPlain_append.2 ⟨plainIfMade_elements h.1 own hown, ih h.2 rest hrest⟩

end Items

/-! ## Pages -/

section Page

variable {s : Store} {v : View}

theorem plain_shownEntries {xs : List (Paragraph × Except Fault (List Element))}
    (hx : ∀ x ∈ xs, Leveled x.1 ∧ PlainIfMade x.2) {es : List Entry}
    (h : shownEntries s v xs = .ok es) : ∀ e ∈ es, e.Plain := by
  induction xs generalizing es with
  | nil =>
    obtain rfl := Except.ok.inj h
    exact fun e he => absurd he List.not_mem_nil
  | cons x xs ih =>
    obtain ⟨p, below⟩ := x
    rw [List.forall_mem_cons] at hx
    obtain ⟨shown, -, h⟩ := Fault.bind_eq_ok h
    cases shown with
    | none => exact ih hx.2 h
    | some text =>
      obtain ⟨rest, hrest, h⟩ := Fault.bind_eq_ok h
      obtain rfl := Except.ok.inj h
      exact List.forall_mem_cons.2 ⟨⟨hx.1.1, hx.1.2⟩, ih hx.2 hrest⟩

theorem plain_endTexts {es : List Entry} (h : ∀ e ∈ es, e.Plain) : ∀ e ∈ endTexts es, e.Plain := by
  induction es with
  | nil => exact fun e he => absurd he List.not_mem_nil
  | cons e es ih =>
    unfold endTexts
    rw [List.forall_mem_cons] at h ⊢
    exact ⟨⟨h.1.leveled, h.1.below⟩, ih h.2⟩

/-- Siblings are laid out as plain elements. -/
theorem plainIfMade_sequence {xs : List (Paragraph × Except Fault (List Element))}
    (hx : ∀ x ∈ xs, Leveled x.1 ∧ PlainIfMade x.2) (listed : Bool) :
    PlainIfMade (sequence s v listed xs) := by
  intro es hes
  obtain ⟨entries, hentries, hes⟩ := Fault.bind_eq_ok hes
  have hplain := plain_shownEntries hx hentries
  refine plainIfMade_blockElements ?_ es hes
  rw [entries_blocks]
  cases listed with
  | false => exact hplain
  | true => exact plain_endTexts hplain

/-- A page is made of plain elements if the headings of the document have a level of at least
one. -/
theorem plain_page (h : ∀ e ∈ s.walk, Leveled e.1) {e : Element} (he : s.page v = .ok e) :
    e.Plain ∧ ∃ content, e = .node .section_ content := by
  obtain ⟨content, hcontent, he⟩ := Fault.bind_eq_ok he
  obtain rfl := Except.ok.inj he
  have hx := forall_foldForest (F := fun p => sequence s v p.list)
    (fun p xs hxs => plainIfMade_sequence hxs p.list) s.forest 1 h
  exact ⟨⟨trivial, plainIfMade_sequence hx false content hcontent⟩, content, rfl⟩

end Page

end Html

/-! ## Documents that have a page -/

namespace Store

variable {s : Store} {v : View}

/-- A document has a page if every number that is shown can be written. -/
theorem Shows.exists_html {f : Forest} (h : s.Shows f) (hv : v.Writable) :
    ∃ markup, s.html v = .ok markup := by
  obtain ⟨S, hS⟩ := h.exists_scene hv
  obtain ⟨content, hcontent, -⟩ := (page_matches s v).tells S hS
  unfold html page
  dsimp only
  rw [hcontent]
  exact ⟨_, rfl⟩

theorem leveled_of_check {p : Paragraph} (h : p.fields.check = .ok p.fields) :
    Html.Leveled p := by
  intro n hn
  unfold Fields.check at h
  rw [show p.fields.heading = some n from hn] at h
  dsimp only at h
  by_contra hlt
  rw [if_pos (by omega)] at h
  exact nomatch h

/-! ## The page read back -/

/-- Whatever a document shows, its markup is read as one section, which is the page that was
made, with texts that stand side by side made one. Markup is there unless a number has to be
written in a style that does not exist. -/
theorem page_read_back (h : s.Reachable) (v : View) :
    (∀ markup, s.html v = .ok markup → ∃ content,
      s.page v = .ok (.node .section_ content) ∧
      Html.read markup.toList = some [(Html.Element.node .section_ content).merged]) ∧
    (v.Writable → ∃ markup, s.html v = .ok markup) := by
  obtain ⟨f, hf⟩ := h.exists_shows
  refine ⟨fun markup hmarkup => ?_, hf.exists_html⟩
  obtain ⟨e, he, hmarkup⟩ := Fault.bind_eq_ok hmarkup
  obtain rfl := Except.ok.inj hmarkup
  have hleveled : ∀ e ∈ s.walk, Html.Leveled e.1 := fun e he =>
    leveled_of_check (h.checked e.1 (mem_of_mem_walk e he))
  obtain ⟨hplain, content, rfl⟩ := Html.plain_page hleveled he
  refine ⟨content, he, ?_⟩
  rw [String.toList_ofList]
  exact Html.read_write hplain

/-- Two paragraphs that look like markup, the second of which continues the first. -/
def hostile : Store :=
  (Session.run { store := { documentId := "d" } }
    [.edit (.append { body := "</p>&amp;" } none),
      .edit (.append { body := "</li>", continuation := true } none)]).store

theorem reachable_hostile : hostile.Reachable :=
  ⟨_, _, fresh_empty .memory "d", by simp [Event.Holdable, Edit.Holdable], rfl, rfl⟩

/-- Numbers in angle brackets. -/
def bracketed : View :=
  { numbering := { levels := [(1, ⟨"decimal", "<#>"⟩)] }, withNumbers := true }

theorem page_read_back_hostile :
    ∃ markup, hostile.html bracketed = .ok markup ∧
      Html.read markup.toList = some [.node .section_ [.node .orderedList
        [.node (.item 1) [.text "<1> </p>&amp; </li>"]]]] := by
  have hpage : hostile.page bracketed = .ok (.node .section_ [.node .orderedList
      [.node (.item 1) [.text "<1> </p>&amp;", .text " ", .text "</li>"]]]) := by cbv
  obtain ⟨hread, hexists⟩ := page_read_back reachable_hostile bracketed
  obtain ⟨markup, hmarkup⟩ := hexists (.inr (by decide))
  obtain ⟨content, hcontent, hresult⟩ := hread markup hmarkup
  rw [← Except.ok.inj (hpage.symm.trans hcontent)] at hresult
  exact ⟨markup, hmarkup, hresult⟩

end Store

end Bylaws
