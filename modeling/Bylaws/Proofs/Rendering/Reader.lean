import Bylaws.Html.Element
import Bylaws.Proofs.Digit
import Mathlib.Data.List.Basic
import Mathlib.Tactic.IntervalCases

/-!
# Reading markup back

A reader that knows only the tags of documents, each in the one form in which it is written, and
the three names of characters that are replaced in text. Anything else with an angle bracket or
an ampersand is refused, and so are tags that are not closed in their turn. What is written for
an element is read as this element again, with texts that stand side by side made one
(`read_write`).
-/

namespace Bylaws.Html

/-! ## The reader -/

/-- What markup is a row of: characters of text, and tags. -/
inductive Token where
  | char (c : Char)
  | lineBreak
  | opening (tag : Tag)
  | closing (name : List Char)

/-- The tags that are told by their names. -/
def namedTags : List Tag :=
  [.section_, .headingGroup, .heading 1, .heading 2, .heading 3, .heading 4, .heading 5,
    .heading 6, .orderedList, .paragraph]

/-- The value of an item as it stands in its tag: digits between quotation marks. -/
def itemValue? (w : List Char) : Option Nat :=
  ("li value=\"".toList.isPrefixOf? w).bind fun rest =>
    if rest.getLast? = some '"' ∧ rest.dropLast ≠ [] ∧ rest.dropLast.all Char.isDigit = true then
      some (Text.digitsValue rest.dropLast)
    else none

/-- The tag with some characters between its angle brackets. -/
def tag? (w : List Char) : Option Token :=
  match itemValue? w with
  | some n => some (.opening (.item n))
  | none =>
    if w = "br/".toList then some .lineBreak
    else if w = "/li".toList then some (.closing "li".toList)
    else
      (namedTags.find? fun t => t.name.toList == w || '/' :: t.name.toList == w).map fun t =>
        if t.name.toList = w then .opening t else .closing t.name.toList

/-- The character that a name stands for. -/
def entity? (w : List Char) : Option Char :=
  if w = "amp".toList then some '&'
  else if w = "lt".toList then some '<'
  else if w = "gt".toList then some '>'
  else none

/-- Where a reader stands: in text, or in a tag or a name, behind some characters of it, the last
of them first. -/
inductive Mode where
  | text
  | tag (seen : List Char)
  | name (seen : List Char)

/-- The characters and tags of markup, if it has nothing else. -/
def tokens? : Mode → List Char → Option (List Token)
  | .text, [] => some []
  | .tag _, [] => none
  | .name _, [] => none
  | .text, c :: cs =>
    if c = '<' then tokens? (.tag []) cs
    else if c = '&' then tokens? (.name []) cs
    else if c = '>' then none
    else (tokens? .text cs).map (.char c :: ·)
  | .tag seen, c :: cs =>
    if c = '>' then (tag? seen.reverse).bind fun t => (tokens? .text cs).map (t :: ·)
    else tokens? (.tag (c :: seen)) cs
  | .name seen, c :: cs =>
    if c = ';' then (entity? seen.reverse).bind fun d => (tokens? .text cs).map (.char d :: ·)
    else tokens? (.name (c :: seen)) cs

/-- An element behind others. A text goes on in a text right before it. -/
def attach (front : List Element) : Element → List Element
  | .text s =>
    match front.getLast? with
    | some (.text t) => front.dropLast ++ [.text (t ++ s)]
    | _ => front ++ [.text s]
  | e => front ++ [e]

/-- The elements that a row of tokens builds behind others, within some open elements. These are
given with what stands before each of them, the innermost first. -/
def build : List (Tag × List Element) → List Element → List Token → Option (List Element)
  | [], front, [] => some front
  | _ :: _, _, [] => none
  | around, front, .char c :: ts => build around (attach front (.text (String.singleton c))) ts
  | around, front, .lineBreak :: ts => build around (attach front .lineBreak) ts
  | around, front, .opening tag :: ts => build ((tag, front) :: around) [] ts
  | [], _, .closing _ :: _ => none
  | (tag, outer) :: around, front, .closing name :: ts =>
    if tag.name.toList = name then build around (attach outer (.node tag front)) ts else none

/-- The elements that some markup is read as, if it is well formed. -/
def read (cs : List Char) : Option (List Element) := (tokens? .text cs).bind (build [] [])

mutual

/-- An element in which texts that stand side by side are made one. -/
def Element.merged : Element → Element
  | .node tag content => .node tag (mergedBehind [] content)
  | .text s => .text s
  | .lineBreak => .lineBreak

/-- Elements behind others, with texts that stand side by side made one. -/
def mergedBehind (front : List Element) : List Element → List Element
  | [] => front
  | e :: rest => mergedBehind (attach front e.merged) rest

end

/-! ## Elements that can be written -/

/-- Headings have one of six levels. -/
def Tag.Valid : Tag → Prop
  | .heading level => 1 ≤ level ∧ level ≤ 6
  | _ => True

mutual

/-- All tags are those of markup, and no text is empty. -/
def Element.Plain : Element → Prop
  | .text s => s ≠ ""
  | .lineBreak => True
  | .node tag content => tag.Valid ∧ AllPlain content

def AllPlain : List Element → Prop
  | [] => True
  | e :: rest => e.Plain ∧ AllPlain rest

end

theorem allPlain_append {es es' : List Element} :
    AllPlain (es ++ es') ↔ AllPlain es ∧ AllPlain es' := by
  induction es with
  | nil => simp [AllPlain]
  | cons e es ih => rw [List.cons_append, AllPlain, AllPlain, ih, and_assoc]

/-! ## Tags -/

theorem toList_opening_item (n : Nat) :
    (Tag.item n).opening.toList = "li value=\"".toList ++ (Nat.toDigits 10 n ++ ['"']) := by
  show ("li value=\"" ++ Nat.repr n ++ "\"").toList = _
  rw [String.toList_append, String.toList_append, Text.toList_repr, List.append_assoc]
  rfl

theorem itemValue?_opening (n : Nat) : itemValue? (Tag.item n).opening.toList = some n := by
  have hdigits : ∀ c ∈ Nat.toDigits 10 n, c.isDigit = true := fun c hc =>
    Nat.isDigit_of_mem_toDigits (by omega) (by omega) hc
  unfold itemValue?
  rw [toList_opening_item, List.isPrefixOf?_eq_some_iff_append_eq.2 rfl, Option.bind_some,
    List.getLast?_concat, List.dropLast_concat,
    if_pos ⟨rfl, Nat.toDigits_ne_nil, List.all_eq_true.2 hdigits⟩, Text.digitsValue_toDigits]

theorem tag?_opening {tag : Tag} (h : tag.Valid) :
    tag? tag.opening.toList = some (.opening tag) := by
  cases tag with
  | item n =>
    unfold tag?
    rw [itemValue?_opening]
  | heading level =>
    obtain ⟨h₁, h₂⟩ := h
    interval_cases level <;> rfl
  | section_ => rfl
  | headingGroup => rfl
  | orderedList => rfl
  | paragraph => rfl

theorem tag?_closing {tag : Tag} (h : tag.Valid) :
    tag? ('/' :: tag.name.toList) = some (.closing tag.name.toList) := by
  cases tag with
  | heading level =>
    obtain ⟨h₁, h₂⟩ := h
    interval_cases level <;> rfl
  | item n =>
    rw [show (Tag.item n).name = "li" from rfl]
    rfl
  | section_ => rfl
  | headingGroup => rfl
  | orderedList => rfl
  | paragraph => rfl

theorem notMem_opening {tag : Tag} (h : tag.Valid) : '>' ∉ tag.opening.toList := by
  cases tag with
  | item n =>
    rw [toList_opening_item]
    have hdigits : '>' ∉ Nat.toDigits 10 n := by
      intro hmem
      have := Nat.isDigit_of_mem_toDigits (b := 10) (by omega) (by omega) hmem
      exact absurd this (by decide)
    simp [hdigits]
  | heading level =>
    obtain ⟨h₁, h₂⟩ := h
    interval_cases level <;> decide
  | section_ => decide
  | headingGroup => decide
  | orderedList => decide
  | paragraph => decide

theorem notMem_name {tag : Tag} (h : tag.Valid) : '>' ∉ tag.name.toList := by
  cases tag with
  | heading level =>
    obtain ⟨h₁, h₂⟩ := h
    interval_cases level <;> decide
  | item n =>
    show '>' ∉ "li".toList
    decide
  | section_ => decide
  | headingGroup => decide
  | orderedList => decide
  | paragraph => decide

/-! ## Tokens of what is written -/

theorem tokens?_tag {w : List Char} (h : '>' ∉ w) (seen cs : List Char) :
    tokens? (.tag seen) (w ++ '>' :: cs) =
      (tag? (seen.reverse ++ w)).bind fun t => (tokens? .text cs).map (t :: ·) := by
  induction w generalizing seen with
  | nil =>
    rw [List.nil_append, tokens?, if_pos rfl, List.append_nil]
  | cons c w ih =>
    rw [List.mem_cons, not_or] at h
    rw [List.cons_append, tokens?, if_neg (Ne.symm h.1), ih h.2, List.reverse_cons,
      List.append_assoc, List.singleton_append]

/-- A tag is one token. -/
theorem tokens?_of_tag? {w : List Char} {t : Token} (h : '>' ∉ w) (ht : tag? w = some t)
    (cs : List Char) :
    tokens? .text ('<' :: w ++ '>' :: cs) = (tokens? .text cs).map (t :: ·) := by
  rw [List.cons_append, tokens?, if_pos rfl, tokens?_tag h, List.reverse_nil, List.nil_append, ht,
    Option.bind_some]

/-- A character of text is one token, as itself or by its name. -/
theorem tokens?_escapeChar (c : Char) (cs : List Char) :
    tokens? .text (escapeChar c ++ cs) = (tokens? .text cs).map (.char c :: ·) := by
  unfold escapeChar
  by_cases hamp : c = '&'
  · rw [if_pos hamp, hamp]
    rfl
  · rw [if_neg hamp]
    by_cases hlt : c = '<'
    · rw [if_pos hlt, hlt]
      rfl
    · rw [if_neg hlt]
      by_cases hgt : c = '>'
      · rw [if_pos hgt, hgt]
        rfl
      · rw [if_neg hgt, List.singleton_append, tokens?, if_neg hlt, if_neg hamp, if_neg hgt]

theorem tokens?_escape (w cs : List Char) :
    tokens? .text (w.flatMap escapeChar ++ cs) =
      (tokens? .text cs).map (w.map Token.char ++ ·) := by
  induction w with
  | nil => exact Option.map_id'.symm
  | cons c w ih =>
    rw [List.flatMap_cons, List.append_assoc, tokens?_escapeChar, ih, Option.map_map]
    rfl

mutual

/-- The tokens of an element. -/
def Element.tokens : Element → List Token
  | .text s => s.toList.map .char
  | .lineBreak => [.lineBreak]
  | .node tag content => .opening tag :: (tokensAll content ++ [.closing tag.name.toList])

/-- The tokens of some elements. -/
def tokensAll : List Element → List Token
  | [] => []
  | e :: rest => e.tokens ++ tokensAll rest

end

mutual

/-- What is written for an element has the tokens of the element. -/
theorem tokens?_write (cs : List Char) : (e : Element) → e.Plain →
    tokens? .text (e.write ++ cs) = (tokens? .text cs).map (e.tokens ++ ·)
  | .text s, _ => by
    rw [Element.write, Element.tokens]
    exact tokens?_escape s.toList cs
  | .lineBreak, _ => rfl
  | .node tag content, h => by
    obtain ⟨hvalid, hcontent⟩ := h
    have hclose : '>' ∉ '/' :: tag.name.toList := by simp [notMem_name hvalid]
    have hend := tokens?_of_tag? hclose (tag?_closing hvalid) cs
    have hinner := tokens?_writeAll ('<' :: ('/' :: tag.name.toList) ++ '>' :: cs) content hcontent
    have hstart := tokens?_of_tag? (notMem_opening hvalid) (tag?_opening hvalid)
      (writeAll content ++ ('<' :: ('/' :: tag.name.toList) ++ '>' :: cs))
    rw [hend, Option.map_map] at hinner
    rw [hinner, Option.map_map] at hstart
    rw [Element.write, Element.tokens]
    simpa [Function.comp_def] using hstart

theorem tokens?_writeAll (cs : List Char) : (es : List Element) → AllPlain es →
    tokens? .text (writeAll es ++ cs) = (tokens? .text cs).map (tokensAll es ++ ·)
  | [], _ => by
    rw [writeAll, tokensAll]
    exact Option.map_id'.symm
  | e :: es, h => by
    rw [writeAll, tokensAll, List.append_assoc, tokens?_write _ e h.1, tokens?_writeAll cs es h.2,
      Option.map_map]
    congr 1
    funext ts
    exact (List.append_assoc _ _ _).symm

end

/-! ## Elements of what is written -/

theorem attach_attach_text (front : List Element) (s t : String) :
    attach (attach front (.text s)) (.text t) = attach front (.text (s ++ t)) := by
  have hconcat : ∀ (init : List Element) (u : String),
      attach (init ++ [.text u]) (.text t) = init ++ [.text (u ++ t)] := by
    intro init u
    simp [attach]
  cases hl : front.getLast? with
  | none => simp [attach, hl]
  | some e =>
    cases e with
    | text u =>
      show attach (attach front _) _ = _
      rw [show attach front (.text s) = front.dropLast ++ [.text (u ++ s)] by simp [attach, hl],
        hconcat]
      simp [attach, hl, String.append_assoc]
    | lineBreak => simp [attach, hl]
    | node tag content => simp [attach, hl]

/-- Characters in a row build one text. -/
theorem build_chars {w : List Char} (hw : w ≠ []) (around : List (Tag × List Element))
    (front : List Element) (ts : List Token) :
    build around front (w.map Token.char ++ ts) =
      build around (attach front (.text (String.ofList w))) ts := by
  induction w generalizing front with
  | nil => exact absurd rfl hw
  | cons c w ih =>
    rw [List.map_cons, List.cons_append, build]
    cases w with
    | nil => rfl
    | cons d w =>
      rw [ih (List.cons_ne_nil d w), attach_attach_text, String.singleton_eq_ofList,
        ← String.ofList_append]
      rfl

mutual

/-- The tokens of an element build this element, with texts side by side made one. -/
theorem build_tokens (around : List (Tag × List Element)) (front : List Element)
    (ts : List Token) : (e : Element) → e.Plain →
    build around front (e.tokens ++ ts) = build around (attach front e.merged) ts
  | .text s, h => by
    have hne : s.toList ≠ [] := fun he => h (String.toList_injective he)
    rw [Element.tokens, build_chars hne, String.ofList_toList, Element.merged]
  | .lineBreak, _ => by
    rw [Element.tokens, List.singleton_append, build, Element.merged]
  | .node tag content, h => by
    rw [Element.tokens, List.cons_append, build, List.append_assoc,
      build_tokensAll _ _ _ content h.2, List.singleton_append, build, if_pos rfl, Element.merged]

theorem build_tokensAll (around : List (Tag × List Element)) (front : List Element)
    (ts : List Token) : (es : List Element) → AllPlain es →
    build around front (tokensAll es ++ ts) = build around (mergedBehind front es) ts
  | [], _ => by
    rw [tokensAll, List.nil_append, mergedBehind]
  | e :: es, h => by
    rw [tokensAll, List.append_assoc, build_tokens _ _ _ e h.1, build_tokensAll _ _ _ es h.2,
      mergedBehind]

end

/-- What is written for an element is read as this element, with texts side by side made one. -/
theorem read_write {tag : Tag} {content : List Element} (h : (Element.node tag content).Plain) :
    read (Element.node tag content).write = some [(Element.node tag content).merged] := by
  have htokens := tokens?_write [] _ h
  have hbuild := build_tokens [] [] [] _ h
  rw [List.append_nil] at htokens hbuild
  unfold read
  rw [htokens, tokens?, Option.map_some, Option.bind_some, List.append_nil, hbuild, build]
  rfl

example : read "<section><p>a</section></p>".toList = none := rfl

end Bylaws.Html
