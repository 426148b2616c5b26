import Bylaws.Directive
import Bylaws.Proofs.Digit
import Mathlib.Data.List.Basic
import Mathlib.Data.List.Infix
import Mathlib.Data.List.TakeWhile

/-!
# Tokens

Reading a text cuts tokens off its head. Nothing but the tokens of a kind, as they are written, is
read as one (`Directive.read?_eq_some_iff`), and a text is made of its parts in one way only:
tokens in the order of the grammar, before a text that does not go on with a token of a kind still
looked for (`Directive.cut_eq_iff`).
-/

namespace Bylaws

/-- The letter by which a kind of directives is told from the others. -/
def Directive.initial : Directive → Char
  | name => 'n'
  | topic => 't'
  | continuation => 'c'
  | heading => 'h'
  | list => 'l'

theorem Directive.initial_ne {d g : Directive} (h : g ≠ d) : g.initial ≠ d.initial := by
  cases d <;> cases g <;> first | exact absurd rfl h | decide

/-- The kind of a token. -/
def Token.kind : Token → Directive
  | name _ => .name
  | topic _ => .topic
  | continuation => .continuation
  | heading _ => .heading
  | list => .list

/-! ## Tokens as they are written -/

/-- The level that the digits of a heading stand for; without digits it is one. -/
def levelOf (digits : List Char) : Nat := if digits.isEmpty then 1 else Text.digitsValue digits

/-- The digits that a level is written in. Level one has none. -/
def levelDigits (n : Nat) : List Char := if n = 1 then [] else Nat.toDigits 10 n

namespace Token

/-- The text of a token. -/
def text : Token → List Char
  | name id => mark ++ "name#".toList ++ id ++ [' ']
  | topic id => mark ++ "topic#".toList ++ id ++ [' ']
  | continuation => mark ++ "continue ".toList
  | heading digits =>
    mark ++ "heading".toList ++ (if digits.isEmpty then [] else '#' :: digits) ++ [' ']
  | list => mark ++ "list ".toList

/-- A token that can stand in a text. -/
def Written : Token → Prop
  | name id => id ≠ [] ∧ ∀ c ∈ id, isNameChar c = true
  | topic id => id ≠ [] ∧ ∀ c ∈ id, isNameChar c = true
  | heading digits => ∀ c ∈ digits, Text.isDigit c = true
  | _ => True

/-- A token with the digits of a heading in canonical form. -/
def canonical : Token → Token
  | heading digits => heading (levelDigits (levelOf digits))
  | t => t

@[simp] theorem kind_canonical (t : Token) : t.canonical.kind = t.kind := by
  cases t <;> rfl

theorem text_eq (t : Token) : ∃ X, t.text = mark ++ t.kind.initial :: X := by
  cases t <;> exact ⟨_, rfl⟩

theorem isDigit_of_mem_levelDigits {n : Nat} {c : Char} (h : c ∈ levelDigits n) :
    Text.isDigit c = true := by
  unfold levelDigits at h
  split at h
  · exact absurd h List.not_mem_nil
  · exact Text.isDigit_of_mem_toDigits h

theorem Written.canonical {t : Token} (h : t.Written) : t.canonical.Written := by
  cases t with
  | heading digits => exact fun c hc => isDigit_of_mem_levelDigits hc
  | _ => exact h

/-- Digits in canonical form stand for the same level. -/
theorem levelOf_levelDigits (n : Nat) : levelOf (levelDigits n) = n := by
  unfold levelOf levelDigits
  by_cases hn : n = 1
  · rw [if_pos hn, hn]
    rfl
  · rw [if_neg hn, if_neg (by simp), Text.digitsValue_toDigits]

@[simp] theorem canonical_canonical (t : Token) : t.canonical.canonical = t.canonical := by
  cases t with
  | heading digits => simp only [canonical, levelOf_levelDigits]
  | _ => rfl

end Token

/-! ## Reading one token -/

theorem isPrefixOf?_mark (s : List Char) : mark.isPrefixOf? (mark ++ s) = some s :=
  List.isPrefixOf?_eq_some_iff_append_eq.2 rfl

/-- An identifier goes on as far as characters of names do. -/
theorem takeWhile_isNameChar {id rest : List Char} (hid : ∀ c ∈ id, isNameChar c = true)
    (hrest : ∀ c ∈ rest.head?, isNameChar c = false) :
    (id ++ rest).takeWhile isNameChar = id := by
  rw [List.takeWhile_append_of_pos hid]
  cases rest with
  | nil => exact List.append_nil id
  | cons c rest => rw [List.takeWhile_cons_of_neg (by simp [hrest c rfl]), List.append_nil]

theorem identifier?_append {id rest : List Char} (hne : id ≠ [])
    (hid : ∀ c ∈ id, isNameChar c = true) (hrest : ∀ c ∈ rest.head?, isNameChar c = false) :
    identifier? (id ++ rest) = some (id, rest) := by
  have ht := takeWhile_isNameChar hid hrest
  have hd : (id ++ rest).dropWhile isNameChar = rest := by
    have hsplit := List.takeWhile_append_dropWhile (p := isNameChar) (l := id ++ rest)
    rw [ht] at hsplit
    exact List.append_cancel_left hsplit
  unfold identifier?
  rw [ht, hd]
  cases id with
  | nil => exact absurd rfl hne
  | cons c cs => rfl

/-- An identifier ends at the blank that closes its token. -/
theorem closedIdentifier?_append {id : List Char} (hne : id ≠ [])
    (hid : ∀ c ∈ id, isNameChar c = true) (rest : List Char) :
    closedIdentifier? (id ++ ' ' :: rest) = some (id, rest) := by
  have hblank : ∀ c ∈ (' ' :: rest).head?, isNameChar c = false := by
    intro c hc
    obtain rfl := Option.some.inj hc
    decide
  unfold closedIdentifier?
  rw [identifier?_append hne hid hblank]
  rfl

/-- An identifier is read off a text just where it is written and closed. -/
theorem closedIdentifier?_eq_some_iff {s id rest : List Char} :
    closedIdentifier? s = some (id, rest) ↔
      s = id ++ ' ' :: rest ∧ id ≠ [] ∧ ∀ c ∈ id, isNameChar c = true := by
  constructor
  · intro h
    unfold closedIdentifier? identifier? at h
    cases ht : s.takeWhile isNameChar with
    | nil =>
      rw [ht] at h
      exact nomatch h
    | cons c cs =>
      rw [ht] at h
      dsimp only at h
      split at h
      · next hid =>
        obtain ⟨rfl, hd⟩ := Prod.mk.inj (Option.some.inj hid)
        obtain ⟨rfl, rfl⟩ := Prod.mk.inj (Option.some.inj h)
        refine ⟨?_, List.cons_ne_nil c cs, ?_⟩
        · rw [← ht, ← hd, List.takeWhile_append_dropWhile]
        · intro x hx
          rw [← ht] at hx
          exact List.mem_takeWhile_imp hx
      · exact nomatch h
  · rintro ⟨rfl, hne, hid⟩
    exact closedIdentifier?_append hne hid rest

namespace Directive

/-- A token of another kind is not read. -/
theorem read?_of_ne {d : Directive} {c : Char} (h : c ≠ d.initial) (X : List Char) :
    d.read? (mark ++ c :: X) = none := by
  unfold read?
  rw [isPrefixOf?_mark]
  have hne : ∀ (keyword : List Char), (d.initial :: keyword).isPrefixOf? (c :: X) = none := by
    intro keyword
    rw [List.isPrefixOf?, if_neg]
    rw [beq_iff_eq]
    exact fun he => h he.symm
  cases d with
  | name => exact congrArg (Option.bind · _) (hne "ame#".toList)
  | topic => exact congrArg (Option.bind · _) (hne "opic#".toList)
  | continuation => exact congrArg (Option.map _ ·) (hne "ontinue ".toList)
  | heading => exact congrArg (Option.bind · _) (hne "eading".toList)
  | list => exact congrArg (Option.map _ ·) (hne "ist ".toList)

theorem read?_heading_digits {ds : List Char} (hne : ds ≠ [])
    (hds : ∀ c ∈ ds, Text.isDigit c = true) (X : List Char) :
    heading.read? (mark ++ ("heading".toList ++ '#' :: (ds ++ ' ' :: X))) =
      some (.heading ds, X) := by
  have ht : (ds ++ ' ' :: X).takeWhile Text.isDigit = ds := by
    rw [List.takeWhile_append_of_pos hds, List.takeWhile_cons_of_neg (by decide),
      List.append_nil]
  have hd : (ds ++ ' ' :: X).dropWhile Text.isDigit = ' ' :: X := by
    rw [List.dropWhile_append_of_pos hds, List.dropWhile_cons_of_neg (by decide)]
  unfold read?
  rw [isPrefixOf?_mark]
  dsimp only
  rw [List.isPrefixOf?_eq_some_iff_append_eq.2 rfl, Option.bind_some]
  simp only [ht, hd]
  cases ds with
  | nil => exact absurd rfl hne
  | cons c cs => rfl

/-- A keyword behind the mark. -/
theorem isPrefixOf?_eq_some_iff {k s rest : List Char} :
    k.isPrefixOf? s = some rest ↔ s = k ++ rest := by
  rw [List.isPrefixOf?_eq_some_iff_append_eq, eq_comm]

/-- A token is read off the head of every text that it is written before. -/
theorem read?_text {t : Token} (h : t.Written) (rest : List Char) :
    t.kind.read? (t.text ++ rest) = some (t, rest) := by
  cases t with
  | name id =>
    have hid := closedIdentifier?_append h.1 h.2 rest
    show Option.map _ (closedIdentifier? (id ++ [' '] ++ rest)) = _
    rw [List.append_assoc, List.singleton_append, hid]
    rfl
  | topic id =>
    have hid := closedIdentifier?_append h.1 h.2 rest
    show Option.map _ (closedIdentifier? (id ++ [' '] ++ rest)) = _
    rw [List.append_assoc, List.singleton_append, hid]
    rfl
  | continuation => rfl
  | heading digits =>
    cases digits with
    | nil => rfl
    | cons d ds =>
      have hd := read?_heading_digits (List.cons_ne_nil d ds) h rest
      show Directive.heading.read?
        (mark ++ "heading".toList ++ '#' :: (d :: ds) ++ [' '] ++ rest) = _
      simpa only [List.append_assoc, List.cons_append, List.nil_append] using hd
  | list => rfl

/-- What is read off a text is a token of the kind looked for, as it is written. -/
theorem read?_sound {d : Directive} {text rest : List Char} {t : Token}
    (h : d.read? text = some (t, rest)) :
    t.kind = d ∧ t.Written ∧ text = t.text ++ rest := by
  unfold read? at h
  cases hm : mark.isPrefixOf? text with
  | none =>
    rw [hm] at h
    exact nomatch h
  | some s =>
    rw [hm] at h
    obtain rfl := isPrefixOf?_eq_some_iff.1 hm
    cases d with
    | name =>
      obtain ⟨s', hs, h⟩ := Option.bind_eq_some_iff.1 h
      obtain ⟨⟨id, rest'⟩, hid, he⟩ := Option.map_eq_some_iff.1 h
      obtain rfl := isPrefixOf?_eq_some_iff.1 hs
      obtain ⟨rfl, hwritten⟩ := closedIdentifier?_eq_some_iff.1 hid
      cases he
      exact ⟨rfl, hwritten, by simp [Token.text]⟩
    | topic =>
      obtain ⟨s', hs, h⟩ := Option.bind_eq_some_iff.1 h
      obtain ⟨⟨id, rest'⟩, hid, he⟩ := Option.map_eq_some_iff.1 h
      obtain rfl := isPrefixOf?_eq_some_iff.1 hs
      obtain ⟨rfl, hwritten⟩ := closedIdentifier?_eq_some_iff.1 hid
      cases he
      exact ⟨rfl, hwritten, by simp [Token.text]⟩
    | continuation =>
      obtain ⟨s', hs, he⟩ := Option.map_eq_some_iff.1 h
      obtain rfl := isPrefixOf?_eq_some_iff.1 hs
      cases he
      exact ⟨rfl, trivial, rfl⟩
    | heading =>
      obtain ⟨s', hs, hdigits⟩ := Option.bind_eq_some_iff.1 h
      clear h
      obtain rfl := isPrefixOf?_eq_some_iff.1 hs
      split at hdigits
      · cases hdigits
        exact ⟨rfl, fun c hc => absurd hc List.not_mem_nil, by simp [Token.text]⟩
      · next s'' =>
        split at hdigits
        · next d ds _ ht hd =>
          cases hdigits
          have hs : s'' = (d :: ds) ++ ' ' :: rest := by
            rw [← ht, ← hd, List.takeWhile_append_dropWhile]
          refine ⟨rfl, fun c hc => ?_, by simp [Token.text, hs]⟩
          rw [← ht] at hc
          exact List.mem_takeWhile_imp hc
        · exact nomatch hdigits
      · exact nomatch hdigits
    | list =>
      obtain ⟨s', hs, he⟩ := Option.map_eq_some_iff.1 h
      obtain rfl := isPrefixOf?_eq_some_iff.1 hs
      cases he
      exact ⟨rfl, trivial, rfl⟩

/-- Nothing but the tokens of a kind, as they are written, is read as one. -/
theorem read?_eq_some_iff {d : Directive} {text rest : List Char} {t : Token} :
    d.read? text = some (t, rest) ↔ t.kind = d ∧ t.Written ∧ text = t.text ++ rest := by
  constructor
  · exact read?_sound
  · rintro ⟨rfl, hwritten, rfl⟩
    exact read?_text hwritten rest

/-- A text begins with a token of some kind. -/
def Begins (d : Directive) (text : List Char) : Prop :=
  ∃ (t : Token) (rest : List Char), t.kind = d ∧ t.Written ∧ text = t.text ++ rest

theorem read?_eq_none_iff {d : Directive} {text : List Char} :
    d.read? text = none ↔ ¬ d.Begins text := by
  rw [Option.eq_none_iff_forall_ne_some, Prod.forall]
  unfold Begins
  simp only [ne_eq, read?_eq_some_iff, not_exists]

/-! ## Cutting a text -/

/-- The tokens of a grammar at the head of a text, each looked for once and in order, and the
text after them. -/
def cut : List Directive → List Char → List Token × List Char
  | [], text => ([], text)
  | d :: grammar, text =>
    match d.read? text with
    | none => cut grammar text
    | some (t, rest) => (t :: (cut grammar rest).1, (cut grammar rest).2)

/-- The text behind some tokens does not begin with a token of a kind that comes in the grammar
after all of theirs. -/
def Ends (grammar : List Directive) (tokens : List Token) (rest : List Char) : Prop :=
  ∀ d after, d :: after <:+ grammar → (∀ t ∈ tokens, t.kind ∉ d :: after) → ¬ d.Begins rest

variable {d : Directive} {grammar : List Directive} {tokens : List Token} {rest : List Char}

theorem Ends.congr {tokens' : List Token} (h : Ends grammar tokens rest)
    (hk : tokens'.map Token.kind = tokens.map Token.kind) : Ends grammar tokens' rest := by
  intro d after hsuffix hafter
  refine h d after hsuffix fun t ht hmem => ?_
  have hk' : t.kind ∈ tokens'.map Token.kind := hk ▸ List.mem_map_of_mem ht
  obtain ⟨t', ht', he⟩ := List.mem_map.1 hk'
  exact hafter t' ht' (he ▸ hmem)

/-- A kind in front of the grammar that is not there. -/
theorem ends_cons_of_not_begins (h : Ends grammar tokens rest)
    (hd : (∀ t ∈ tokens, t.kind ∉ d :: grammar) → ¬ d.Begins rest) :
    Ends (d :: grammar) tokens rest := by
  intro d' after hsuffix hafter
  rcases List.suffix_cons_iff.1 hsuffix with he | hsuffix
  · obtain ⟨rfl, rfl⟩ := List.cons.inj he
    exact hd hafter
  · exact h d' after hsuffix hafter

/-- A kind in front of the grammar whose token is there. -/
theorem Ends.cons {t : Token} (h : Ends grammar tokens rest) (ht : t.kind = d) :
    Ends (d :: grammar) (t :: tokens) rest := by
  intro d' after hsuffix hafter
  obtain ⟨hkind, htokens⟩ := List.forall_mem_cons.1 hafter
  rcases List.suffix_cons_iff.1 hsuffix with he | hsuffix
  · rw [he, ht] at hkind
    exact absurd List.mem_cons_self hkind
  · exact h d' after hsuffix htokens

theorem Ends.tail (h : Ends (d :: grammar) tokens rest) : Ends grammar tokens rest :=
  fun d' after hsuffix => h d' after (hsuffix.trans (List.suffix_cons d grammar))

/-- A token whose kind is not in the grammar does not matter. -/
theorem Ends.of_cons {t : Token} (h : Ends grammar (t :: tokens) rest) (ht : t.kind ∉ grammar) :
    Ends grammar tokens rest := by
  intro d' after hsuffix hafter
  refine h d' after hsuffix (List.forall_mem_cons.2 ⟨?_, hafter⟩)
  exact fun hmem => ht (hsuffix.subset hmem)

/-- A text is made of some tokens, in the order of the grammar, and a text that they end before. -/
structure Parts (grammar : List Directive) (text : List Char) (tokens : List Token)
    (rest : List Char) : Prop where
  text_eq : text = tokens.flatMap Token.text ++ rest
  kinds : (tokens.map Token.kind).Sublist grammar
  written : ∀ t ∈ tokens, t.Written
  ends : Ends grammar tokens rest

/-- A text is made of the parts that it is cut into, and of no others. -/
theorem cut_eq_iff (hn : grammar.Nodup) {text : List Char} :
    cut grammar text = (tokens, rest) ↔ Parts grammar text tokens rest := by
  induction grammar generalizing text tokens with
  | nil =>
    rw [cut, Prod.mk.injEq]
    constructor
    · rintro ⟨rfl, rfl⟩
      refine ⟨rfl, .slnil, fun t ht => absurd ht List.not_mem_nil, ?_⟩
      intro d after hsuffix
      exact absurd (List.suffix_nil.1 hsuffix) (List.cons_ne_nil d after)
    · rintro ⟨rfl, hsub, -, -⟩
      obtain rfl := List.map_eq_nil_iff.1 (List.sublist_nil.1 hsub)
      exact ⟨rfl, rfl⟩
  | cons d grammar ih =>
    obtain ⟨hd, hn'⟩ := List.nodup_cons.1 hn
    cases hr : d.read? text with
    | none =>
      have hcut : cut (d :: grammar) text = cut grammar text := by rw [cut, hr]
      have hbegins := read?_eq_none_iff.1 hr
      rw [hcut, ih hn']
      constructor
      · rintro ⟨rfl, hsub, hwritten, hends⟩
        refine ⟨rfl, hsub.cons d, hwritten, ends_cons_of_not_begins hends fun hnone => ?_⟩
        cases tokens with
        | nil => exact hbegins
        | cons t tokens =>
          have hmem := hsub.subset (List.mem_cons_self : t.kind ∈ _)
          exact absurd (List.mem_cons_of_mem d hmem) (hnone t List.mem_cons_self)
      · rintro ⟨rfl, hsub, hwritten, hends⟩
        refine ⟨rfl, ?_, hwritten, hends.tail⟩
        cases tokens with
        | nil => exact List.nil_sublist grammar
        | cons t tokens =>
          refine hsub.of_cons_of_ne fun he => hbegins ?_
          exact ⟨t, tokens.flatMap Token.text ++ rest, he, hwritten t List.mem_cons_self,
            by rw [List.flatMap_cons, List.append_assoc]⟩
    | some a =>
      obtain ⟨t, rest'⟩ := a
      obtain ⟨rfl, ht, rfl⟩ := read?_sound hr
      have hcut : cut (t.kind :: grammar) (t.text ++ rest') =
          (t :: (cut grammar rest').1, (cut grammar rest').2) := by rw [cut, hr]
      rw [hcut, Prod.mk.injEq]
      constructor
      · rintro ⟨rfl, rfl⟩
        obtain ⟨htext, hsub, hwritten, hends⟩ := (ih hn').1 (rfl : cut grammar rest' = _)
        refine ⟨?_, hsub.cons_cons t.kind, List.forall_mem_cons.2 ⟨ht, hwritten⟩, hends.cons rfl⟩
        rw [List.flatMap_cons, List.append_assoc, ← htext]
      · rintro ⟨htext, hsub, hwritten, hends⟩
        cases tokens with
        | nil =>
          refine absurd ⟨t, rest', rfl, ht, htext.symm⟩ (hends t.kind grammar List.suffix_rfl ?_)
          exact fun u hu => absurd hu List.not_mem_nil
        | cons u tokens =>
          have hu := hwritten u List.mem_cons_self
          rw [List.flatMap_cons, List.append_assoc] at htext
          rw [htext] at hr
          by_cases hk : u.kind = t.kind
          · have hr' := read?_text hu (tokens.flatMap Token.text ++ rest)
            rw [hk, hr] at hr'
            obtain ⟨rfl, rfl⟩ := Prod.mk.inj (Option.some.inj hr')
            have hrest : cut grammar (tokens.flatMap Token.text ++ rest) = (tokens, rest) :=
              (ih hn').2 ⟨rfl, List.cons_sublist_cons.1 hsub, fun v hv =>
                hwritten v (List.mem_cons_of_mem _ hv), hends.tail.of_cons hd⟩
            exact ⟨by rw [hrest], by rw [hrest]⟩
          · obtain ⟨X, hX⟩ := u.text_eq
            rw [hX, List.append_assoc, List.cons_append,
              read?_of_ne (initial_ne hk)] at hr
            exact nomatch hr

end Directive

/-- A text with its tokens in canonical form. -/
def canonicalText (text : String) : String :=
  String.ofList ((Directive.cut Directive.grammar text.toList).1.flatMap (·.canonical.text) ++
    (Directive.cut Directive.grammar text.toList).2)

theorem canonicalText_eq {text : String} {tokens : List Token} {rest : List Char}
    (h : Directive.Parts Directive.grammar text.toList tokens rest) :
    canonicalText text =
      String.ofList ((tokens.map Token.canonical).flatMap Token.text ++ rest) := by
  unfold canonicalText
  rw [(Directive.cut_eq_iff (by decide)).2 h, List.flatMap_map]

/-- A text in canonical form is cut at the same places. -/
@[simp] theorem canonicalText_canonicalText (text : String) :
    canonicalText (canonicalText text) = canonicalText text := by
  obtain ⟨tokens, rest, h⟩ : ∃ tokens rest,
      Directive.Parts Directive.grammar text.toList tokens rest :=
    ⟨_, _, (Directive.cut_eq_iff (by decide)).1 rfl⟩
  have hkinds : (tokens.map Token.canonical).map Token.kind = tokens.map Token.kind := by
    simp
  have htwice : (tokens.map Token.canonical).map Token.canonical = tokens.map Token.canonical := by
    rw [List.map_map]
    exact List.map_congr_left fun t _ => t.canonical_canonical
  have hcanonical : Directive.Parts Directive.grammar (canonicalText text).toList
      (tokens.map Token.canonical) rest := by
    constructor
    · rw [canonicalText_eq h, String.toList_ofList]
    · rw [hkinds]
      exact h.kinds
    · simpa using fun t ht => (h.written t ht).canonical
    · exact h.ends.congr hkinds
  rw [canonicalText_eq hcanonical, canonicalText_eq h, htwice]

end Bylaws
