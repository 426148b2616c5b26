import Bylaws.Proofs.Decimal
import Bylaws.Proofs.Token

/-!
# Directives read back

The fields of a text are those that its tokens set, and they are written as the same tokens
again, with the digits of a heading in canonical form. So reading and writing are inverse, up to
these digits in one direction, and for the fields that a text can have in the other
(`Fields.parse_source_inverse`). In particular the text that fields are written as gives the
fields again if they come from a text themselves (`Fields.ofText_source`).
-/

namespace Bylaws

/-! ## Tokens of fields -/

namespace Fields

open Directive

/-- The token that one of the fields is written as. -/
def token? (f : Fields) : Directive → Option Token
  | .name => f.name.map fun s => .name s.toList
  | .topic => f.topic.map fun s => .topic s.toList
  | .continuation => if f.continuation then some .continuation else none
  | .heading => f.heading.map fun n => .heading (levelDigits n.toNat)
  | .list => if f.list then some .list else none

/-- The tokens that fields are written as. -/
def tokens (f : Fields) : List Token := grammar.filterMap f.token?

/-- Whether one of the fields is set. -/
def sets (f : Fields) : Directive → Bool
  | .name => f.name.isSome
  | .topic => f.topic.isSome
  | .continuation => f.continuation
  | .heading => f.heading.isSome
  | .list => f.list

/-- Names, topics and levels as tokens can give them. -/
structure Proper (f : Fields) : Prop where
  name : ∀ s, f.name = some s → s ≠ "" ∧ ∀ c ∈ s.toList, isNameChar c = true
  topic : ∀ s, f.topic = some s → s ≠ "" ∧ ∀ c ∈ s.toList, isNameChar c = true
  heading : ∀ n, f.heading = some n → 0 ≤ n

variable {f f' : Fields} {t : Token} {tokens : List Token} {rest : List Char}

theorem kind_token? {d : Directive} (h : f.token? d = some t) : t.kind = d := by
  cases d with
  | name =>
    obtain ⟨s, -, rfl⟩ := Option.map_eq_some_iff.1 h
    rfl
  | topic =>
    obtain ⟨s, -, rfl⟩ := Option.map_eq_some_iff.1 h
    rfl
  | continuation =>
    obtain ⟨-, ht⟩ := Option.ite_none_right_eq_some.1 h
    obtain rfl := Option.some.inj ht
    rfl
  | heading =>
    obtain ⟨s, -, rfl⟩ := Option.map_eq_some_iff.1 h
    rfl
  | list =>
    obtain ⟨-, ht⟩ := Option.ite_none_right_eq_some.1 h
    obtain rfl := Option.some.inj ht
    rfl

theorem isSome_token? (f : Fields) (d : Directive) : (f.token? d).isSome = f.sets d := by
  cases d with
  | continuation => cases h : f.continuation <;> simp [token?, sets, h]
  | list => cases h : f.list <;> simp [token?, sets, h]
  | _ => exact Option.isSome_map

/-- How the token of one kind is written, if there is one. -/
def written (f : Fields) : Directive → List Char
  | .name => namedToken "name" f.name
  | .topic => namedToken "topic" f.topic
  | .continuation => flagToken "continue" f.continuation
  | .heading => headingToken f.heading
  | .list => flagToken "list" f.list

theorem toList_source (f : Fields) :
    f.source.toList = grammar.flatMap f.written ++ f.body.toList := by
  rw [source, String.toList_ofList]
  simp only [grammar, List.flatMap_cons, List.flatMap_nil, written, List.append_assoc,
    List.append_nil]

theorem namedToken_eq (keyword : String) {name : Option String}
    (h : ∀ s, name = some s → s ≠ "" ∧ ∀ c ∈ s.toList, isNameChar c = true) :
    namedToken keyword name =
      (name.map fun s => mark ++ keyword.toList ++ '#' :: s.toList ++ [' ']).getD [] := by
  cases name with
  | none => rfl
  | some s =>
    unfold namedToken
    exact if_neg fun he => (h s rfl).1 (String.isEmpty_iff.1 he)

theorem headingToken_eq {n : Int} (h : 0 ≤ n) :
    headingToken (some n) = (Token.heading (levelDigits n.toNat)).text := by
  obtain ⟨m, rfl⟩ := Int.eq_ofNat_of_zero_le h
  have hm : (m : Int) = 1 ↔ m = 1 := by omega
  unfold headingToken Token.text levelDigits
  simp only [hm, Int.toNat_natCast]
  split
  · rfl
  · rw [if_neg (by simp), show Decimal.intText m = Nat.repr m from rfl, Text.toList_repr]

/-- What is written for proper fields is their tokens. -/
theorem Proper.written_eq (h : f.Proper) (d : Directive) :
    f.written d = ((f.token? d).map Token.text).getD [] := by
  cases d with
  | name =>
    have hname := namedToken_eq "name" h.name
    unfold written token?
    rw [hname]
    cases f.name <;> simp [Token.text]
  | topic =>
    have htopic := namedToken_eq "topic" h.topic
    unfold written token?
    rw [htopic]
    cases f.topic <;> simp [Token.text]
  | continuation =>
    cases hc : f.continuation <;> simp [written, token?, flagToken, hc, Token.text]
  | heading =>
    unfold written token?
    cases hn : f.heading with
    | none => rfl
    | some n => exact headingToken_eq (h.heading n hn)
  | list => cases hc : f.list <;> simp [written, token?, flagToken, hc, Token.text]

theorem flatMap_filterMap (f : Fields) (ds : List Directive) :
    (ds.filterMap f.token?).flatMap Token.text =
      ds.flatMap fun d => ((f.token? d).map Token.text).getD [] := by
  induction ds with
  | nil => rfl
  | cons d ds ih =>
    rw [List.flatMap_cons, ← ih]
    cases h : f.token? d with
    | none => rw [List.filterMap_cons_none h]; rfl
    | some t => rw [List.filterMap_cons_some h]; rfl

/-- Proper fields are written as their tokens and the body. -/
theorem Proper.toList_source (h : f.Proper) :
    f.source.toList = f.tokens.flatMap Token.text ++ f.body.toList := by
  rw [Fields.toList_source]
  unfold tokens
  rw [flatMap_filterMap, funext h.written_eq]

theorem kinds_tokens (f : Fields) : (f.tokens.map Token.kind).Sublist grammar := by
  unfold tokens
  generalize grammar = ds
  induction ds with
  | nil => exact .slnil
  | cons d ds ih =>
    cases h : f.token? d with
    | none =>
      rw [List.filterMap_cons_none h]
      exact ih.cons d
    | some t =>
      rw [List.filterMap_cons_some h, List.map_cons, kind_token? h]
      exact ih.cons_cons d

theorem mem_grammar (d : Directive) : d ∈ grammar := by
  cases d <;> decide

theorem exists_token_iff {d : Directive} :
    (∃ t ∈ f.tokens, t.kind = d) ↔ f.sets d = true := by
  rw [← isSome_token?, Option.isSome_iff_exists]
  constructor
  · rintro ⟨t, ht, rfl⟩
    obtain ⟨d, -, hd⟩ := List.mem_filterMap.1 ht
    exact ⟨t, kind_token? hd ▸ hd⟩
  · rintro ⟨t, ht⟩
    exact ⟨t, List.mem_filterMap.2 ⟨d, mem_grammar d, ht⟩, kind_token? ht⟩

theorem Proper.written_tokens (h : f.Proper) : ∀ t ∈ f.tokens, t.Written := by
  intro t ht
  obtain ⟨d, -, hd⟩ := List.mem_filterMap.1 ht
  cases d with
  | name =>
    obtain ⟨s, hs, rfl⟩ := Option.map_eq_some_iff.1 hd
    obtain ⟨hne, hchars⟩ := h.name s hs
    exact ⟨fun he => hne (String.toList_eq_nil_iff.1 he), hchars⟩
  | topic =>
    obtain ⟨s, hs, rfl⟩ := Option.map_eq_some_iff.1 hd
    obtain ⟨hne, hchars⟩ := h.topic s hs
    exact ⟨fun he => hne (String.toList_eq_nil_iff.1 he), hchars⟩
  | continuation =>
    obtain ⟨-, he⟩ := Option.ite_none_right_eq_some.1 hd
    obtain rfl := Option.some.inj he
    trivial
  | heading =>
    obtain ⟨n, -, rfl⟩ := Option.map_eq_some_iff.1 hd
    exact fun c hc => Token.isDigit_of_mem_levelDigits hc
  | list =>
    obtain ⟨-, he⟩ := Option.ite_none_right_eq_some.1 hd
    obtain rfl := Option.some.inj he
    trivial

/-! ## Setting fields by tokens -/

/-- Sets the fields that some tokens stand for. -/
def setAll (tokens : List Token) (f : Fields) : Except Fault Fields :=
  tokens.foldlM (fun f t => t.set f) f

theorem setAll_cons_eq_ok (h : setAll (t :: tokens) f = .ok f') :
    ∃ f₁, t.set f = .ok f₁ ∧ setAll tokens f₁ = .ok f' := by
  unfold setAll at h
  rw [List.foldlM_cons] at h
  cases ht : t.set f with
  | error e =>
    rw [ht] at h
    exact nomatch h
  | ok f₁ =>
    rw [ht] at h
    exact ⟨f₁, rfl, h⟩

theorem setAll_cons {f₁ : Fields} (h : t.set f = .ok f₁) (tokens : List Token) :
    setAll (t :: tokens) f = setAll tokens f₁ := by
  unfold setAll
  rw [List.foldlM_cons, h]
  rfl

/-- Reading a grammar sets the fields by the tokens that it cuts off. -/
theorem readTokens_eq (ds : List Directive) (text : List Char) (f : Fields) :
    readTokens ds text f =
      (setAll (cut ds text).1 f).map fun f => { f with body := String.ofList (cut ds text).2 } := by
  induction ds generalizing text f with
  | nil => rfl
  | cons d ds ih =>
    rw [readTokens, cut]
    cases hr : d.read? text with
    | none => exact ih text f
    | some a =>
      obtain ⟨t, rest⟩ := a
      dsimp only
      cases ht : t.set f with
      | error e =>
        unfold setAll
        rw [List.foldlM_cons, ht]
        rfl
      | ok f₁ =>
        rw [setAll_cons ht]
        exact ih rest f₁

/-- The level that is set is the one that the digits stand for, and it is not too long. -/
theorem headingLevel_eq_ok {digits : List Char} {n : Int} (h : headingLevel digits = .ok n) :
    n = levelOf digits ∧ Decimal.isTooLong n = false := by
  unfold headingLevel at h
  unfold levelOf
  split at h
  · next he =>
    obtain rfl := Except.ok.inj h
    rw [if_pos he]
    exact ⟨rfl, by decide +kernel⟩
  · next he =>
    split at h
    · exact nomatch h
    · next hl =>
      obtain rfl := Except.ok.inj h
      rw [if_neg he]
      obtain ⟨limit, hlimit⟩ : ∃ limit, limit = Decimal.digitLimit := ⟨_, rfl⟩
      refine ⟨rfl, (Decimal.isTooLong_eq_false_iff hlimit).2 ?_⟩
      calc Text.digitsValue digits
        _ < 10 ^ digits.length := Text.digitsValue_lt digits
        _ ≤ 10 ^ limit := Nat.pow_le_pow_right (by omega) (by omega)

/-- A level that is not too long is set by the digits that it is written in. -/
theorem headingLevel_levelDigits {n : Int} (h₀ : 0 ≤ n) (h : Decimal.isTooLong n = false) :
    headingLevel (levelDigits n.toNat) = .ok n := by
  obtain ⟨m, rfl⟩ := Int.eq_ofNat_of_zero_le h₀
  obtain ⟨limit, hlimit⟩ : ∃ limit, limit = Decimal.digitLimit := ⟨_, rfl⟩
  have hlt : m < 10 ^ limit := (Decimal.isTooLong_eq_false_iff hlimit).1 h
  have hpos : 0 < limit := by
    rw [hlimit]
    decide
  have hlen : (Nat.toDigits 10 m).length ≤ limit :=
    (Nat.length_toDigits_le_iff (by omega) hpos).2 hlt
  rw [Int.toNat_natCast]
  unfold levelDigits
  split
  · next hm =>
    rw [hm]
    rfl
  · unfold headingLevel
    rw [if_neg (by simp), if_neg (by omega), Text.digitsValue_toDigits]

theorem set_heading_eq_ok {digits : List Char} {f f' : Fields}
    (h : (Token.heading digits).set f = .ok f') :
    ∃ n, headingLevel digits = .ok n ∧ f' = { f with heading := some n } := by
  change (headingLevel digits).map (fun n => { f with heading := some n }) = .ok f' at h
  cases hl : headingLevel digits with
  | error e =>
    rw [hl] at h
    exact nomatch h
  | ok n =>
    rw [hl] at h
    exact ⟨n, rfl, (Except.ok.inj h).symm⟩

theorem set_body (h : t.set f = .ok f') : f'.body = f.body := by
  cases t with
  | heading digits =>
    obtain ⟨n, -, rfl⟩ := set_heading_eq_ok h
    rfl
  | _ =>
    cases h
    rfl

theorem body_setAll (h : setAll tokens f = .ok f') : f'.body = f.body := by
  induction tokens generalizing f with
  | nil =>
    obtain rfl := Except.ok.inj h
    rfl
  | cons t tokens ih =>
    obtain ⟨f₁, ht, h⟩ := setAll_cons_eq_ok h
    rw [ih h, set_body ht]

/-- A token sets the field of its kind, which is written as that token in canonical form. -/
theorem token?_set (h : t.set f = .ok f') : f'.token? t.kind = some t.canonical := by
  cases t with
  | heading digits =>
    obtain ⟨n, hn, rfl⟩ := set_heading_eq_ok h
    obtain ⟨rfl, -⟩ := headingLevel_eq_ok hn
    rfl
  | name id =>
    cases h
    simp [token?, Token.kind, Token.canonical]
  | topic id =>
    cases h
    simp [token?, Token.kind, Token.canonical]
  | _ =>
    cases h
    rfl

/-- A token leaves the fields of other kinds alone. -/
theorem token?_set_of_ne (h : t.set f = .ok f') {d : Directive} (hd : d ≠ t.kind) :
    f'.token? d = f.token? d := by
  cases t with
  | heading digits =>
    obtain ⟨n, -, rfl⟩ := set_heading_eq_ok h
    cases d <;> first | rfl | exact absurd rfl hd
  | _ =>
    cases h
    cases d <;> first | rfl | exact absurd rfl hd

theorem token?_setAll_of_notMem (h : setAll tokens f = .ok f') {d : Directive}
    (hd : d ∉ tokens.map Token.kind) : f'.token? d = f.token? d := by
  induction tokens generalizing f with
  | nil =>
    obtain rfl := Except.ok.inj h
    rfl
  | cons t tokens ih =>
    obtain ⟨f₁, ht, h⟩ := setAll_cons_eq_ok h
    rw [List.map_cons, List.mem_cons, not_or] at hd
    rw [ih h hd.2, token?_set_of_ne ht hd.1]

/-- The fields that tokens in the order of a grammar set are written as these tokens in canonical
form. -/
theorem filterMap_token?_setAll {ds : List Directive} (hn : ds.Nodup)
    (hsub : (tokens.map Token.kind).Sublist ds) (h : setAll tokens f = .ok f')
    (hf : ∀ d ∈ ds, f.token? d = none) :
    ds.filterMap f'.token? = tokens.map Token.canonical := by
  induction ds generalizing tokens f with
  | nil =>
    obtain rfl := List.map_eq_nil_iff.1 (List.sublist_nil.1 hsub)
    rfl
  | cons d ds ih =>
    obtain ⟨hd, hn'⟩ := List.nodup_cons.1 hn
    obtain ⟨hfd, hf'⟩ := List.forall_mem_cons.1 hf
    by_cases hmem : d ∈ tokens.map Token.kind
    · cases tokens with
      | nil => exact absurd hmem List.not_mem_nil
      | cons t tokens =>
        obtain rfl : t.kind = d := by
          by_contra hne
          exact hd ((hsub.of_cons_of_ne hne).subset hmem)
        obtain ⟨f₁, ht, h⟩ := setAll_cons_eq_ok h
        have hrest := List.cons_sublist_cons.1 hsub
        have htoken : f'.token? t.kind = some t.canonical := by
          rw [token?_setAll_of_notMem h fun hm => hd (hrest.subset hm), token?_set ht]
        rw [List.filterMap_cons_some htoken, List.map_cons]
        refine congrArg _ (ih hn' hrest h fun e he => ?_)
        rw [token?_set_of_ne ht (ne_of_mem_of_not_mem he hd)]
        exact hf' e he
    · have htoken : f'.token? d = none := by
        rw [token?_setAll_of_notMem h hmem, hfd]
      rw [List.filterMap_cons_none htoken]
      refine ih hn' ?_ h hf'
      cases tokens with
      | nil => exact List.nil_sublist ds
      | cons t tokens =>
        exact hsub.of_cons_of_ne fun he => hmem (List.mem_cons.2 (.inl he.symm))

/-- Levels within the digit limit. -/
def Writable (f : Fields) : Prop := ∀ n, f.heading = some n → Decimal.isTooLong n = false

theorem Proper.set (hf : f.Proper) (ht : t.Written) (h : t.set f = .ok f') : f'.Proper := by
  cases t with
  | name id =>
    cases h
    refine ⟨?_, hf.topic, hf.heading⟩
    rintro _ ⟨⟩
    rw [ne_eq, String.ofList_eq_empty_iff, String.toList_ofList]
    exact ht
  | topic id =>
    cases h
    refine ⟨hf.name, ?_, hf.heading⟩
    rintro _ ⟨⟩
    rw [ne_eq, String.ofList_eq_empty_iff, String.toList_ofList]
    exact ht
  | heading digits =>
    obtain ⟨n, hn, rfl⟩ := set_heading_eq_ok h
    obtain ⟨rfl, -⟩ := headingLevel_eq_ok hn
    refine ⟨hf.name, hf.topic, ?_⟩
    rintro _ ⟨⟩
    exact Int.natCast_nonneg _
  | _ =>
    cases h
    exact ⟨hf.name, hf.topic, hf.heading⟩

theorem Writable.set (hf : f.Writable) (h : t.set f = .ok f') : f'.Writable := by
  cases t with
  | heading digits =>
    obtain ⟨n, hn, rfl⟩ := set_heading_eq_ok h
    rintro _ ⟨⟩
    exact (headingLevel_eq_ok hn).2
  | _ =>
    cases h
    exact hf

theorem Proper.setAll (hf : f.Proper) (ht : ∀ t ∈ tokens, t.Written)
    (h : setAll tokens f = .ok f') : f'.Proper := by
  induction tokens generalizing f with
  | nil => exact Except.ok.inj h ▸ hf
  | cons t tokens ih =>
    obtain ⟨f₁, h₁, h⟩ := setAll_cons_eq_ok h
    exact ih (hf.set (ht t List.mem_cons_self) h₁) (fun u hu => ht u (List.mem_cons_of_mem t hu)) h

theorem Writable.setAll (hf : f.Writable) (h : Fields.setAll tokens f = .ok f') :
    f'.Writable := by
  induction tokens generalizing f with
  | nil => exact Except.ok.inj h ▸ hf
  | cons t tokens ih =>
    obtain ⟨f₁, h₁, h⟩ := setAll_cons_eq_ok h
    exact ih (hf.set h₁) h

/-- The fields `f` with one of the fields of `p`. -/
def copy (p : Fields) (f : Fields) : Directive → Fields
  | .name => { f with name := p.name }
  | .topic => { f with topic := p.topic }
  | .continuation => { f with continuation := p.continuation }
  | .heading => { f with heading := p.heading }
  | .list => { f with list := p.list }

variable {p : Fields}

theorem sets_copy_of_ne {d e : Directive} (h : e ≠ d) : (p.copy f d).sets e = f.sets e := by
  cases d <;> cases e <;> first | rfl | exact absurd rfl h

/-- A field that is set in neither of two is the same in both. -/
theorem copy_of_not_sets {d : Directive} (hp : p.sets d = false) (hf : f.sets d = false) :
    p.copy f d = f := by
  cases d with
  | name =>
    have h : p.name = f.name :=
      (Option.isNone_iff_eq_none.1 (by simpa [sets] using hp)).trans
        (Option.isNone_iff_eq_none.1 (by simpa [sets] using hf)).symm
    unfold copy
    rw [h]
  | topic =>
    have h : p.topic = f.topic :=
      (Option.isNone_iff_eq_none.1 (by simpa [sets] using hp)).trans
        (Option.isNone_iff_eq_none.1 (by simpa [sets] using hf)).symm
    unfold copy
    rw [h]
  | continuation =>
    have h : p.continuation = f.continuation := hp.trans hf.symm
    unfold copy
    rw [h]
  | heading =>
    have h : p.heading = f.heading :=
      (Option.isNone_iff_eq_none.1 (by simpa [sets] using hp)).trans
        (Option.isNone_iff_eq_none.1 (by simpa [sets] using hf)).symm
    unfold copy
    rw [h]
  | list =>
    have h : p.list = f.list := hp.trans hf.symm
    unfold copy
    rw [h]

/-- The token of one of the fields sets that field. -/
theorem set_token? (hp : p.Proper) (hw : p.Writable) {d : Directive} (h : p.token? d = some t)
    (f : Fields) : t.set f = .ok (p.copy f d) := by
  cases d with
  | name =>
    obtain ⟨s, hs, rfl⟩ := Option.map_eq_some_iff.1 h
    unfold copy
    rw [hs]
    simp [Token.set]
  | topic =>
    obtain ⟨s, hs, rfl⟩ := Option.map_eq_some_iff.1 h
    unfold copy
    rw [hs]
    simp [Token.set]
  | continuation =>
    obtain ⟨hc, he⟩ := Option.ite_none_right_eq_some.1 h
    obtain rfl := Option.some.inj he
    unfold copy
    rw [hc]
    rfl
  | heading =>
    obtain ⟨n, hn, rfl⟩ := Option.map_eq_some_iff.1 h
    have hl := headingLevel_levelDigits (hp.heading n hn) (hw n hn)
    unfold copy Token.set
    dsimp only
    rw [hl, hn]
    rfl
  | list =>
    obtain ⟨hc, he⟩ := Option.ite_none_right_eq_some.1 h
    obtain rfl := Option.some.inj he
    unfold copy
    rw [hc]
    rfl

theorem setAll_filterMap_token? (hp : p.Proper) (hw : p.Writable) {ds : List Directive}
    (hn : ds.Nodup) (hf : ∀ d ∈ ds, f.sets d = false) :
    setAll (ds.filterMap p.token?) f = .ok (ds.foldl p.copy f) := by
  induction ds generalizing f with
  | nil => rfl
  | cons d ds ih =>
    obtain ⟨hd, hn⟩ := List.nodup_cons.1 hn
    obtain ⟨hfd, hf⟩ := List.forall_mem_cons.1 hf
    have hcopy : ∀ e ∈ ds, (p.copy f d).sets e = false := by
      intro e he
      rw [sets_copy_of_ne (ne_of_mem_of_not_mem he hd)]
      exact hf e he
    rw [List.foldl_cons]
    cases ht : p.token? d with
    | none =>
      have hpd : p.sets d = false := by rw [← isSome_token?, ht]; rfl
      rw [List.filterMap_cons_none ht, ih hn hf, copy_of_not_sets hpd hfd]
    | some t =>
      rw [List.filterMap_cons_some ht, setAll_cons (set_token? hp hw ht f), ih hn hcopy]

/-- The tokens of fields set these fields. -/
theorem setAll_tokens (hp : p.Proper) (hw : p.Writable) :
    setAll p.tokens {} = .ok { p with body := "" } :=
  setAll_filterMap_token? hp hw (by decide) (by decide)

/-! ## Reading and writing -/

/-- A text is read as the fields that its tokens set and the text behind them as the body. -/
theorem parse_eq_ok_iff {text : String} :
    parse text = .ok f ↔ ∃ tokens rest, Parts grammar text.toList tokens rest ∧
      setAll tokens {} = .ok { f with body := "" } ∧ f.body = String.ofList rest := by
  unfold parse parseWith
  rw [readTokens_eq]
  simp only [← cut_eq_iff (by decide : grammar.Nodup)]
  generalize cut grammar text.toList = parts
  obtain ⟨tokens, rest⟩ := parts
  constructor
  · intro h
    refine ⟨tokens, rest, rfl, ?_⟩
    cases h₁ : setAll tokens {} with
    | error e =>
      rw [h₁] at h
      exact nomatch h
    | ok f₁ =>
      rw [h₁] at h
      obtain rfl := Except.ok.inj h
      have hbody : f₁.body = "" := body_setAll h₁
      refine ⟨congrArg Except.ok ?_, rfl⟩
      rw [← hbody]
  · rintro ⟨_, _, ⟨rfl, rfl⟩, h, hbody⟩
    dsimp only
    rw [h, ← hbody]
    rfl

/-- The fields of a text are written as its tokens in canonical form. -/
theorem tokens_setAll (hkinds : (tokens.map Token.kind).Sublist grammar)
    (h : setAll tokens {} = .ok { f with body := "" }) : f.tokens = tokens.map Token.canonical := by
  rw [← filterMap_token?_setAll (by decide) hkinds h (by decide)]
  unfold Fields.tokens
  exact List.filterMap_congr fun d _ => by cases d <;> rfl

theorem Proper.of_parse {text : String} (h : parse text = .ok f) : f.Proper := by
  obtain ⟨tokens, rest, hparts, hset, -⟩ := parse_eq_ok_iff.1 h
  have hempty : ({} : Fields).Proper := ⟨nofun, nofun, nofun⟩
  have hproper := hempty.setAll hparts.written hset
  exact ⟨hproper.name, hproper.topic, hproper.heading⟩

theorem Writable.of_parse {text : String} (h : parse text = .ok f) : f.Writable := by
  obtain ⟨tokens, rest, -, hset, -⟩ := parse_eq_ok_iff.1 h
  have hempty : ({} : Fields).Writable := nofun
  have hwritable : Writable { f with body := "" } := hempty.setAll hset
  exact hwritable

/-- A directive that comes in the grammar after all that are set. -/
def IsPast (p : Fields) (d : Directive) : Prop :=
  ∀ e, p.sets e = true → grammar.idxOf e < grammar.idxOf d

theorem mem_suffix_iff {d e : Directive} {after : List Directive} (h : d :: after <:+ grammar) :
    e ∈ d :: after ↔ grammar.idxOf d ≤ grammar.idxOf e := by
  obtain ⟨before, hbefore⟩ := h
  have hnodup : (before ++ d :: after).Nodup := by
    rw [hbefore]
    decide
  have hdisjoint := (List.nodup_append.1 hnodup).2.2
  have he : e ∈ before ∨ e ∈ d :: after := by
    rw [← List.mem_append, hbefore]
    exact mem_grammar e
  have hd : d ∉ before := fun hd => hdisjoint d hd d List.mem_cons_self rfl
  rw [← hbefore, List.idxOf_append_of_notMem hd, List.idxOf_cons_self]
  constructor
  · intro hafter
    have hne : e ∉ before := fun hmem => hdisjoint e hmem e hafter rfl
    rw [List.idxOf_append_of_notMem hne]
    omega
  · intro hle
    refine he.resolve_left fun hmem => ?_
    have hlt : before.idxOf e < before.length := List.idxOf_lt_length_of_mem hmem
    rw [List.idxOf_append_of_mem hmem] at hle
    omega

theorem exists_suffix (d : Directive) : ∃ after, d :: after <:+ grammar := by
  obtain ⟨before, after, h⟩ := List.append_of_mem (mem_grammar d)
  exact ⟨after, before, h.symm⟩

/-- The text behind the tokens of fields does not go on with a token of a directive that comes
after those that are set. -/
theorem ends_tokens_iff : Ends grammar p.tokens rest ↔ ∀ d, p.IsPast d → ¬ d.Begins rest := by
  constructor
  · intro h d hpast
    obtain ⟨after, hsuffix⟩ := exists_suffix d
    refine h d after hsuffix fun t ht hmem => ?_
    have hlt := hpast t.kind (exists_token_iff.1 ⟨t, ht, rfl⟩)
    have hle := (mem_suffix_iff hsuffix).1 hmem
    omega
  · intro h d after hsuffix hnone
    refine h d fun e he => ?_
    obtain ⟨t, ht, rfl⟩ := exists_token_iff.2 he
    by_contra hlt
    exact hnone t ht ((mem_suffix_iff hsuffix).2 (by omega))

/-- The body of fields that are read from a text is one that they can have. -/
theorem not_begins_of_parse {text : String} (h : parse text = .ok f) {d : Directive}
    (hd : f.IsPast d) : ¬ d.Begins f.body.toList := by
  obtain ⟨tokens, rest, hparts, hset, hbody⟩ := parse_eq_ok_iff.1 h
  have hkinds : f.tokens.map Token.kind = tokens.map Token.kind := by
    rw [tokens_setAll hparts.kinds hset, List.map_map]
    exact List.map_congr_left fun t _ => t.kind_canonical
  rw [hbody, String.toList_ofList]
  exact ends_tokens_iff.1 (hparts.ends.congr hkinds) d hd

/-- Fields are read back from what they are written as only if they are those of a text. -/
theorem parse_source_iff (hw : p.Writable) :
    parse p.source = .ok p ↔ p.Proper ∧ ∀ d, p.IsPast d → ¬ d.Begins p.body.toList := by
  constructor
  · intro h
    exact ⟨Proper.of_parse h, fun d hd => not_begins_of_parse h hd⟩
  · rintro ⟨hproper, hbody⟩
    refine parse_eq_ok_iff.2 ⟨p.tokens, p.body.toList, ?_, setAll_tokens hproper hw, ?_⟩
    · exact ⟨hproper.toList_source, p.kinds_tokens, hproper.written_tokens,
        ends_tokens_iff.2 hbody⟩
    · rw [String.ofList_toList]

/-- What fields of a text are written as is read as the same fields. -/
theorem parse_source_of_parse {text : String} (h : parse text = .ok f) :
    parse f.source = .ok f :=
  (parse_source_iff (Writable.of_parse h)).2
    ⟨Proper.of_parse h, fun _ hd => not_begins_of_parse h hd⟩

/-- The fields of a text are written as the text in canonical form. -/
theorem source_of_parse {text : String} (h : parse text = .ok f) :
    f.source = canonicalText text := by
  obtain ⟨tokens, rest, hparts, hset, hbody⟩ := parse_eq_ok_iff.1 h
  rw [← String.toList_inj, (Proper.of_parse h).toList_source, tokens_setAll hparts.kinds hset,
    hbody, String.toList_ofList, canonicalText_eq hparts, String.toList_ofList]

/-- Reading and writing are inverse. A text that can be read is some tokens, of different kinds
and in the order of the grammar, and the body; its fields are written as the same tokens in
canonical form before the same body, and that is read as the same fields. Conversely, fields are
read back from what they are written as just if names and topics are identifiers, the level of a
heading is not negative, and the body does not begin with a token of a directive that comes after
those that are set. -/
theorem parse_source_inverse :
    (∀ (text : String) (f : Fields), parse text = .ok f →
      (∃ (tokens : List Token) (rest : List Char),
        text.toList = tokens.flatMap Token.text ++ rest ∧
        (tokens.map Token.kind).Sublist grammar ∧ (∀ t ∈ tokens, t.Written) ∧
        f.tokens = tokens.map Token.canonical ∧ f.body = String.ofList rest ∧
        f.source.toList = (tokens.map Token.canonical).flatMap Token.text ++ rest) ∧
      parse f.source = .ok f) ∧
    ∀ p : Fields, p.Writable →
      (parse p.source = .ok p ↔ p.Proper ∧ ∀ d, p.IsPast d → ¬ d.Begins p.body.toList) := by
  constructor
  · intro text f h
    constructor
    · obtain ⟨tokens, rest, hparts, hset, hbody⟩ := parse_eq_ok_iff.1 h
      have htokens := tokens_setAll hparts.kinds hset
      refine ⟨tokens, rest, hparts.text_eq, hparts.kinds, hparts.written, htokens, hbody, ?_⟩
      rw [(Proper.of_parse h).toList_source, htokens, hbody, String.toList_ofList]
    · exact parse_source_of_parse h
  · intro p hw
    exact parse_source_iff hw

/-- A second name stays in the body, whichever way one goes. -/
theorem parse_source_inverse_second_name :
    parse { body := "#rticles#name#y b", name := some "x", heading := some 2 : Fields }.source =
        .ok { body := "#rticles#name#y b", name := some "x", heading := some 2 } ∧
      Proper { body := "#rticles#name#y b", name := some "x", heading := some 2 } := by
  have htext : parse "#rticles#name#x #rticles#heading#02 #rticles#name#y b" =
      .ok { body := "#rticles#name#y b", name := some "x", heading := some 2 } := rfl
  have hw := Writable.of_parse htext
  have hsource := (parse_source_inverse.1 _ _ htext).2
  exact ⟨hsource, ((parse_source_inverse.2 _ hw).1 hsource).1⟩

theorem check_eq_ok {fields fields' : Fields} (h : fields.check = .ok fields') :
    fields = fields' := by
  unfold check at h
  split at h
  · split at h
    · exact nomatch h
    · exact Except.ok.inj h
  · exact Except.ok.inj h

theorem ofText_eq_ok {text : String} {f : Fields} (h : ofText text = .ok f) :
    parse text = .ok f ∧ f.check = .ok f := by
  unfold ofText at h
  cases hp : parse text with
  | error e =>
    rw [hp] at h
    exact nomatch h
  | ok f' =>
    rw [hp] at h
    obtain rfl : f' = f := check_eq_ok h
    exact ⟨rfl, h⟩

/-- Fields that come from a text come from the text that they are written as. -/
theorem ofText_source {text : String} {f : Fields} (h : ofText text = .ok f) :
    ofText f.source = .ok f := by
  obtain ⟨hparse, hcheck⟩ := ofText_eq_ok h
  unfold ofText
  rw [parse_source_of_parse hparse]
  exact hcheck

end Fields

end Bylaws
