import Bylaws.Proofs.Token
import Bylaws.Resolution

/-!
# Substitution

What a body shows is what its tokens are replaced by, and between them the text as it stands
(`Body.tokens_replaced`). Which stretches of a text are tokens is said of places alone: a token
begins at the first place where the mark has a character of a name behind it, and takes all
characters of names that follow (`Body.Cuts`).

1. Every text is cut in one way (`Body.exists_cuts`, `Body.Cuts.unique`), and the pieces of a text
   are those that it is cut into (`Body.Cuts.pieces_eq`).
2. A body is its condition, where it is written, and the text that is cut
   (`Body.headed_splitCondition`).
-/

namespace Bylaws

/-- A condition as it is written at the head of a body. -/
def Condition.text (c : Condition) : List Char :=
  mark ++ (if c.polarity then "true#" else "false#").toList ++ c.key.toList ++ [' ']

/-- The key of a condition is an identifier. -/
def Condition.Written (c : Condition) : Prop :=
  c.key.toList ≠ [] ∧ ∀ x ∈ c.key.toList, isNameChar x = true

namespace Body

/-! ## Where tokens are -/

/-- At a place of a text the mark stands with a character of a name behind it. -/
def TokenAt (s : List Char) (i : Nat) : Prop :=
  ∃ c rest, s.drop i = mark ++ c :: rest ∧ isNameChar c = true

/-- A text cut at its tokens: each token by its name, after the text before it, and the text after
the last one. -/
structure Cut where
  tokens : List (List Char × List Char)
  last : List Char

namespace Cut

/-- The text that is cut. -/
def text (d : Cut) : List Char := d.tokens.flatMap (fun t => t.1 ++ mark ++ t.2) ++ d.last

/-- The names of the tokens, in order. -/
def names (d : Cut) : List String := d.tokens.map fun t => String.ofList t.2

/-- The text with something else in place of each token. -/
def filled (d : Cut) (value : String → String) : List Char :=
  d.tokens.flatMap (fun t => t.1 ++ (value (String.ofList t.2)).toList) ++ d.last

/-- The pieces of the text. -/
def pieces (d : Cut) : List Piece :=
  d.tokens.flatMap (fun t => t.1.map .plain ++ [.insertion t.2]) ++ d.last.map .plain

end Cut

/-- How a text is cut. A token begins at the first place where one can, its name goes on as far as
characters of names do, and what remains after it is cut in the same way. -/
inductive Cuts : List Char → Cut → Prop where
  | last {s : List Char} : (∀ i, ¬ TokenAt s i) → Cuts s ⟨[], s⟩
  | token {before name rest : List Char} {d : Cut} :
      (∀ i < before.length, ¬ TokenAt (before ++ (mark ++ (name ++ rest))) i) →
      name ≠ [] → (∀ c ∈ name, isNameChar c = true) → (∀ c ∈ rest.head?, isNameChar c = false) →
      Cuts rest d →
      Cuts (before ++ (mark ++ (name ++ rest))) ⟨(before, name) :: d.tokens, d.last⟩

theorem tokenAt_drop {s : List Char} {i : Nat} : TokenAt (s.drop i) 0 ↔ TokenAt s i := Iff.rfl

theorem tokenAt_zero {name : List Char} (hne : name ≠ []) (hname : ∀ c ∈ name, isNameChar c = true)
    (rest : List Char) : TokenAt (mark ++ (name ++ rest)) 0 := by
  obtain ⟨c, cs, rfl⟩ := List.exists_cons_of_ne_nil hne
  exact ⟨c, cs ++ rest, rfl, hname c List.mem_cons_self⟩

theorem tokenAt_length (before : List Char) {s : List Char} (h : TokenAt s 0) :
    TokenAt (before ++ s) before.length := by
  rw [← tokenAt_drop, List.drop_left]
  exact h

/-- Where a token can begin, a token with a whole name stands. -/
theorem TokenAt.exists_name {s : List Char} (h : TokenAt s 0) :
    ∃ name rest, s = mark ++ (name ++ rest) ∧ name ≠ [] ∧ (∀ c ∈ name, isNameChar c = true) ∧
      ∀ c ∈ rest.head?, isNameChar c = false := by
  obtain ⟨c, cs, hs, hc⟩ := h
  refine ⟨(c :: cs).takeWhile isNameChar, (c :: cs).dropWhile isNameChar, ?_, ?_,
    fun x hx => List.mem_takeWhile_imp hx, fun x hx => ?_⟩
  · rw [List.takeWhile_append_dropWhile]
    exact hs
  · rw [List.takeWhile_cons_of_pos hc]
    exact List.cons_ne_nil _ _
  · have hhead := List.head?_dropWhile_not isNameChar (c :: cs)
    rw [hx] at hhead
    simpa using hhead

/-- Every text can be cut. -/
theorem exists_cuts (s : List Char) : ∃ d, Cuts s d := by
  induction hn : s.length using Nat.strong_induction_on generalizing s with
  | _ n ih =>
    by_cases h : ∃ i, TokenAt s i
    · classical
      have hfirst := Nat.find_spec h
      obtain ⟨name, rest, hs, hne, hname, hrest⟩ := (tokenAt_drop.2 hfirst).exists_name
      have hsplit : s = s.take (Nat.find h) ++ (mark ++ (name ++ rest)) := by
        rw [← hs, List.take_append_drop]
      have hlength : rest.length < n := by
        have hmark : mark.length = 9 := rfl
        rw [← hn, hsplit, List.length_append, List.length_append, List.length_append]
        omega
      obtain ⟨d, hd⟩ := ih rest.length hlength rest rfl
      refine ⟨_, hsplit ▸ Cuts.token (fun i hi => ?_) hne hname hrest hd⟩
      rw [← hsplit]
      exact Nat.find_min h (Nat.lt_of_lt_of_le hi (List.length_take_le _ s))
    · exact ⟨_, .last (not_exists.1 h)⟩

/-- A text is cut in one way only. -/
theorem Cuts.unique {s : List Char} {d d' : Cut} (h : Cuts s d) (h' : Cuts s d') : d = d' := by
  induction h generalizing d' with
  | last hnone =>
    cases h' with
    | last => rfl
    | token _ hne hname => exact absurd (tokenAt_length _ (tokenAt_zero hne hname _)) (hnone _)
  | @token before name rest d hfirst hne hname hrest _ ih =>
    have hat := tokenAt_length before (tokenAt_zero hne hname rest)
    generalize hs : before ++ (mark ++ (name ++ rest)) = s at h' hfirst hat
    cases h' with
    | last hnone => exact absurd hat (hnone _)
    | @token before' name' rest' d' hfirst' hne' hname' hrest' hd' =>
      have hat' := tokenAt_length before' (tokenAt_zero hne' hname' rest')
      -- Neither of the two first tokens comes before the other.
      have hlen : before.length = before'.length := by
        by_contra hlt
        rcases Nat.lt_or_gt_of_ne hlt with hlt | hlt
        · exact hfirst' _ hlt hat
        · exact hfirst _ hlt hat'
      obtain ⟨rfl, htail⟩ := List.append_inj hs hlen
      have htail := List.append_cancel_left htail
      have hnames := congrArg (List.takeWhile isNameChar) htail
      rw [takeWhile_isNameChar hname hrest, takeWhile_isNameChar hname' hrest'] at hnames
      subst hnames
      obtain rfl := List.append_cancel_left htail
      rw [ih hd']

theorem Cuts.text_eq {s : List Char} {d : Cut} (h : Cuts s d) : d.text = s := by
  induction h with
  | last => rfl
  | token _ _ _ _ _ ih =>
    unfold Cut.text at ih ⊢
    rw [List.flatMap_cons, List.append_assoc, ih]
    simp only [List.append_assoc]

/-! ## Pieces -/

theorem piecesAfter_eq (k : Nat) (s : List Char) : piecesAfter k s = pieces (s.drop k) := by
  induction s generalizing k with
  | nil => cases k <;> rfl
  | cons c s ih =>
    cases k with
    | zero => rfl
    | succ k => exact ih k

theorem tokenName?_eq_none {s : List Char} (h : ¬ TokenAt s 0) : tokenName? s = none := by
  unfold tokenName?
  cases hm : mark.isPrefixOf? s with
  | none => rfl
  | some rest =>
    obtain rfl := Directive.isPrefixOf?_eq_some_iff.1 hm
    cases rest with
    | nil => rfl
    | cons c rest =>
      have hc : ¬ isNameChar c = true := fun hc => h ⟨c, rest, rfl, hc⟩
      show Option.map _ (identifier? (c :: rest)) = none
      unfold identifier?
      rw [List.takeWhile_cons_of_neg hc]
      rfl

theorem tokenName?_eq_some {name rest : List Char} (hne : name ≠ [])
    (hname : ∀ c ∈ name, isNameChar c = true) (hrest : ∀ c ∈ rest.head?, isNameChar c = false) :
    tokenName? (mark ++ (name ++ rest)) = some name := by
  unfold tokenName?
  rw [isPrefixOf?_mark, Option.bind_some, identifier?_append hne hname hrest]
  rfl

/-- Before the first place of a token every character is a piece. -/
theorem pieces_append_of_not_tokenAt {t s : List Char}
    (h : ∀ i < t.length, ¬ TokenAt (t ++ s) i) : pieces (t ++ s) = t.map .plain ++ pieces s := by
  induction t with
  | nil => rfl
  | cons c t ih =>
    have hnone := tokenName?_eq_none (h 0 (Nat.succ_pos t.length))
    have ht := ih fun i hi => h (i + 1) (Nat.succ_lt_succ hi)
    show piecesAfter 0 (c :: (t ++ s)) = .plain c :: (t.map .plain ++ pieces s)
    rw [piecesAfter]
    change tokenName? (c :: (t ++ s)) = none at hnone
    rw [hnone, ← ht]
    rfl

/-- A token is one piece. -/
theorem pieces_token {name rest : List Char} (hne : name ≠ [])
    (hname : ∀ c ∈ name, isNameChar c = true) (hrest : ∀ c ∈ rest.head?, isNameChar c = false) :
    pieces (mark ++ (name ++ rest)) = .insertion name :: pieces rest := by
  have hread := tokenName?_eq_some hne hname hrest
  have hmark : mark = '#' :: "rticles#".toList := rfl
  have hdrop : ("rticles#".toList ++ (name ++ rest)).drop (mark.length + name.length - 1) = rest := by
    have hlen : mark.length + name.length - 1 = ("rticles#".toList ++ name).length := by
      rw [List.length_append]
      show 9 + name.length - 1 = 8 + name.length
      omega
    rw [hlen, ← List.append_assoc, List.drop_left]
  rw [hmark, List.cons_append] at hread ⊢
  rw [pieces, piecesAfter, hread]
  dsimp only
  rw [piecesAfter_eq, hdrop]

/-- The pieces of a text are those that it is cut into. -/
theorem Cuts.pieces_eq {s : List Char} {d : Cut} (h : Cuts s d) : pieces s = d.pieces := by
  induction h with
  | @last s hnone =>
    have hs := pieces_append_of_not_tokenAt (t := s) (s := []) fun i _ => by
      rw [List.append_nil]
      exact hnone i
    rw [List.append_nil] at hs
    rw [hs]
    exact List.append_nil _
  | token hfirst hne hname hrest _ ih =>
    rw [pieces_append_of_not_tokenAt hfirst, pieces_token hne hname hrest, ih]
    unfold Cut.pieces
    rw [List.flatMap_cons, List.append_assoc, List.append_assoc]
    rfl

/-- The tokens that are listed are those that a text is cut at. -/
theorem Cut.filterMap_pieces (d : Cut) :
    (d.pieces.filterMap fun
      | .insertion name => some (String.ofList name)
      | .plain _ => none) = d.names := by
  have hplain : ∀ s : List Char, (s.map Piece.plain).filterMap (fun
      | .insertion name => some (String.ofList name)
      | .plain _ => none) = [] := fun s =>
    List.filterMap_eq_nil_iff.2 fun p hp => by
      obtain ⟨c, -, rfl⟩ := List.mem_map.1 hp
      rfl
  obtain ⟨tokens, last⟩ := d
  unfold Cut.pieces Cut.names
  rw [List.filterMap_append, hplain, List.append_nil]
  induction tokens with
  | nil => rfl
  | cons t tokens ih =>
    rw [List.flatMap_cons, List.filterMap_append, List.filterMap_append, hplain, ih]
    rfl

/-- The tokens that are replaced are those that a text is cut at. -/
theorem Cut.flatMap_pieces (d : Cut) (insertions : Insertions) (missing : String) :
    d.pieces.flatMap (fill insertions missing) =
      d.filled fun name => (insertions.find? (canonical name)).getD missing := by
  have hplain : ∀ s : List Char, (s.map Piece.plain).flatMap (fill insertions missing) = s := by
    intro s
    rw [List.flatMap_map]
    exact List.flatMap_singleton' s
  obtain ⟨tokens, last⟩ := d
  unfold Cut.pieces Cut.filled
  rw [List.flatMap_append, hplain]
  refine congrArg (· ++ last) ?_
  rw [List.flatMap_assoc]
  refine List.flatMap_congr fun t _ => ?_
  rw [List.flatMap_append, hplain, List.flatMap_singleton]
  rfl

/-! ## Conditions -/

/-- A body is a condition and the text after it, or a text that begins with no condition. -/
inductive Headed (body : List Char) : Option Condition → List Char → Prop where
  | condition {c : Condition} {rest : List Char} :
      c.Written → body = c.text ++ rest → Headed body (some c) rest
  | plain : (∀ (c : Condition) rest, c.Written → body ≠ c.text ++ rest) → Headed body none body

theorem splitCondition_text {c : Condition} (h : c.Written) (rest : List Char) :
    splitCondition (c.text ++ rest) = (some c, rest) := by
  obtain ⟨polarity, key⟩ := c
  have hkey := closedIdentifier?_append h.1 h.2 rest
  unfold Condition.text
  simp only [List.append_assoc, List.singleton_append]
  unfold splitCondition
  rw [isPrefixOf?_mark]
  cases polarity with
  | true =>
    simp only [if_true, Directive.isPrefixOf?_eq_some_iff.2 rfl, Option.bind_some, hkey,
      Option.map_some, String.ofList_toList]
  | false =>
    have hfalse : "false#".toList.isPrefixOf? ("false#".toList ++ (key.toList ++ ' ' :: rest)) =
        some (key.toList ++ ' ' :: rest) := Directive.isPrefixOf?_eq_some_iff.2 rfl
    have htrue : "true#".toList.isPrefixOf? ("false#".toList ++ (key.toList ++ ' ' :: rest)) =
        none := rfl
    simp only [Bool.false_eq_true, if_false, hfalse, htrue, Option.bind_some, Option.bind_none,
      hkey, Option.map_some, String.ofList_toList]

/-- A word with a key behind it, as it is read. -/
theorem keyed_eq_some {word s rest : List Char} {polarity : Bool} {c : Condition}
    (h : ((word.isPrefixOf? s).bind fun s => (closedIdentifier? s).map fun x =>
      ((⟨polarity, String.ofList x.1⟩ : Condition), x.2)) = some (c, rest)) :
    c.polarity = polarity ∧ c.Written ∧ s = word ++ (c.key.toList ++ ' ' :: rest) := by
  obtain ⟨s', hs, hkeyed⟩ := Option.bind_eq_some_iff.1 h
  obtain ⟨⟨id, rest'⟩, hid, he⟩ := Option.map_eq_some_iff.1 hkeyed
  obtain ⟨rfl, rfl⟩ := Prod.mk.inj he
  obtain ⟨rfl, hwritten⟩ := closedIdentifier?_eq_some_iff.1 hid
  refine ⟨rfl, ?_, ?_⟩
  · unfold Condition.Written
    rwa [String.toList_ofList]
  · rw [String.toList_ofList]
    exact Directive.isPrefixOf?_eq_some_iff.1 hs

theorem splitCondition_cases (body : List Char) :
    splitCondition body = (none, body) ∨
      ∃ c rest, splitCondition body = (some c, rest) ∧ c.Written ∧ body = c.text ++ rest := by
  unfold splitCondition
  cases hm : mark.isPrefixOf? body with
  | none => exact .inl rfl
  | some s =>
    obtain rfl := Directive.isPrefixOf?_eq_some_iff.1 hm
    dsimp only
    split
    next c rest ht =>
      obtain ⟨hpolarity, hwritten, rfl⟩ := keyed_eq_some ht
      refine .inr ⟨c, rest, rfl, hwritten, ?_⟩
      unfold Condition.text
      rw [hpolarity]
      simp
    next c rest _ hf =>
      obtain ⟨hpolarity, hwritten, rfl⟩ := keyed_eq_some hf
      refine .inr ⟨c, rest, rfl, hwritten, ?_⟩
      unfold Condition.text
      rw [hpolarity]
      simp
    next => exact .inl rfl

/-- The condition of a body and the text after it are those that are written. -/
theorem headed_splitCondition (body : List Char) :
    Headed body (splitCondition body).1 (splitCondition body).2 := by
  rcases splitCondition_cases body with h | ⟨c, rest, h, hwritten, hbody⟩
  · rw [h]
    refine .plain fun c rest hwritten hbody => ?_
    rw [hbody, splitCondition_text hwritten] at h
    exact nomatch congrArg Prod.fst h
  · rw [h]
    exact .condition hwritten hbody

theorem isIncluded_condition {c : Condition} (h : c.Written) (rest : List Char)
    (choices : Choices) : isIncluded (String.ofList (c.text ++ rest)) choices = c.admits choices := by
  unfold isIncluded condition?
  rw [String.toList_ofList, splitCondition_text h]

/-! ## What a body shows -/

/-- A body that is left out shows nothing. Of any other the text after the condition is cut at its
tokens, in the one way that there is; these are the tokens that are listed, and what is shown is the
text with the insertion of each name in place of the token, or the marker where there is none. Of
two bodies with opposite conditions on one choice just one is shown. -/
theorem tokens_replaced (body : String) (choices : Choices) (insertions : Insertions)
    (missing : String) :
    (isIncluded body choices = false → resolve? body choices insertions missing = none) ∧
    (isIncluded body choices = true → ∃ rest d,
      Headed body.toList (condition? body) rest ∧ (∀ d', Cuts rest d' ↔ d' = d) ∧ d.text = rest ∧
      d.names = insertionNames body ∧
      resolve? body choices insertions missing = some (String.ofList
        (d.filled fun name => (insertions.find? (canonical name)).getD missing))) ∧
    ∀ key text, Condition.Written ⟨true, key⟩ →
      isIncluded (String.ofList (Condition.text ⟨true, key⟩ ++ text)) choices =
        choices.isTrue key ∧
      isIncluded (String.ofList (Condition.text ⟨false, key⟩ ++ text)) choices =
        !choices.isTrue key := by
  refine ⟨fun h => ?_, fun h => ?_, fun key text hkey => ?_⟩
  · unfold resolve?
    rw [h]
    rfl
  · obtain ⟨d, hd⟩ := exists_cuts (splitCondition body.toList).2
    refine ⟨_, d, headed_splitCondition body.toList, fun d' => ?_, hd.text_eq, ?_, ?_⟩
    · exact ⟨fun hd' => hd'.unique hd, fun he => he ▸ hd⟩
    · rw [insertionNames, hd.pieces_eq]
      exact d.filterMap_pieces.symm
    · rw [resolve?, if_pos h, substitute, hd.pieces_eq, d.flatMap_pieces]
  · exact ⟨isIncluded_condition hkey _ _, isIncluded_condition (c := ⟨false, key⟩) hkey _ _⟩

/-- A value that looks like a token, a mark before a token, and a name without an insertion. -/
theorem tokens_replaced_nested :
    (∃ rest d, (∀ d', Cuts rest d' ↔ d' = d) ∧ d.names = ["A", "b"] ∧
      resolve? "#rticles#true#k #rticles##rticles#A #rticles#b" ⟨[("k", true)]⟩
        ⟨[("a", "#rticles#b")]⟩ "?" = some "#rticles##rticles#b ?") ∧
    isIncluded "#rticles#true#k x" ⟨[("k", true)]⟩ = true ∧
    isIncluded "#rticles#false#k x" ⟨[("k", true)]⟩ = false := by
  obtain ⟨-, hshown, hopposite⟩ := tokens_replaced
    "#rticles#true#k #rticles##rticles#A #rticles#b" ⟨[("k", true)]⟩ ⟨[("a", "#rticles#b")]⟩ "?"
  have hincluded : isIncluded "#rticles#true#k #rticles##rticles#A #rticles#b"
      ⟨[("k", true)]⟩ = true := rfl
  have hlisted : insertionNames "#rticles#true#k #rticles##rticles#A #rticles#b" = ["A", "b"] := rfl
  obtain ⟨rest, d, -, hcut, -, hnames, -⟩ := hshown hincluded
  have hkey : Condition.Written ⟨true, "k"⟩ := by
    refine ⟨by decide, fun x hx => ?_⟩
    obtain rfl : x = 'k' := List.mem_singleton.1 hx
    rfl
  obtain ⟨htrue, hfalse⟩ := hopposite "k" ['x'] hkey
  exact ⟨⟨rest, d, hcut, hnames.trans hlisted, rfl⟩, htrue, hfalse⟩

end Body

end Bylaws
