import Bylaws.Document
import Bylaws.Proofs.Forest.Media
import Bylaws.Proofs.Lookup
import Bylaws.Proofs.Settings

/-!
# The settings that a document uses

A document asks for the choices that the conditions of its paragraphs name, and for the insertions
that the included ones among them name. Under settings that answer these questions alike the same
paragraphs are included (`Store.IncludesAlike`), so ranks, numbers and lookups are the same, and
the same texts are shown (`Store.SeesAlike`), so outlines and pages are the same
(`Document.answers_by_used_settings`). What else is stored in the settings is never seen.
-/

namespace Bylaws

/-! ## Bodies -/

namespace Body

variable {body missing : String} {choices choices' : Choices} {insertions insertions' : Insertions}

theorem isIncluded_congr
    (h : ∀ c, condition? body = some c → choices.isTrue c.key = choices'.isTrue c.key) :
    isIncluded body choices = isIncluded body choices' := by
  unfold isIncluded
  cases hc : condition? body with
  | none => rfl
  | some c =>
    dsimp only
    unfold Condition.admits
    rw [h c hc]

theorem substitute_congr {s : List Char}
    (h : ∀ name, Piece.insertion name ∈ pieces s →
      insertions.text? (String.ofList name) = insertions'.text? (String.ofList name)) :
    substitute s insertions missing = substitute s insertions' missing := by
  unfold substitute
  refine List.flatMap_congr fun piece hp => ?_
  cases piece with
  | plain c => rfl
  | insertion name => simp only [fill, h name hp]

/-- The names of a body are those of the tokens that are replaced in it. -/
theorem mem_insertionNames {name : List Char}
    (h : Piece.insertion name ∈ pieces (splitCondition body.toList).2) :
    String.ofList name ∈ insertionNames body :=
  List.mem_filterMap.2 ⟨.insertion name, h, rfl⟩

theorem resolve?_congr (hi : isIncluded body choices = isIncluded body choices')
    (h : isIncluded body choices = true →
      ∀ name ∈ insertionNames body, insertions.text? name = insertions'.text? name) :
    resolve? body choices insertions missing = resolve? body choices' insertions' missing := by
  unfold resolve?
  rw [← hi]
  refine if_ctx_congr Iff.rfl (fun hb => ?_) fun _ => rfl
  rw [substitute_congr fun name hp => h hb _ (mem_insertionNames hp)]

end Body

/-! ## Nodes of a store -/

/-- Folds are the same if every step is, at paragraphs that have some property. -/
theorem foldForest_congr {α : Type} {L : Paragraph → Prop}
    {F G : Paragraph → List (Paragraph × α) → α}
    (h : ∀ p xs, (∀ x ∈ xs, L x.1) → F p xs = G p xs) :
    ∀ (nodes : List Node) (depth : Nat), (∀ e ∈ walkForest depth nodes, L e.1) →
      foldForest F nodes = foldForest G nodes ∧ ∀ x ∈ foldForest G nodes, L x.1
  | [], _, _ => by
    rw [foldForest, foldForest]
    exact ⟨rfl, fun x hx => absurd hx List.not_mem_nil⟩
  | .mk p below :: rest, depth, hL => by
    rw [walkForest, Node.walk, List.cons_append, List.forall_mem_cons,
      List.forall_mem_append] at hL
    obtain ⟨hp, hbelow, hrest⟩ := hL
    -- A step is the same only where the property holds, so it is carried along.
    obtain ⟨hb, hbL⟩ := foldForest_congr h below _ hbelow
    obtain ⟨hr, hrL⟩ := foldForest_congr h rest depth hrest
    rw [foldForest, foldForest, hb, hr, h p _ hbL]
    exact ⟨rfl, List.forall_mem_cons.2 ⟨hp, hrL⟩⟩

namespace Store

variable {s : Store}

theorem mem_of_mem_climb {fuel : Nat} {p : Paragraph} {ps : List Paragraph}
    (hp : p ∈ s.paragraphs) (h : s.climb fuel p = .ok ps) : ∀ q ∈ ps, q ∈ s.paragraphs := by
  induction fuel generalizing p ps with
  | zero =>
    obtain rfl := Except.ok.inj h
    simpa using hp
  | succ fuel ih =>
    unfold climb at h
    cases hparent : p.parent with
    | none =>
      rw [hparent] at h
      obtain rfl := Except.ok.inj h
      simpa using hp
    | some id =>
      rw [hparent] at h
      obtain ⟨q, hq, h⟩ := Fault.bind_eq_ok h
      obtain ⟨above, habove, h⟩ := Fault.bind_eq_ok h
      obtain rfl := Except.ok.inj h
      refine List.forall_mem_append.2 ⟨ih (get_eq_ok hq).1 habove, ?_⟩
      simpa using hp

/-- Every paragraph on the way down to a stored one is stored. -/
theorem mem_of_mem_lineage {p : Paragraph} {ps : List Paragraph} (hp : p ∈ s.paragraphs)
    (h : s.lineage p = .ok ps) : ∀ q ∈ ps, q ∈ s.paragraphs := mem_of_mem_climb hp h

/-! ## Numbers and lookups -/

/-- The same stored paragraphs are included under two choices. -/
def IncludesAlike (s : Store) (choices choices' : Choices) : Prop :=
  ∀ p ∈ s.paragraphs, p.isIncluded choices = p.isIncluded choices'

namespace IncludesAlike

variable {choices choices' : Choices} {c : Numbering} (h : s.IncludesAlike choices choices')

include h

theorem isNumbered_eq {p : Paragraph} (hp : p ∈ s.paragraphs) :
    p.isNumbered choices = p.isNumbered choices' := by
  unfold Paragraph.isNumbered
  rw [h p hp]

theorem rankAmong_eq (id : Int) (before : Nat) {ps : List Paragraph}
    (hps : ∀ p ∈ ps, p ∈ s.paragraphs) :
    rankAmong choices id before ps = rankAmong choices' id before ps := by
  induction ps generalizing before with
  | nil => rfl
  | cons p ps ih =>
    rw [List.forall_mem_cons] at hps
    unfold rankAmong
    rw [h.isNumbered_eq hps.1]
    dsimp only
    rw [ih _ hps.2]

theorem rank?_eq {p : Paragraph} (hp : p ∈ s.paragraphs) :
    s.rank? choices p = s.rank? choices' p := by
  unfold rank?
  rw [h.isNumbered_eq hp, h.rankAmong_eq p.id 0 fun q hq => (mem_children.1 hq).1]

theorem number?_eq {p : Paragraph} (hp : p ∈ s.paragraphs) :
    s.number? choices c p = s.number? choices' c p := by
  unfold number?
  rw [h.isNumbered_eq hp]
  cases hl : s.lineage p with
  | error e => rfl
  | ok ps =>
    have hranks : List.Forall₂ (fun p q => s.rank? choices p = s.rank? choices' q) ps ps :=
      List.forall₂_same.2 fun q hq => h.rank?_eq (mem_of_mem_lineage hp hl q hq)
    show (if _ then s.rankTexts choices c 1 ps >>= _ else _) = _
    rw [rankTexts_congr hranks c 1]
    rfl

theorem byReference?_eq (reference : String) :
    s.byReference? choices c reference = s.byReference? choices' c reference :=
  firstNumbered_congr (List.forall_mem_map.2 fun e he => h.number?_eq (mem_of_mem_walk e he))

theorem withTopics_eq (topics : List Value) :
    s.withTopics choices topics = s.withTopics choices' topics := by
  refine congrArg (sortBy _) (List.filter_congr fun p hp => ?_)
  rw [h p hp]

theorem topicNumbers_eq (topics : List Value) (consolidated : Bool) :
    s.topicNumbers choices c topics consolidated =
      s.topicNumbers choices' c topics consolidated := by
  unfold topicNumbers
  rw [h.withTopics_eq, numbersOf_congr (List.forall₂_same.2 fun p hp =>
    h.number?_eq (mem_of_mem_withTopics hp))]

end IncludesAlike

/-! ## Renderings -/

/-- The same is seen of the stored paragraphs under two views. -/
structure SeesAlike (s : Store) (v w : View) : Prop where
  includes : s.IncludesAlike v.choices w.choices
  numbering_eq : v.numbering = w.numbering
  withNumbers_eq : v.withNumbers = w.withNumbers
  resolve?_eq : ∀ p ∈ s.paragraphs,
    Body.resolve? p.body v.choices v.insertions v.missing =
      Body.resolve? p.body w.choices w.insertions w.missing

namespace SeesAlike

variable {v w : View} (h : s.SeesAlike v w)

include h

theorem displayText_eq {p : Paragraph} (hp : p ∈ s.paragraphs) :
    s.displayText v p = s.displayText w p := by
  unfold displayText
  rw [h.resolve?_eq p hp, h.withNumbers_eq, h.includes.number?_eq hp, h.numbering_eq]

theorem outlineEntries_eq {xs : List (Paragraph × Except Fault (List Value))}
    (hxs : ∀ x ∈ xs, x.1 ∈ s.paragraphs) :
    s.outlineEntries v .display xs = s.outlineEntries w .display xs := by
  induction xs with
  | nil => rfl
  | cons x xs ih =>
    rw [List.forall_mem_cons] at hxs
    unfold outlineEntries outlineText
    rw [h.displayText_eq hxs.1, ih hxs.2]

theorem outline_eq : s.outline v .display = s.outline w .display := by
  obtain ⟨hfold, hmem⟩ := foldForest_congr (L := (· ∈ s.paragraphs))
    (F := s.outlineBelow v .display) (G := s.outlineBelow w .display)
    (fun p xs hxs => by
      unfold outlineBelow
      rw [h.outlineEntries_eq hxs])
    s.forest 1 mem_of_mem_walk
  unfold outline
  rw [hfold, h.outlineEntries_eq hmem]

theorem shownEntries_eq {xs : List (Paragraph × Except Fault (List Html.Element))}
    (hxs : ∀ x ∈ xs, x.1 ∈ s.paragraphs) : Html.shownEntries s v xs = Html.shownEntries s w xs := by
  induction xs with
  | nil => rfl
  | cons x xs ih =>
    rw [List.forall_mem_cons] at hxs
    unfold Html.shownEntries
    rw [h.displayText_eq hxs.1, ih hxs.2]

omit h in
theorem mem_of_shownEntries {xs : List (Paragraph × Except Fault (List Html.Element))}
    (hxs : ∀ x ∈ xs, x.1 ∈ s.paragraphs) {es : List Html.Entry}
    (hes : Html.shownEntries s v xs = .ok es) : ∀ e ∈ es, e.paragraph ∈ s.paragraphs := by
  induction xs generalizing es with
  | nil =>
    obtain rfl := Except.ok.inj hes
    exact fun e he => absurd he List.not_mem_nil
  | cons x xs ih =>
    rw [List.forall_mem_cons] at hxs
    unfold Html.shownEntries at hes
    obtain ⟨shown, -, hes⟩ := Fault.bind_eq_ok hes
    cases shown with
    | none => exact ih hxs.2 hes
    | some text =>
      obtain ⟨rest, hrest, hes⟩ := Fault.bind_eq_ok hes
      obtain rfl := Except.ok.inj hes
      exact List.forall_mem_cons.2 ⟨hxs.1, ih hxs.2 hrest⟩

/-- Siblings have the same elements: their texts are the same, and so are their ranks. -/
theorem sequence_eq (listed : Bool) {xs : List (Paragraph × Except Fault (List Html.Element))}
    (hxs : ∀ x ∈ xs, x.1 ∈ s.paragraphs) :
    Html.sequence s v listed xs = Html.sequence s w listed xs := by
  unfold Html.sequence
  rw [← h.shownEntries_eq hxs]
  cases hes : Html.shownEntries s v xs with
  | error e => rfl
  | ok es =>
    have halike : List.Forall₂ (Html.Entry.Alike (s.rank? v.choices) (s.rank? w.choices)) es es :=
      List.forall₂_same.2 fun e he =>
        ⟨rfl, h.includes.rank?_eq (mem_of_shownEntries hxs hes e he), rfl, rfl⟩
    cases listed with
    | true => exact Html.blockElements_congr (Html.blocks_alike (Html.endTexts_alike halike))
    | false => exact Html.blockElements_congr (Html.blocks_alike halike)

theorem html_eq : s.html v = s.html w := by
  obtain ⟨hfold, hmem⟩ := foldForest_congr (L := (· ∈ s.paragraphs))
    (F := fun p => Html.sequence s v p.list) (G := fun p => Html.sequence s w p.list)
    (fun p xs hxs => h.sequence_eq p.list hxs) s.forest 1 mem_of_mem_walk
  unfold html page
  dsimp only
  rw [hfold, h.sequence_eq false hmem]

end SeesAlike

/-! ## What is used -/

/-- The condition of a stored paragraph asks for a choice. -/
def UsesChoice (s : Store) (key : String) : Prop :=
  ∃ p ∈ s.paragraphs, ∃ c, Body.condition? p.body = some c ∧ c.key = key

/-- A stored paragraph that is included asks for an insertion. -/
def UsesInsertion (s : Store) (choices : Choices) (name : String) : Prop :=
  ∃ p ∈ s.paragraphs, p.isIncluded choices = true ∧ name ∈ Body.insertionNames p.body

end Store

namespace Document

/-- Choices and insertions agree with those of a document in all that it uses. -/
structure Agrees (d : Document) (choices : Choices) (insertions : Insertions) : Prop where
  isTrue_eq : ∀ key, d.store.UsesChoice key → choices.isTrue key = d.choices.isTrue key
  text?_eq : ∀ name, d.store.UsesInsertion d.choices name →
    insertions.text? name = d.insertions.text? name

/-- Two documents of the same paragraphs are shown alike, and are looked up in alike. -/
structure AnswersAlike (d e : Document) : Prop where
  outline_eq : ∀ withNumbers, e.outline .display withNumbers = d.outline .display withNumbers
  html_eq : ∀ withNumbers, e.html withNumbers = d.html withNumbers
  topicNumbers_eq : ∀ topics consolidated,
    e.topicNumbers topics consolidated = d.topicNumbers topics consolidated
  byReference?_eq : ∀ reference, e.byReference? reference = d.byReference? reference
  rank?_eq : ∀ p ∈ d.store.paragraphs, e.rank? p = d.rank? p
  number?_eq : ∀ p ∈ d.store.paragraphs, e.number? p = d.number? p

variable {d : Document} {choices : Choices} {insertions : Insertions}

namespace Agrees

variable (h : d.Agrees choices insertions)

include h

theorem includesAlike : d.store.IncludesAlike choices d.choices := fun p hp =>
  Body.isIncluded_congr fun c hc => h.isTrue_eq c.key ⟨p, hp, c, hc, rfl⟩

theorem seesAlike (withNumbers : Bool) :
    d.store.SeesAlike ({ d with choices, insertions }.view withNumbers) (d.view withNumbers) where
  includes := h.includesAlike
  numbering_eq := rfl
  withNumbers_eq := rfl
  resolve?_eq := by
    intro p hp
    have hi := h.includesAlike p hp
    exact Body.resolve?_congr hi fun hb name hname => h.text?_eq name ⟨p, hp, hi ▸ hb, hname⟩

theorem answersAlike : d.AnswersAlike { d with choices, insertions } where
  outline_eq := fun withNumbers => (h.seesAlike withNumbers).outline_eq
  html_eq := fun withNumbers => (h.seesAlike withNumbers).html_eq
  topicNumbers_eq := by
    intro topics consolidated
    unfold topicNumbers
    simp only [h.includesAlike.topicNumbers_eq]
  byReference?_eq := h.includesAlike.byReference?_eq
  rank?_eq := fun _ hp => h.includesAlike.rank?_eq hp
  number?_eq := fun _ hp => h.includesAlike.number?_eq hp

end Agrees

/-- A document depends only on the choices and the insertions that it uses. So it makes no
difference whether a choice is not made or is made false, nor what is stored, successfully or not,
under keys that it does not use. -/
theorem answers_by_used_settings (d : Document) :
    (∀ choices insertions, d.Agrees choices insertions →
      d.AnswersAlike { d with choices, insertions }) ∧
    (∀ key choices, d.choices.contains key = .ok false →
      d.choices.set key (.bool false) = .ok choices → d.AnswersAlike { d with choices }) ∧
    (∀ pairs r choices, d.choices.setAll pairs = (r, choices) →
      (∀ key value name, .ok (key, value) ∈ pairs → d.store.UsesChoice name →
        canonicalKey key ≠ .ok (canonical name)) → d.AnswersAlike { d with choices }) ∧
    ∀ pairs r insertions, d.insertions.setAll pairs = (r, insertions) →
      (∀ key value name, .ok (key, value) ∈ pairs → d.store.UsesInsertion d.choices name →
        canonicalKey key ≠ .ok (canonical name)) → d.AnswersAlike { d with insertions } := by
  refine ⟨fun _ _ h => h.answersAlike, ?_, ?_, ?_⟩
  · intro key choices hunset hset
    refine Agrees.answersAlike ⟨fun name _ => ?_, fun _ _ => rfl⟩
    obtain ⟨a, ha, k, hk, rfl⟩ := Settings.set_eq_ok hset
    obtain rfl : false = a := Except.ok.inj ha
    have hnone := Settings.find?_of_contains hunset hk
    -- Under its own key nothing was found and `false` is found now, and neither is true.
    unfold Choices.isTrue
    rw [Settings.find?_insert]
    by_cases hname : canonical name = k
    · rw [if_pos hname, hname, hnone]
      rfl
    · rw [if_neg hname]
  · intro pairs r choices hset hunused
    refine Agrees.answersAlike ⟨fun name hname => ?_, fun _ _ => rfl⟩
    unfold Choices.isTrue
    rw [show choices = (d.choices.setAll pairs).2 by rw [hset],
      Settings.find?_setAll fun key value hmem => hunused key value name hmem hname]
  · intro pairs r insertions hset hunused
    refine Agrees.answersAlike ⟨fun _ _ => rfl, fun name hname => ?_⟩
    unfold Insertions.text?
    rw [show insertions = (d.insertions.setAll pairs).2 by rw [hset],
      Settings.find?_setAll fun key value hmem => hunused key value name hmem hname]

/-- A letter that greets someone if a choice is made, and names a place in any case. -/
def letter : Document where
  store :=
    (Session.run { store := { documentId := "d" } }
      [.edit (.append { body := "#rticles#true#greeted Dear #rticles#name" } none),
        .edit (.append { body := "From #rticles#place" } none)]).store
  insertions := ⟨[("place", "here")]⟩

theorem body_of_mem_letter {p : Paragraph} (hp : p ∈ letter.store.paragraphs) :
    p.body = "#rticles#true#greeted Dear #rticles#name" ∨ p.body = "From #rticles#place" := by
  have hbodies : letter.store.paragraphs.map (·.body) =
      ["#rticles#true#greeted Dear #rticles#name", "From #rticles#place"] := rfl
  have hbody := List.mem_map_of_mem (f := (·.body)) hp
  rw [hbodies] at hbody
  simpa using hbody

/-- Without the greeting nobody sees whether there is a name. -/
theorem answers_by_used_settings_letter :
    letter.choices.find? "greeted" = none ∧ letter.insertions.text? "name" = none ∧
      letter.AnswersAlike
        { letter with
          choices := ⟨[("greeted", false)]⟩
          insertions := ⟨[("place", "here"), ("name", "you")]⟩ } := by
  refine ⟨rfl, rfl, (answers_by_used_settings letter).1 _ _ ⟨?_, ?_⟩⟩
  · rintro key ⟨p, hp, c, hc, rfl⟩
    rcases body_of_mem_letter hp with hb | hb
    · rw [hb] at hc
      obtain rfl := Option.some.inj hc
      rfl
    · rw [hb] at hc
      exact nomatch hc
  · rintro name ⟨p, hp, hi, hname⟩
    unfold Paragraph.isIncluded at hi
    rcases body_of_mem_letter hp with hb | hb
    · rw [hb] at hi
      exact nomatch hi
    · rw [hb] at hname
      obtain rfl := List.mem_singleton.1 hname
      rfl

end Document

end Bylaws
