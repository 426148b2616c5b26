import Bylaws.Proofs.Ranges
import Bylaws.Proofs.Ranks

/-!
# The numbers of topics

`Store.topics_denoted`: where the included paragraphs with some topics are all at the top level
and the top level is numbered plainly, the numbers that are looked up by the topics are the ranks
of these paragraphs in ascending order, and drawn together they stand for the same ranks.

1. The lookup goes through the top level in order (`Shows.withTopics_eq`): positions order the
   paragraphs of one place.
2. The ranks at the top level are one, two, three and so on (`Shows.filterMap_rank?_children`), so
   those that are looked up ascend (`Shows.pairwise_topicRanks`).
3. The number of a paragraph at the top level is its rank in decimal (`Shows.number?_top`).
-/

namespace Bylaws

open Forest

/-- A paragraph has one of some topics. -/
def Paragraph.Tagged (p : Paragraph) (topics : List String) : Prop := ∃ t ∈ topics, p.topic = some t

instance (p : Paragraph) (topics : List String) : Decidable (p.Tagged topics) :=
  inferInstanceAs (Decidable (∃ t ∈ topics, p.topic = some t))

/-- An included paragraph with one of some topics. -/
def Paragraph.isListed (choices : Choices) (topics : List String) (p : Paragraph) : Bool :=
  decide (p.Tagged topics) && p.isIncluded choices

theorem Paragraph.isListed_iff {choices : Choices} {topics : List String} {p : Paragraph} :
    p.isListed choices topics = true ↔ p.Tagged topics ∧ p.isIncluded choices = true := by
  unfold isListed
  rw [Bool.and_eq_true, decide_eq_true_iff]

theorem Numbering.join_singleton (c : Numbering) (text : String) : c.join [text] = text := by
  rw [join_eq_ite, String.intercalate_singleton]
  exact ite_self text

namespace Store

variable {s : Store} {choices : Choices} {c : Numbering} {topics : List String}

/-- Topics are told apart as texts are. -/
theorem any_sameKey_eq (p : Paragraph) (topics : List String) :
    ((topics.map Value.text).any (Value.sameKey · ((p.topic.map Value.text).getD .null))) =
      decide (p.Tagged topics) := by
  rw [Bool.eq_iff_iff, List.any_map, List.any_eq_true, decide_eq_true_iff]
  refine exists_congr fun t => and_congr_right fun _ => ?_
  cases p.topic with
  | none => simp [Value.sameKey, Value.number?]
  | some u =>
    show (t == u) = true ↔ some u = some t
    rw [beq_iff_eq, Option.some.injEq, eq_comm]

/-- Paragraphs in ascending positions are known by their positions. -/
theorem eq_of_position_eq {ps : List Paragraph}
    (h : ps.Pairwise fun p q => p.position < q.position) {p q : Paragraph} (hp : p ∈ ps)
    (hq : q ∈ ps) (he : p.position = q.position) : p = q := by
  have hne : ps.Pairwise fun p q => p.position ≠ q.position := h.imp fun hlt => hlt.ne
  have : Std.Symm fun p q : Paragraph => p.position ≠ q.position := ⟨fun _ _ => Ne.symm⟩
  by_contra hpq
  exact hne.forall hp hq hpq he

/-- Paragraphs of the top level are looked up in their order. -/
theorem Shows.withTopics_eq {f : Forest} (h : s.Shows f)
    (htop : ∀ p ∈ s.paragraphs, p.Tagged topics → p.isIncluded choices = true → p.parent = none) :
    s.withTopics choices (topics.map Value.text) =
      (s.children none).filter (·.isListed choices topics) := by
  have hperm : (s.paragraphs.filter (·.isListed choices topics)).Perm
      ((s.children none).filter (·.isListed choices topics)) := by
    refine .trans (.of_eq ?_) ((s.children_perm none).symm.filter _)
    rw [List.filter_filter]
    refine List.filter_congr fun p hp => ?_
    cases hlisted : p.isListed choices topics with
    | false => rfl
    | true =>
      obtain ⟨htagged, hincluded⟩ := Paragraph.isListed_iff.1 hlisted
      rw [htop p hp htagged hincluded]
      rfl
  have hpositions := (h.pairwise_children none).filter (·.isListed choices topics)
  unfold withTopics
  simp only [any_sameKey_eq]
  refine sortBy_eq_of_perm ?_ ?_ hperm (hpositions.imp fun hlt => by simpa using hlt.le) ?_
  · intro p q
    simpa using le_total p.position q.position
  · intro p q r
    simpa using le_trans
  · intro p q hp hq hpq hqp
    rw [decide_eq_true_iff] at hpq hqp
    exact eq_of_position_eq hpositions hp hq (le_antisymm hpq hqp)

/-! ## Ranks at the top level -/

/-- The ranks of the paragraphs of a place are one, two, three and so on. -/
theorem Shows.filterMap_rank?_children {f : Forest} (h : s.Shows f) (parent : Option Int) :
    (s.children parent).filterMap (s.rank? choices) =
      List.range' 1 ((s.children parent).countP (·.isNumbered choices)) := by
  calc (s.children parent).filterMap (s.rank? choices)
    _ = ((s.children parent).filter (·.isNumbered choices)).filterMap (s.rank? choices) := by
      rw [List.filterMap_filter]
      refine List.filterMap_congr fun p _ => ?_
      cases hn : p.isNumbered choices with
      | false => exact rank?_of_not_numbered hn
      | true => rfl
    _ = (((s.children parent).filter (·.isNumbered choices)).map (s.rank? choices)).filterMap
        id := by
      rw [List.filterMap_map]
      rfl
    _ = List.range' 1 ((s.children parent).countP (·.isNumbered choices)) := by
      rw [h.map_rank?_children, List.filterMap_map]
      exact List.filterMap_some

/-- At the top level a number is a rank in decimal. -/
theorem Shows.number?_top {f : Forest} (h : s.Shows f) (hlevel : c.levelAt 1 = .ok ⟨"decimal", "#"⟩)
    {p : Paragraph} (hp : p ∈ s.paragraphs) (hparent : p.parent = none) :
    s.number? choices c p = .ok ((s.rank? choices p).map Nat.repr) := by
  obtain ⟨C, l, b, r, rfl, hrow⟩ := h.exists_place hp
  rw [Int.add_comm] at hrow
  obtain rfl : C = .top := by
    cases C with
    | top => rfl
    | under left id fields right outer =>
      rw [hrow, row_parent] at hparent
      exact nomatch hparent
  rw [hrow, h.number?_eq, h.rank?_eq]
  unfold rankAfter
  split
  · have htexts : c.texts [⟨l.numbered choices + 1, 1⟩] =
        .ok [Nat.repr (l.numbered choices + 1)] := by
      unfold Numbering.texts
      have hdecimal : c.levelAt 1 = .ok ⟨Style.decimal.name, "#"⟩ := hlevel
      rw [List.mapM_cons, Numbering.number_eq hdecimal]
      rfl
    show (c.texts [⟨l.numbered choices + 1, 1⟩]).map (fun texts => some (c.join texts)) = _
    rw [htexts]
    show Except.ok (some (c.join [Nat.repr (l.numbered choices + 1)])) = _
    rw [Numbering.join_singleton]
    rfl
  · rfl

/-- The numbers of some paragraphs whose numbers are their ranks in decimal. -/
theorem numbersOf_eq_map_repr {ps : List Paragraph}
    (h : ∀ p ∈ ps, s.number? choices c p = .ok ((s.rank? choices p).map Nat.repr)) :
    s.numbersOf choices c ps = .ok ((ps.filterMap (s.rank? choices)).map Nat.repr) := by
  induction ps with
  | nil => rfl
  | cons p ps ih =>
    rw [List.forall_mem_cons] at h
    unfold numbersOf
    rw [h.1, ih h.2, List.filterMap_cons]
    cases s.rank? choices p <;> rfl

theorem isIncluded_of_rank? {p : Paragraph} {n : Nat} (h : s.rank? choices p = some n) :
    p.isIncluded choices = true := by
  cases hn : p.isNumbered choices with
  | false => exact nomatch (rank?_of_not_numbered hn).symm.trans h
  | true =>
    unfold Paragraph.isNumbered at hn
    simp only [Bool.and_eq_true] at hn
    exact hn.2

/-! ## The ranks that are looked up -/

/-- The ranks of the paragraphs of the top level that are included and have one of some topics. -/
def topicRanks (s : Store) (choices : Choices) (topics : List String) : List Nat :=
  ((s.children none).filter (·.isListed choices topics)).filterMap (s.rank? choices)

theorem Shows.pairwise_topicRanks {f : Forest} (h : s.Shows f) :
    (s.topicRanks choices topics).Pairwise (· < ·) := by
  have hsub : (s.topicRanks choices topics).Sublist
      (List.range' 1 ((s.children none).countP (·.isNumbered choices))) :=
    h.filterMap_rank?_children none ▸ List.filter_sublist.filterMap _
  exact List.Pairwise.sublist hsub (List.pairwise_lt_range' ..)

theorem mem_topicRanks_iff
    (htop : ∀ p ∈ s.paragraphs, p.Tagged topics → p.isIncluded choices = true → p.parent = none)
    {n : Nat} :
    n ∈ s.topicRanks choices topics ↔
      ∃ p ∈ s.paragraphs, p.Tagged topics ∧ s.rank? choices p = some n := by
  constructor
  · intro hn
    obtain ⟨p, hp, hrank⟩ := List.mem_filterMap.1 hn
    obtain ⟨hmem, hlisted⟩ := List.mem_filter.1 hp
    exact ⟨p, (mem_children.1 hmem).1, (Paragraph.isListed_iff.1 hlisted).1, hrank⟩
  · rintro ⟨p, hp, htagged, hrank⟩
    have hincluded := isIncluded_of_rank? hrank
    have hmem : p ∈ s.children none := mem_children.2 ⟨hp, htop p hp htagged hincluded⟩
    have hlisted := Paragraph.isListed_iff.2 ⟨htagged, hincluded⟩
    exact List.mem_filterMap.2 ⟨p, List.mem_filter.2 ⟨hmem, hlisted⟩, hrank⟩

/-- The numbers that are looked up by some topics are ranks in decimal. -/
theorem Shows.numbersOf_withTopics {f : Forest} (h : s.Shows f)
    (hlevel : c.levelAt 1 = .ok ⟨"decimal", "#"⟩)
    (htop : ∀ p ∈ s.paragraphs, p.Tagged topics → p.isIncluded choices = true → p.parent = none) :
    s.numbersOf choices c (s.withTopics choices (topics.map Value.text)) =
      .ok ((s.topicRanks choices topics).map Nat.repr) := by
  rw [h.withTopics_eq htop]
  refine numbersOf_eq_map_repr fun p hp => ?_
  obtain ⟨hmem, hparent⟩ := mem_children.1 (List.mem_of_mem_filter hp)
  exact h.number?_top hlevel hmem hparent

/-! ## Ranks that are too long -/

/-- No rank is beyond the number of siblings. -/
theorem Shows.rank?_le_length {f : Forest} (h : s.Shows f) {p : Paragraph}
    (hp : p ∈ s.paragraphs) {n : Nat} (hn : s.rank? choices p = some n) :
    n ≤ (s.children p.parent).length := by
  have hmem : n ∈ (s.children p.parent).filterMap (s.rank? choices) :=
    List.mem_filterMap.2 ⟨p, mem_children.2 ⟨hp, rfl⟩, hn⟩
  rw [h.filterMap_rank?_children, List.mem_range'_1] at hmem
  calc n
    _ ≤ (s.children p.parent).countP (·.isNumbered choices) := by omega
    _ ≤ (s.children p.parent).length := List.countP_le_length

theorem length_children_le (s : Store) (parent : Option Int) :
    (s.children parent).length ≤ s.paragraphs.length := by
  rw [(s.children_perm parent).length_eq]
  exact List.length_filter_le ..

/-- A database bounds the number of siblings. -/
theorem Shows.length_children_le_of_database {f : Forest} (h : s.Shows f)
    (hm : s.medium = .database) (parent : Option Int) :
    (s.children parent).length ≤ 2147483647 := by
  rcases h.children_cases parent with ⟨C, g, rfl, rfl⟩ | hnone
  · rw [h.children_eq, length_heads]
    exact h.width_le hm
  · rw [hnone]
    exact Nat.zero_le _

/-- A rank that is too long to be read is one of a huge document that is kept in memory. -/
theorem Shows.huge_of_places {f : Forest} (h : s.Shows f) {p : Paragraph} (hp : p ∈ s.paragraphs)
    {n : Nat} (hn : s.rank? choices p = some n) (hlong : Decimal.digitLimit < places n) :
    s.medium = .memory ∧ 10 ^ Decimal.digitLimit ≤ s.paragraphs.length := by
  have hpow : 10 ^ Decimal.digitLimit ≤ n := pow_le_of_lt_places (by decide) hlong
  have hrank := h.rank?_le_length hp hn
  refine ⟨?_, hpow.trans (hrank.trans (length_children_le s p.parent))⟩
  cases hm : s.medium with
  | memory => rfl
  | database =>
    have hbound := h.length_children_le_of_database hm p.parent
    have hten : 10 ^ 10 ≤ 10 ^ Decimal.digitLimit :=
      Nat.pow_le_pow_right (by decide) (by decide)
    omega

/-- If the included paragraphs with some topics are all at the top level, and this is numbered
plainly in decimal, then the lookup by these topics gives the ranks of the numbered ones among
them in ascending order; drawn together it stands for just these ranks, unless there are so many
paragraphs in memory that one of the ranks has more digits than are read as a number. -/
theorem topics_denoted (h : s.Reachable) (hlevel : c.levelAt 1 = .ok ⟨"decimal", "#"⟩)
    (htop : ∀ p ∈ s.paragraphs, p.Tagged topics → p.isIncluded choices = true → p.parent = none) :
    ∃ ranks : List Nat, ranks.Pairwise (· < ·) ∧
      (∀ n, n ∈ ranks ↔ ∃ p ∈ s.paragraphs, p.Tagged topics ∧ s.rank? choices p = some n) ∧
      s.topicNumbers choices c (topics.map Value.text) false =
        .ok (String.intercalate ", " (ranks.map Nat.repr)) ∧
      ((∃ text, s.topicNumbers choices c (topics.map Value.text) true = .ok text ∧
          Denotes text ranks) ∨
        (s.medium = .memory ∧ 10 ^ Decimal.digitLimit ≤ s.paragraphs.length) ∧
          Overlong ranks (s.topicNumbers choices c (topics.map Value.text) true)) := by
  obtain ⟨f, hf⟩ := h.exists_shows
  have hnumbers := hf.numbersOf_withTopics hlevel htop
  have hranks : (s.topicRanks choices topics).Pairwise (· < ·) := hf.pairwise_topicRanks
  unfold topicNumbers
  rw [hnumbers]
  refine ⟨_, hranks, fun n => mem_topicRanks_iff htop, rfl, ?_⟩
  refine (consolidate_map_repr hranks).imp_right fun hlong => ⟨?_, hlong⟩
  obtain ⟨n, hn, hplaces, -⟩ := hlong
  obtain ⟨p, hp, -, hrank⟩ := (mem_topicRanks_iff htop).1 hn
  exact hf.huge_of_places hp hrank hplaces

/-- Paragraphs with topics around a heading, and one with another topic. -/
def titled : Store :=
  (Session.run { store := { documentId := "d" } }
    [.edit (.append { body := "a", topic := some "t" } none),
      .edit (.append { body := "A", heading := some 1, topic := some "t" } none),
      .edit (.append { body := "b", topic := some "t" } none),
      .edit (.append { body := "c", topic := some "u" } none),
      .edit (.append { body := "d", topic := some "t" } none)]).store

theorem reachable_titled : titled.Reachable :=
  ⟨_, _, fresh_empty .memory "d", by simp [Event.Holdable, Edit.Holdable], rfl, rfl⟩

theorem topics_denoted_titled :
    titled.topicNumbers {} {} [.text "t"] true = .ok "1–2, 4" ∧
      ∃ ranks : List Nat, ranks.Pairwise (· < ·) ∧
        String.intercalate ", " (ranks.map Nat.repr) = "1, 2, 4" ∧ Denotes "1–2, 4" ranks := by
  have hlist : titled.topicNumbers {} {} [.text "t"] false = .ok "1, 2, 4" := by cbv
  have hdrawn : titled.topicNumbers {} {} [.text "t"] true = .ok "1–2, 4" := by cbv
  have hlevel : Numbering.levelAt {} 1 = .ok ⟨"decimal", "#"⟩ := rfl
  have htop : ∀ p ∈ titled.paragraphs, p.Tagged ["t"] → p.isIncluded {} = true →
      p.parent = none := by decide
  obtain ⟨ranks, hranks, -, hplain, hresult⟩ := topics_denoted reachable_titled hlevel htop
  refine ⟨hdrawn, ranks, hranks, Except.ok.inj (hplain.symm.trans hlist), ?_⟩
  rcases hresult with ⟨text, htext, hdenotes⟩ | ⟨-, n, -, -, herror⟩
  · rwa [← Except.ok.inj (hdrawn.symm.trans htext)] at hdenotes
  · cases hdrawn.symm.trans herror

end Store

end Bylaws
