import Bylaws.Proofs.Index
import Bylaws.Proofs.Numbering
import Bylaws.Proofs.Outline
import Bylaws.Proofs.Rendering.Siblings

/-!
# Scenes

What a document shows, as a tree: the paragraphs that are shown, with the texts that they show,
each over those below it (`Store.scene`). The display outline is the scene as a nested list
(`outline_eq_items`). Its passages in document order are the paragraphs that are shown
(`Shows.map_paragraph_passages`), and a page tells them in the same order but for what is below
the headings of a group, which waits for the last of them (`Scene.arranged`). There is a scene
whenever the numbers that are shown can be written (`Shows.exists_scene`).
-/

namespace Bylaws

open Forest

/-- A paragraph that is shown, with the text that it shows. -/
structure Passage where
  paragraph : Paragraph
  text : String

/-- Whether a passage is a heading that can go on with the one before it. -/
def Passage.continuesHeading (x : Passage) : Bool :=
  x.paragraph.isHeading && x.paragraph.continuation

/-- Passages as a forest: the first one, what is below it, and what comes after it. -/
inductive Scene where
  | nil
  | cons (passage : Passage) (below rest : Scene)

/-- Headings that continue one another, with what is below all of them. A paragraph that is no
heading is a group by itself. -/
structure Group where
  heads : List Passage
  below : List Passage

namespace Group

/-- Whether a group can go on with the heading before it. -/
def continues (g : Group) : Bool :=
  match g.heads with
  | [] => false
  | x :: _ => x.continuesHeading

/-- Puts a passage and what is below it in front of some groups: a heading joins a group that
goes on with it. -/
def join (x : Passage) (below : List Passage) : List Group → List Group
  | [] => [⟨[x], below⟩]
  | g :: gs =>
    if x.paragraph.isHeading && g.continues then ⟨x :: g.heads, below ++ g.below⟩ :: gs
    else ⟨[x], below⟩ :: g :: gs

/-- The passages of some groups: what is below the headings of a group comes after all of them. -/
def inOrder (gs : List Group) : List Passage := gs.flatMap fun g => g.heads ++ g.below

theorem inOrder_cons (g : Group) (gs : List Group) :
    inOrder (g :: gs) = g.heads ++ g.below ++ inOrder gs := rfl

theorem inOrder_append (gs gs' : List Group) : inOrder (gs ++ gs') = inOrder gs ++ inOrder gs' :=
  List.flatMap_append

theorem join_of_not_continues {x : Passage} {below : List Passage} {gs : List Group}
    (h : x.paragraph.isHeading = false ∨ ∀ g ∈ gs.head?, g.continues = false) :
    join x below gs = ⟨[x], below⟩ :: gs := by
  cases gs with
  | nil => rfl
  | cons g gs =>
    refine if_neg fun hc => ?_
    rw [Bool.and_eq_true] at hc
    rcases h with h | h
    · exact absurd hc.1 (by simp [h])
    · exact absurd hc.2 (by simp [h g rfl])

/-- Joining changes the order of passages and loses none. -/
theorem inOrder_join_perm (x : Passage) (below : List Passage) (gs : List Group) :
    (inOrder (join x below gs)).Perm (x :: (below ++ inOrder gs)) := by
  cases gs with
  | nil => rfl
  | cons g gs =>
    rw [join]
    split
    · simp only [inOrder_cons, List.cons_append, List.append_assoc]
      refine .cons x ?_
      rw [← List.append_assoc, ← List.append_assoc below]
      exact List.perm_append_comm.append_right _
    · rfl

end Group

namespace Scene

/-- The passages in document order. -/
def passages : Scene → List Passage
  | nil => []
  | cons x below rest => x :: (below.passages ++ rest.passages)

/-- The passages as an outline. -/
def items : Scene → List Value
  | nil => []
  | cons x below rest => .text x.text :: (nestedItems below.items ++ rest.items)

/-- The topmost passages in their groups, with what is below them in the order of a page. -/
def groups : Scene → List Group
  | nil => []
  | cons x below rest => Group.join x (Group.inOrder below.groups) rest.groups

/-- The passages in the order of a page. -/
def arranged (S : Scene) : List Passage := Group.inOrder S.groups

def isNil : Scene → Bool
  | nil => true
  | cons .. => false

/-- The topmost passages with their texts ended as those of a list. -/
def ended : Scene → Scene
  | nil => nil
  | cons x below rest =>
    cons { x with text := x.text ++ if rest.isNil then "." else ";" } below rest.ended

theorem arranged_perm (S : Scene) : S.arranged.Perm S.passages := by
  induction S with
  | nil => rfl
  | cons x below rest ih₁ ih₂ =>
    exact (Group.inOrder_join_perm _ _ _).trans (.cons x (ih₁.append ih₂))

/-- Without headings that continue one another a page has the document order. -/
theorem arranged_eq_passages {S : Scene} (h : ∀ x ∈ S.passages, x.continuesHeading = false) :
    S.arranged = S.passages := by
  induction S with
  | nil => rfl
  | cons x below rest ih₁ ih₂ =>
    rw [passages, List.forall_mem_cons, List.forall_mem_append] at h
    obtain ⟨-, hbelow, hrest⟩ := h
    have hgroups : ∀ g ∈ rest.groups.head?, g.continues = false := by
      intro g hg
      have hmem := List.mem_of_mem_head? hg
      unfold Group.continues
      split
      · rfl
      · rename_i y ys hheads
        refine hrest y (rest.arranged_perm.mem_iff.1 (List.mem_flatMap.2 ⟨g, hmem, ?_⟩))
        rw [hheads]
        exact List.mem_cons_self
    unfold arranged groups
    rw [Group.join_of_not_continues (.inr hgroups), Group.inOrder_cons]
    exact congrArg (x :: ·) (congrArg₂ _ (ih₁ hbelow) (ih₂ hrest))

theorem punctuated_nestedItems (items rest : List Value) :
    punctuated (nestedItems items ++ rest) =
      (nestedItems items ++ (punctuated rest).1, (punctuated rest).2) := by
  cases items <;> rfl

theorem punctuated_items (S : Scene) : punctuated S.items = (S.ended.items, !S.isNil) := by
  induction S with
  | nil => rfl
  | cons x below rest _ ih =>
    unfold items punctuated
    rw [punctuated_nestedItems, ih]
    cases rest <;> rfl

theorem punctuate_items (S : Scene) : punctuate S.items = S.ended.items :=
  congrArg Prod.fst S.punctuated_items

/-- The topmost passages have one property, and all below them have another one. -/
def Top (P Q : Passage → Prop) : Scene → Prop
  | nil => True
  | cons x below rest => P x ∧ (∀ y ∈ below.passages, Q y) ∧ rest.Top P Q

theorem Top.forall {P Q : Passage → Prop} {S : Scene} (h : S.Top P Q) (hP : ∀ x, P x → Q x) :
    ∀ x ∈ S.passages, Q x := by
  induction S with
  | nil => exact fun x hx => absurd hx List.not_mem_nil
  | cons x below rest _ ih =>
    obtain ⟨hx, hbelow, hrest⟩ := h
    rw [passages, List.forall_mem_cons, List.forall_mem_append]
    exact ⟨hP x hx, hbelow, ih hrest⟩

theorem Top.ended {P Q : Passage → Prop} {S : Scene} (h : S.Top P Q)
    (hP : ∀ x mark, P x → mark = ";" ∨ mark = "." → Q { x with text := x.text ++ mark }) :
    S.ended.Top Q Q := by
  induction S with
  | nil => trivial
  | cons x below rest _ ih =>
    obtain ⟨hx, hbelow, hrest⟩ := h
    refine ⟨hP x _ hx ?_, hbelow, ih hrest⟩
    cases rest.isNil <;> simp

theorem map_paragraph_ended (S : Scene) :
    S.ended.passages.map (·.paragraph) = S.passages.map (·.paragraph) := by
  induction S with
  | nil => rfl
  | cons x below rest _ ih =>
    simp only [ended, passages, List.map_cons, List.map_append, ih]

end Scene

/-! ## Folds of one document -/

/-- Two answers are made of the same nodes, step by step alike. -/
theorem forall₂_foldForest {α β : Type} {R : α → β → Prop}
    {F : Paragraph → List (Paragraph × α) → α} {G : Paragraph → List (Paragraph × β) → β}
    (h : ∀ p xs ys, List.Forall₂ (fun x y => x.1 = y.1 ∧ R x.2 y.2) xs ys → R (F p xs) (G p ys)) :
    ∀ nodes : List Node,
      List.Forall₂ (fun x y => x.1 = y.1 ∧ R x.2 y.2) (foldForest F nodes) (foldForest G nodes)
  | [] => by
    rw [foldForest, foldForest]
    exact .nil
  | .mk p below :: rest => by
    rw [foldForest, foldForest]
    exact .cons ⟨rfl, h p _ _ (forall₂_foldForest h below)⟩ (forall₂_foldForest h rest)

/-- All answers have a property if every step keeps it, at nodes that have another one. -/
theorem forall_foldForest {α : Type} {L : Paragraph → Prop} {Q : α → Prop}
    {F : Paragraph → List (Paragraph × α) → α}
    (h : ∀ p xs, (∀ x ∈ xs, L x.1 ∧ Q x.2) → Q (F p xs)) :
    ∀ (nodes : List Node) (depth : Nat), (∀ e ∈ walkForest depth nodes, L e.1) →
      ∀ x ∈ foldForest F nodes, L x.1 ∧ Q x.2
  | [], _, _ => by
    rw [foldForest]
    exact fun x hx => absurd hx List.not_mem_nil
  | .mk p below :: rest, depth, hL => by
    rw [walkForest, Node.walk, List.cons_append, List.forall_mem_cons,
      List.forall_mem_append] at hL
    obtain ⟨hp, hbelow, hrest⟩ := hL
    rw [foldForest, List.forall_mem_cons]
    exact ⟨⟨hp, h p _ (forall_foldForest h below _ hbelow)⟩, forall_foldForest h rest depth hrest⟩

/-- The text of a passage is what its paragraph shows, ended if it is in a list. -/
def Passage.ShownBy (s : Store) (v : View) (x : Passage) : Prop :=
  ∃ text, s.displayText v x.paragraph = .ok (some text) ∧
    (x.text = text ∨ x.text = text ++ ";" ∨ x.text = text ++ ".")

namespace Store

variable {s : Store} {v : View}

/-- The scene of some siblings, each given with the scene below it. -/
def sceneOf (s : Store) (v : View) : List (Paragraph × Except Fault Scene) → Except Fault Scene
  | [] => .ok .nil
  | (p, below) :: rest => do
    match ← s.displayText v p with
    | none => s.sceneOf v rest
    | some text => return .cons ⟨p, text⟩ (← below) (← s.sceneOf v rest)

/-- The scene below a paragraph. -/
def sceneBelow (s : Store) (v : View) (p : Paragraph)
    (below : List (Paragraph × Except Fault Scene)) : Except Fault Scene := do
  let S ← s.sceneOf v below
  return if p.list then S.ended else S

/-- What a document shows. -/
def scene (s : Store) (v : View) : Except Fault Scene :=
  s.sceneOf v (foldForest (s.sceneBelow v) s.forest)

/-- What the scene of some siblings is, the first of which is left out or shown. -/
theorem sceneOf_cons_eq_ok {p : Paragraph} {below : Except Fault Scene}
    {rest : List (Paragraph × Except Fault Scene)} {S : Scene}
    (h : s.sceneOf v ((p, below) :: rest) = .ok S) :
    (p.isIncluded v.choices = false ∧ s.sceneOf v rest = .ok S) ∨
      ∃ text B R, p.isIncluded v.choices = true ∧ s.displayText v p = .ok (some text) ∧
        below = .ok B ∧ s.sceneOf v rest = .ok R ∧ S = .cons ⟨p, text⟩ B R := by
  unfold sceneOf at h
  obtain ⟨shown, ht, h⟩ := Fault.bind_eq_ok h
  have hp := isSome_of_displayText ht
  cases shown with
  | none => exact .inl ⟨hp.symm, h⟩
  | some text =>
    obtain ⟨B, hB, h⟩ := Fault.bind_eq_ok h
    obtain ⟨R, hR, h⟩ := Fault.bind_eq_ok h
    exact .inr ⟨text, B, R, hp.symm, ht, hB, hR, (Except.ok.inj h).symm⟩

theorem sceneBelow_eq_ok {p : Paragraph} {below : List (Paragraph × Except Fault Scene)}
    {S : Scene} (h : s.sceneBelow v p below = .ok S) :
    ∃ R, s.sceneOf v below = .ok R ∧ S = if p.list then R.ended else R := by
  obtain ⟨R, hR, h⟩ := Fault.bind_eq_ok h
  exact ⟨R, hR, (Except.ok.inj h).symm⟩

/-! ## The outline -/

theorem outlineEntries_eq_items {xs : List (Paragraph × Except Fault (List Value))}
    {ys : List (Paragraph × Except Fault Scene)}
    (h : List.Forall₂ (fun x y => x.1 = y.1 ∧ x.2 = y.2.map Scene.items) xs ys) :
    s.outlineEntries v .display xs = (s.sceneOf v ys).map Scene.items := by
  induction h with
  | nil => rfl
  | @cons x y xs ys hx _ ih =>
    obtain ⟨p, inner⟩ := x
    obtain ⟨q, below⟩ := y
    obtain ⟨rfl, rfl⟩ : p = q ∧ inner = below.map Scene.items := hx
    unfold outlineEntries sceneOf outlineText
    rw [ih]
    cases s.displayText v p with
    | error e => rfl
    | ok text =>
      cases text with
      | none => rfl
      | some text =>
        cases below with
        | error e => rfl
        | ok S => cases s.sceneOf v ys <;> rfl

/-- The display outline is the scene as a nested list. -/
theorem outline_eq_items (s : Store) (v : View) :
    s.outline v .display = (s.scene v).map Scene.items := by
  refine outlineEntries_eq_items
    (forall₂_foldForest (R := fun x (y : Except Fault Scene) => x = y.map Scene.items)
      (fun p xs ys hx => ?_) s.forest)
  unfold outlineBelow sceneBelow
  rw [outlineEntries_eq_items hx]
  cases s.sceneOf v ys with
  | error e => rfl
  | ok S =>
    show Except.ok (if _ then punctuate S.items else S.items) = _
    rw [S.punctuate_items]
    cases p.list <;> rfl

/-! ## The passages -/

/-- All passages of a scene are shown, if there is one. -/
def AllShown (s : Store) (v : View) (x : Except Fault Scene) : Prop :=
  ∀ S, x = .ok S → ∀ y ∈ S.passages, y.ShownBy s v

theorem top_sceneOf {xs : List (Paragraph × Except Fault Scene)}
    (hx : ∀ x ∈ xs, s.AllShown v x.2) {S : Scene} (h : s.sceneOf v xs = .ok S) :
    S.Top (fun x => s.displayText v x.paragraph = .ok (some x.text)) (Passage.ShownBy s v) := by
  induction xs generalizing S with
  | nil =>
    obtain rfl := Except.ok.inj h
    trivial
  | cons x xs ih =>
    obtain ⟨p, below⟩ := x
    rw [List.forall_mem_cons] at hx
    rcases sceneOf_cons_eq_ok h with ⟨-, hS⟩ | ⟨text, B, R, -, ht, hB, hR, rfl⟩
    · exact ih hx.2 hS
    · exact ⟨ht, hx.1 B hB, ih hx.2 hR⟩

theorem allShown_sceneBelow {p : Paragraph} {xs : List (Paragraph × Except Fault Scene)}
    (hx : ∀ x ∈ xs, s.AllShown v x.2) : s.AllShown v (s.sceneBelow v p xs) := by
  intro S h
  obtain ⟨R, hR, rfl⟩ := sceneBelow_eq_ok h
  have htop := top_sceneOf hx hR
  cases p.list with
  | false => exact htop.forall fun x ht => ⟨x.text, ht, .inl rfl⟩
  | true =>
    refine (htop.ended ?_).forall fun _ ht => ht
    rintro x mark ht (rfl | rfl)
    · exact ⟨x.text, ht, .inr (.inl rfl)⟩
    · exact ⟨x.text, ht, .inr (.inr rfl)⟩

theorem allShown_scene (s : Store) (v : View) : s.AllShown v (s.scene v) := by
  intro S h
  have hx := forall_foldForest (L := fun _ => True) (F := s.sceneBelow v) (Q := s.AllShown v)
    (fun _ _ hxs => allShown_sceneBelow fun x hm => (hxs x hm).2) s.forest 1 (fun _ _ => trivial)
  exact (top_sceneOf (fun x hm => (hx x hm).2) h).forall fun x ht => ⟨x.text, ht, .inl rfl⟩

theorem map_paragraph_sceneOf (f : Forest) (doc : String) (parent : Option Int) (k : Int)
    (depth : Nat) {S : Scene}
    (h : s.sceneOf v (foldForest (s.sceneBelow v) (f.nodes doc parent k)) = .ok S) :
    S.passages.map (·.paragraph) =
      (walkForest depth (f.shownNodes v.choices doc parent k)).map Prod.fst := by
  induction f generalizing parent k depth S with
  | nil =>
    rw [nodes, foldForest] at h
    obtain rfl := Except.ok.inj h
    rfl
  | cons id fields below rest ih₁ ih₂ =>
    rw [nodes, foldForest] at h
    rcases sceneOf_cons_eq_ok h with ⟨hp, hS⟩ | ⟨text, B, R, hp, -, hB, hR, rfl⟩
    · rw [isIncluded_row] at hp
      rw [ih₂ parent (k + 1) depth hS, shownNodes, if_neg (by simp [hp])]
    · rw [isIncluded_row] at hp
      obtain ⟨B', hB', rfl⟩ := sceneBelow_eq_ok hB
      have hbelow : (if fields.list then B'.ended else B').passages.map (·.paragraph) =
          B'.passages.map (·.paragraph) := by
        cases fields.list with
        | false => rfl
        | true => exact B'.map_paragraph_ended
      rw [shownNodes, if_pos hp, Scene.passages, walkForest, Node.walk, List.map_cons,
        List.map_append, List.cons_append, List.map_cons, List.map_append,
        ← ih₁ (some id) 1 (depth + 1) hB', ← ih₂ parent (k + 1) depth hR]
      exact congrArg (fun ps => _ :: (ps ++ _)) hbelow

/-- The passages of a document are the paragraphs that are shown, in document order. -/
theorem Shows.map_paragraph_passages {f : Forest} (h : s.Shows f) {S : Scene}
    (hS : s.scene v = .ok S) :
    S.passages.map (·.paragraph) = s.documentOrder.filter (s.isShown v.choices) := by
  unfold scene at hS
  rw [h.forest_eq] at hS
  unfold documentOrder
  rw [List.filter_map, map_paragraph_sceneOf f _ _ _ 1 hS, ← h.shown_walk_eq]
  rfl

end Store

/-! ## Numbers that can be written -/

theorem Numbering.Styled.exists_texts {c : Numbering} (h : c.Styled) (ranks : List Rank) :
    ∃ texts, c.texts ranks = .ok texts := by
  unfold Numbering.texts
  induction ranks with
  | nil => exact ⟨[], rfl⟩
  | cons r ranks ih =>
    obtain ⟨text, ht⟩ := h.exists_number r.count r.depth
    obtain ⟨texts, hts⟩ := ih
    rw [List.mapM_cons, ht, hts]
    exact ⟨_, rfl⟩

/-- All numbers that are shown under a view can be written. -/
def View.Writable (v : View) : Prop := v.withNumbers = false ∨ v.numbering.Styled

namespace Store

variable {s : Store} {v : View}

theorem Shows.exists_number? {f : Forest} (h : s.Shows f) (choices : Choices) {c : Numbering}
    (hc : c.Styled) {p : Paragraph} (hp : p ∈ s.paragraphs) :
    ∃ number, s.number? choices c p = .ok number := by
  obtain ⟨C, l, b, r, rfl, hrow⟩ := h.exists_place hp
  rw [hrow, Int.add_comm, h.number?_eq]
  obtain ⟨texts, ht⟩ := hc.exists_texts
    (C.ranks choices ++ l.rankAfter choices C.depth p.fields)
  rw [ht]
  split
  · exact ⟨_, rfl⟩
  · exact ⟨_, rfl⟩

theorem Shows.exists_displayText {f : Forest} (h : s.Shows f) (hv : v.Writable) {p : Paragraph}
    (hp : p ∈ s.paragraphs) : ∃ shown, s.displayText v p = .ok shown := by
  unfold displayText
  cases Body.resolve? p.body v.choices v.insertions v.missing with
  | none => exact ⟨_, rfl⟩
  | some text =>
    rcases hv with hv | hv
    · rw [hv]
      exact ⟨_, rfl⟩
    · obtain ⟨number, hn⟩ := h.exists_number? v.choices hv hp
      rw [hn]
      cases v.withNumbers <;> exact ⟨_, rfl⟩

theorem exists_sceneOf_of_texts {xs : List (Paragraph × Except Fault Scene)}
    (hx : ∀ x ∈ xs, (∃ shown, s.displayText v x.1 = .ok shown) ∧ ∃ B, x.2 = .ok B) :
    ∃ S, s.sceneOf v xs = .ok S := by
  induction xs with
  | nil => exact ⟨.nil, rfl⟩
  | cons x xs ih =>
    obtain ⟨p, below⟩ := x
    rw [List.forall_mem_cons] at hx
    obtain ⟨⟨⟨shown, ht⟩, B, hB⟩, hxs⟩ := hx
    obtain ⟨R, hR⟩ := ih hxs
    unfold sceneOf
    rw [ht]
    cases shown with
    | none => exact ⟨R, hR⟩
    | some text =>
      obtain rfl : below = .ok B := hB
      rw [hR]
      exact ⟨_, rfl⟩

/-- A document has a scene if every paragraph has a text. -/
theorem exists_scene_of_texts (h : ∀ e ∈ s.walk, ∃ shown, s.displayText v e.1 = .ok shown) :
    ∃ S, s.scene v = .ok S := by
  refine exists_sceneOf_of_texts (forall_foldForest
    (L := fun p => ∃ shown, s.displayText v p = .ok shown) (Q := fun x => ∃ B, x = Except.ok B)
    (fun p xs hxs => ?_) s.forest 1 h)
  obtain ⟨R, hR⟩ := exists_sceneOf_of_texts hxs
  unfold sceneBelow
  rw [hR]
  exact ⟨_, rfl⟩

/-- A document has a scene if every number that is shown can be written. -/
theorem Shows.exists_scene {f : Forest} (h : s.Shows f) (hv : v.Writable) :
    ∃ S, s.scene v = .ok S :=
  exists_scene_of_texts fun e he => h.exists_displayText hv (mem_of_mem_walk e he)

end Store

end Bylaws
