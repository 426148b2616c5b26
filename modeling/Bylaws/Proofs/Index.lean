import Bylaws.Outline
import Bylaws.Proofs.Forest.Shown

/-!
# Ranks and numbers by place

The rank of a node counts the numbered nodes to its left, and its number is written from the
ranks on the way down to it, each with its depth (`Hole.ranks`). So what a paragraph shows
depends on its own fields and on these ranks, and on nothing else of the document
(`Shows.displayText_congr`).
-/

namespace Bylaws

open Forest

/-- Whether a paragraph with some fields is numbered. -/
def Fields.isNumbered (f : Fields) (choices : Choices) : Bool :=
  !f.heading.isSome && !f.continuation && f.isIncluded choices

theorem isNumbered_row (doc : String) (parent : Option Int) (position id : Int) (fields : Fields)
    (choices : Choices) :
    (row doc parent position id fields).isNumbered choices = fields.isNumbered choices := rfl

/-- A rank at a depth. -/
structure Rank where
  count : Nat
  depth : Nat

/-- Some ranks as they are written. -/
def Numbering.texts (c : Numbering) (ranks : List Rank) : Except Fault (List String) :=
  ranks.mapM fun r => c.number r.count r.depth

theorem Numbering.texts_append (c : Numbering) (ranks ranks' : List Rank) :
    c.texts (ranks ++ ranks') = do return (← c.texts ranks) ++ (← c.texts ranks') :=
  List.mapM_append

variable {choices : Choices}

namespace Forest

/-- How many topmost nodes are numbered. -/
def numbered (choices : Choices) : Forest → Nat
  | nil => 0
  | cons _ fields _ rest => (if fields.isNumbered choices then 1 else 0) + rest.numbered choices

/-- The rank of a node right after some trees, if it has one. -/
def rankAfter (choices : Choices) (depth : Nat) (left : Forest) (fields : Fields) : List Rank :=
  if fields.isNumbered choices then [⟨left.numbered choices + 1, depth⟩] else []

theorem numbered_append (f g : Forest) :
    (f ++ g).numbered choices = f.numbered choices + g.numbered choices := by
  induction f with
  | nil => exact (Nat.zero_add _).symm
  | cons id fields below rest _ ih => rw [cons_append, numbered, numbered, ih, Nat.add_assoc]

theorem numbered_tree (id : Int) (fields : Fields) (below : Forest) :
    (tree id fields below).numbered choices = if fields.isNumbered choices then 1 else 0 := rfl

end Forest

/-- The ranks on the way down to a hole. -/
def Hole.ranks (choices : Choices) : Hole → List Rank
  | top => []
  | under left _ fields _ outer =>
    outer.ranks choices ++ left.rankAfter choices outer.depth fields

/-- Siblings before a paragraph are counted if they are numbered. -/
theorem rankAmong_heads_append {id : Int} {l : Forest} (h : id ∉ l.ids) (doc : String)
    (parent : Option Int) (n : Nat) (k : Int) (ps : List Paragraph) :
    rankAmong choices id n (l.heads doc parent k ++ ps) =
      rankAmong choices id (n + l.numbered choices) ps := by
  induction l generalizing n k with
  | nil => rfl
  | cons id' fields below rest _ ih =>
    rw [ids_cons, List.mem_cons, List.mem_append, not_or, not_or] at h
    have hne : ¬ (row doc parent k id' fields).id = id := fun he => h.1 he.symm
    rw [heads, List.cons_append, rankAmong, if_neg hne, ih h.2.2, isNumbered_row, numbered]
    congr 1
    split <;> omega

namespace Store

variable {s : Store}

theorem rankTexts_append (s : Store) (choices : Choices) (c : Numbering) (depth : Nat)
    (ps qs : List Paragraph) :
    s.rankTexts choices c depth (ps ++ qs) = do
      return (← s.rankTexts choices c depth ps) ++
        (← s.rankTexts choices c (depth + ps.length) qs) := by
  induction ps generalizing depth with
  | nil =>
    show s.rankTexts choices c depth qs = (do return [] ++ (← s.rankTexts choices c depth qs))
    cases s.rankTexts choices c depth qs <;> rfl
  | cons p ps ih =>
    have hd : depth + (p :: ps).length = depth + 1 + ps.length := by
      rw [List.length_cons]
      omega
    rw [List.cons_append, rankTexts, rankTexts, hd, ih]
    cases s.rank? choices p with
    | none => rfl
    | some n => simp

/-- Paragraphs with the same ranks have the same texts for them. -/
theorem rankTexts_congr {s t : Store} {choices choices' : Choices} {ps qs : List Paragraph}
    (h : List.Forall₂ (fun p q => s.rank? choices p = t.rank? choices' q) ps qs) (c : Numbering)
    (depth : Nat) : s.rankTexts choices c depth ps = t.rankTexts choices' c depth qs := by
  induction h generalizing depth with
  | nil => rfl
  | cons hp _ ih =>
    unfold rankTexts
    rw [hp, ih (depth + 1)]

namespace Shows

section Node

variable {C : Hole} {l b r : Forest} {id : Int} {fields : Fields}

/-- The rank of a node is one more than there are numbered nodes to its left. -/
theorem rank?_eq (h : s.Shows (C.plug (l ++ cons id fields b r))) :
    s.rank? choices (row s.documentId C.parent (1 + l.width) id fields) =
      if fields.isNumbered choices then some (l.numbered choices + 1) else none := by
  unfold rank?
  rw [isNumbered_row]
  refine if_ctx_congr Iff.rfl (fun hn => ?_) fun _ => rfl
  have hid : id ∉ l.ids := by
    have hids := (Hole.nodup_around h.nodup).of_append_right
    rw [ids_append, ids_cons] at hids
    exact fun hm => List.disjoint_of_nodup_append hids hm List.mem_cons_self
  rw [row_id, row_parent, h.children_eq, heads_append, rankAmong_heads_append hid, heads,
    rankAmong]
  simp [isNumbered_row, hn]

theorem rankTexts_row (h : s.Shows (C.plug (l ++ cons id fields b r))) (c : Numbering) :
    s.rankTexts choices c C.depth [row s.documentId C.parent (1 + l.width) id fields] =
      c.texts (l.rankAfter choices C.depth fields) := by
  unfold rankTexts rankAfter Numbering.texts
  rw [h.rank?_eq]
  cases fields.isNumbered choices with
  | false => rfl
  | true =>
    show (c.number (l.numbered choices + 1 : Nat) C.depth >>= fun text => _) =
      List.mapM _ [(⟨l.numbered choices + 1, C.depth⟩ : Rank)]
    rw [List.mapM_cons, List.mapM_nil]
    rfl

end Node

theorem rankTexts_ancestors {C : Hole} {g : Forest} (h : s.Shows (C.plug g)) (c : Numbering) :
    s.rankTexts choices c 1 (C.ancestors s.documentId) = c.texts (C.ranks choices) := by
  induction C generalizing g with
  | top => rfl
  | under left id fields right outer ih =>
    have ho : s.Shows (outer.plug (left ++ cons id fields g right)) := h
    have hd : 1 + (outer.ancestors s.documentId).length = outer.depth := by
      have := outer.length_ancestors s.documentId
      omega
    unfold Hole.ancestors Hole.ranks
    rw [rankTexts_append, ih ho, hd, ho.rankTexts_row, Numbering.texts_append]

section Node

variable {C : Hole} {l b r : Forest} {id : Int} {fields : Fields}

/-- The number of a node is written from the ranks on the way down to it. -/
theorem number?_eq (h : s.Shows (C.plug (l ++ cons id fields b r))) (c : Numbering) :
    s.number? choices c (row s.documentId C.parent (1 + l.width) id fields) =
      if fields.isNumbered choices then
        (c.texts (C.ranks choices ++ l.rankAfter choices C.depth fields)).map fun texts =>
          some (c.join texts)
      else .ok none := by
  have hd : 1 + (C.ancestors s.documentId).length = C.depth := by
    have := C.length_ancestors s.documentId
    omega
  unfold number?
  rw [isNumbered_row, h.lineage_eq rfl]
  refine if_ctx_congr Iff.rfl (fun _ => ?_) fun _ => rfl
  show (s.rankTexts choices c 1 (C.ancestors s.documentId ++ [_]) >>= fun texts =>
    .ok (some (c.join texts))) = _
  rw [rankTexts_append, h.rankTexts_ancestors, hd, h.rankTexts_row, ← Numbering.texts_append]
  cases c.texts (C.ranks choices ++ l.rankAfter choices C.depth fields) <;> rfl

end Node

/-! ## Nodes of two documents -/

section Nodes

variable {t : Store} {C C' : Hole} {l l' b b' r r' : Forest} {id id' : Int} {fields : Fields}

theorem rank?_congr (h : s.Shows (C.plug (l ++ cons id fields b r)))
    (h' : t.Shows (C'.plug (l' ++ cons id' fields b' r')))
    (hl : l.numbered choices = l'.numbered choices) :
    s.rank? choices (row s.documentId C.parent (1 + l.width) id fields) =
      t.rank? choices (row t.documentId C'.parent (1 + l'.width) id' fields) := by
  rw [h.rank?_eq, h'.rank?_eq, hl]

/-- Nodes with the same fields and the same ranks down to them show the same text. -/
theorem displayText_congr {v : View} (h : s.Shows (C.plug (l ++ cons id fields b r)))
    (h' : t.Shows (C'.plug (l' ++ cons id' fields b' r'))) (hd : C.depth = C'.depth)
    (hr : C.ranks v.choices = C'.ranks v.choices)
    (hl : l.numbered v.choices = l'.numbered v.choices) :
    s.displayText v (row s.documentId C.parent (1 + l.width) id fields) =
      t.displayText v (row t.documentId C'.parent (1 + l'.width) id' fields) := by
  have hn : s.number? v.choices v.numbering (row s.documentId C.parent (1 + l.width) id fields) =
      t.number? v.choices v.numbering (row t.documentId C'.parent (1 + l'.width) id' fields) := by
    rw [h.number?_eq, h'.number?_eq, hr, hd]
    unfold rankAfter
    rw [hl]
  unfold displayText
  rw [hn]
  rfl

end Nodes

end Shows

end Store

end Bylaws
