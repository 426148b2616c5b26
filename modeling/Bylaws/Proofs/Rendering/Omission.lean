import Bylaws.Proofs.Forest.Rename
import Bylaws.Proofs.Rendering.Siblings
import Bylaws.Proofs.Session.Runs

/-!
# What is left out is as if it were not there

A display outline and a page depend only on what is shown of the forest of a document
(`Shows.outline_eq_of_shown`, `Shows.html_eq_of_shown`). Removing a paragraph that is not shown
changes nothing of this, so nothing of the renderings either, however often it is done
(`omitted_as_absent`).
-/

namespace Bylaws.Store

open Forest

variable {s t u : Store} {v : View} {α : Type} {choices : Choices}

/-! ## Forests that look the same -/

theorem included_foldForest_of_omitted {F : Paragraph → List (Paragraph × α) → α} {C : Hole}
    {l b r : Forest} {id : Int} {fields : Fields} (h : fields.isIncluded choices = false) :
    included choices (foldForest F ((cons id fields b r).nodes s.documentId C.parent
        (1 + l.width))) =
      included choices (foldForest F (r.nodes s.documentId C.parent
        (1 + (l ++ tree id fields b).width))) := by
  rw [one_add_width_append_tree, nodes, foldForest]
  exact included_cons_of_omitted (by exact h) _

theorem numbered_append_tree_of_omitted {l b : Forest} {id : Int} {fields : Fields}
    (h : fields.isIncluded choices = false) :
    (l ++ tree id fields b).numbered choices = l.numbered choices := by
  rw [numbered_append, numbered_tree]
  simp [Fields.isNumbered, h]

namespace Shows

variable {F G : Paragraph → List (Paragraph × α) → α} {ρ : Int → Int}

/-- Of two places that show the same under whatever ids, below nodes with the same ranks,
everything is made alike that is made of siblings that look the same. -/
theorem sameSight (hFG : ∀ p q xs ys, p.fields = q.fields → SameSight s t v xs ys →
      F p xs = G q ys) {C C' : Hole} {g g' l l' : Forest} (h : s.Shows (C.plug (l ++ g)))
    (h' : t.Shows (C'.plug (l' ++ g'))) (hd : C.depth = C'.depth)
    (hr : C.ranks v.choices = C'.ranks v.choices)
    (hl : l.numbered v.choices = l'.numbered v.choices)
    (hg : (g.shown v.choices).rename ρ = g'.shown v.choices) :
    SameSight s t v (foldForest F (g.nodes s.documentId C.parent (1 + l.width)))
      (foldForest G (g'.nodes t.documentId C'.parent (1 + l'.width))) := by
  induction g generalizing C C' g' l l' with
  | nil =>
    induction g' generalizing l' with
    | nil =>
      rw [nodes, nodes, foldForest, foldForest]
      exact .nil
    | cons id' fields' below' rest' _ ih =>
      cases hf' : fields'.isIncluded v.choices with
      | true =>
        rw [shown_cons_of_included hf'] at hg
        exact absurd hg (by simp [shown])
      | false =>
        rw [shown_cons_of_omitted hf'] at hg
        unfold SameSight
        rw [included_foldForest_of_omitted hf']
        exact ih h'.past (by rw [numbered_append_tree_of_omitted hf', hl]) hg
  | cons id fields below rest ih₁ ih₂ =>
    cases hf : fields.isIncluded v.choices with
    | false =>
      rw [shown_cons_of_omitted hf] at hg
      unfold SameSight
      rw [included_foldForest_of_omitted hf]
      exact ih₂ h.past h' hd hr (by rw [numbered_append_tree_of_omitted hf, hl]) hg
    | true =>
      rw [shown_cons_of_included hf] at hg
      -- The same node is found behind the ones that are left out on the other side.
      induction g' generalizing l' with
      | nil => exact absurd hg (by simp [shown])
      | cons id' fields' below' rest' _ ih =>
        cases hf' : fields'.isIncluded v.choices with
        | false =>
          rw [shown_cons_of_omitted hf'] at hg
          unfold SameSight
          rw [included_foldForest_of_omitted hf']
          exact ih h'.past (by rw [numbered_append_tree_of_omitted hf', hl]) hg
        | true =>
          rw [shown_cons_of_included hf'] at hg
          obtain ⟨rfl, rfl, hbelow, hrest⟩ := Forest.cons.inj hg
          have hu : s.Shows ((Hole.under l id fields rest C).plug (nil ++ below)) := h.under
          have hu' : t.Shows ((Hole.under l' (ρ id) fields rest' C').plug (nil ++ below')) :=
            h'.under
          have hb := ih₁ hu hu' (show C.depth + 1 = C'.depth + 1 by rw [hd])
            (show C.ranks v.choices ++ _ = C'.ranks v.choices ++ _ by
              rw [hr, hd]
              unfold rankAfter
              rw [hl]) rfl hbelow
          have hrow := ih₂ h.past h'.past hd hr
            (by rw [numbered_append, numbered_append, hl]; rfl) hrest
          rw [one_add_width_append_tree, one_add_width_append_tree] at hrow
          unfold SameSight
          rw [nodes, foldForest, nodes, foldForest, included_cons_of_included (by exact hf),
            included_cons_of_included (by exact hf)]
          exact .cons ⟨rfl, h.displayText_congr h' hd hr hl, h.rank?_congr h' hl,
            hFG _ _ _ _ rfl hb⟩ hrow

variable {f f' : Forest}

/-- Of two documents that show the same under whatever ids, everything is made alike. -/
theorem sameSight_forest (hFG : ∀ p q xs ys, p.fields = q.fields → SameSight s t v xs ys →
      F p xs = G q ys) (h : s.Shows f) (h' : t.Shows f')
    (hf : (f.shown v.choices).rename ρ = f'.shown v.choices) :
    SameSight s t v (foldForest F s.forest) (foldForest G t.forest) := by
  have htop : s.Shows (Hole.top.plug (nil ++ f)) := h
  have htop' : t.Shows (Hole.top.plug (nil ++ f')) := h'
  rw [h.forest_eq, h'.forest_eq]
  exact htop.sameSight hFG htop' rfl rfl rfl hf

theorem outline_eq_of_shown (h : s.Shows f) (h' : t.Shows f')
    (hf : (f.shown v.choices).rename ρ = f'.shown v.choices) :
    s.outline v .display = t.outline v .display :=
  (h.sameSight_forest (fun _ _ _ _ hp hx => hx.outlineBelow_eq hp) h' hf).outlineEntries_eq

theorem html_eq_of_shown (h : s.Shows f) (h' : t.Shows f')
    (hf : (f.shown v.choices).rename ρ = f'.shown v.choices) : s.html v = t.html v := by
  have hseq := h.sameSight_forest (F := fun p => Html.sequence s v p.list)
    (G := fun p => Html.sequence t v p.list) (fun p q xs ys hp hx => ?_) h' hf
  · unfold html page
    dsimp only
    rw [hseq.sequence_eq false]
  · rw [show p.list = q.list from congrArg Fields.list hp]
    exact hx.sequence_eq _

end Shows

/-! ## Removing what is not shown -/

/-- Two documents are rendered alike under some choices, with any insertions, any numbering and
any marker, with numbers and without. -/
def LooksLike (choices : Choices) (s t : Store) : Prop :=
  ∀ v : View, v.choices = choices →
    s.outline v .display = t.outline v .display ∧ s.html v = t.html v

/-- A store is left by removing paragraphs one after the other, each of which is not shown at
its time. -/
inductive Pruned (choices : Choices) (s : Store) : Store → Prop where
  | refl : Pruned choices s s
  | delete {t u : Store} {p : Paragraph} : Pruned choices s t → p ∈ t.paragraphs →
      t.isShown choices p = false → delete p.id t = (.ok (), u) → Pruned choices s u

theorem Shows.looksLike {f f' : Forest} (h : s.Shows f) (h' : t.Shows f')
    (hf : f.shown choices = f'.shown choices) : LooksLike choices s t := by
  rintro v rfl
  have hshown := (rename_id (f.shown v.choices)).trans hf
  exact ⟨h.outline_eq_of_shown h' hshown, h.html_eq_of_shown h' hshown⟩

/-- Removing a paragraph that is not shown. -/
theorem Shows.delete_hidden {f : Forest} (hs : s.spoilt = false) (h : s.Shows f) {p : Paragraph}
    (hp : p ∈ s.paragraphs) (hhid : s.isShown choices p = false) :
    ∃ t f', Store.delete p.id s = (.ok (), t) ∧ t.spoilt = false ∧ t.Shows f' ∧
      f'.shown choices = f.shown choices ∧ t.paragraphs.length < s.paragraphs.length := by
  obtain ⟨C, l, b, r, rfl, hplace⟩ := h.exists_place hp
  obtain ⟨_, t, f', hrun, -, ht, hf, rfl⟩ :=
    (delete_outcome hs h).exists_done (fun _ hn => hn) not_false
  refine ⟨t, _, hrun, ht, hf, ?_, ?_⟩
  · rw [h.isShown_eq (by rw [hplace, row_parent])] at hhid
    cases hC : C.isShown choices with
    | false => exact Hole.shown_plug_of_not_isShown hC _ _
    | true =>
      have homit : p.isIncluded choices = false := by simpa [hC] using hhid
      have hfields : p.fields.isIncluded choices = false := homit
      refine C.shown_plug_congr ?_
      rw [shown_append, shown_append, shown_cons_of_omitted hfields]
  · have h₁ := (Hole.ids_plug_perm C (l ++ cons p.id p.fields b r)).length_eq
    have h₂ := (Hole.ids_plug_perm C (l ++ r)).length_eq
    rw [h.length_eq, hf.length_eq, h₁, h₂]
    simp only [ids_append, ids_cons, List.length_append, List.length_cons]
    omega

theorem Shows.pruned {f : Forest} (hs : s.spoilt = false) (h : s.Shows f)
    (hp : Pruned choices s t) :
    t.spoilt = false ∧ ∃ f', t.Shows f' ∧ f'.shown choices = f.shown choices := by
  induction hp with
  | refl => exact ⟨hs, f, h, rfl⟩
  | delete _ hm hhid hrun ih =>
    obtain ⟨ht, f₁, h₁, hf₁⟩ := ih
    obtain ⟨u, f₂, hrun₂, hu, h₂, hf₂, -⟩ := h₁.delete_hidden ht hm hhid
    obtain rfl := (Prod.mk.inj (hrun.symm.trans hrun₂)).2
    exact ⟨hu, f₂, h₂, hf₂.trans hf₁⟩

/-- A document can be pruned until all that is left is shown. -/
theorem Shows.exists_pruned {f : Forest} (hs : s.spoilt = false) (h : s.Shows f) :
    ∃ t, Pruned choices s t ∧ ∀ p ∈ t.paragraphs, t.isShown choices p = true := by
  suffices key : ∀ n t f', Pruned choices s t → t.spoilt = false → t.Shows f' →
      t.paragraphs.length < n →
      ∃ u, Pruned choices s u ∧ ∀ p ∈ u.paragraphs, u.isShown choices p = true from
    key _ s f .refl hs h (Nat.lt_succ_self _)
  intro n
  induction n with
  | zero => exact fun _ _ _ _ _ hlt => absurd hlt (Nat.not_lt_zero _)
  | succ n ih =>
    intro t f' hp ht h' hlt
    by_cases hall : ∀ p ∈ t.paragraphs, t.isShown choices p = true
    · exact ⟨t, hp, hall⟩
    · simp only [not_forall] at hall
      obtain ⟨p, hm, hhid⟩ := hall
      have hhid : t.isShown choices p = false := by simpa using hhid
      obtain ⟨u, f₂, hrun, hu, h₂, -, hless⟩ := h'.delete_hidden ht hm hhid
      exact ih u f₂ (.delete hp hm hhid hrun) hu h₂ (by omega)

/-- The lines of a document of which all is shown are what another one shows. -/
theorem Shows.lines_eq_of_all_shown {f f' : Forest} (h : s.Shows f) (h' : t.Shows f')
    (hf : f'.shown choices = f.shown choices)
    (hall : ∀ p ∈ t.paragraphs, t.isShown choices p = true) :
    t.lines = (s.walk.filter fun e => s.isShown choices e.1).map Line.of := by
  rw [h.shown_lines_eq, ← hf, ← h'.shown_lines_eq, List.filter_eq_self.2]
  · rfl
  · intro e he
    exact hall e.1 (h'.documentOrder_perm.mem_iff.1 (List.mem_map_of_mem he))

/-- For rendering, what is left out is as if it were not there: removing any paragraph that is
not shown succeeds and leaves both renderings as they are. So does removing one after the other,
until the lines that are left are those that are shown. -/
theorem omitted_as_absent (h : s.Reachable) (choices : Choices) :
    (∀ p ∈ s.paragraphs, s.isShown choices p = false →
      ∃ t, delete p.id s = (.ok (), t) ∧ LooksLike choices s t) ∧
    (∀ t, Pruned choices s t → LooksLike choices s t ∧
      ((∀ p ∈ t.paragraphs, t.isShown choices p = true) →
        t.lines = (s.walk.filter fun e => s.isShown choices e.1).map Line.of)) ∧
    ∃ t, Pruned choices s t ∧ ∀ p ∈ t.paragraphs, t.isShown choices p = true := by
  obtain ⟨f, hf⟩ := h.exists_shows
  have hs := h.spoilt_eq
  refine ⟨?_, ?_, hf.exists_pruned hs⟩
  · intro p hp hhid
    obtain ⟨t, f', hrun, -, h', hshown, -⟩ := hf.delete_hidden hs hp hhid
    exact ⟨t, hrun, hf.looksLike h' hshown.symm⟩
  · intro t ht
    obtain ⟨-, f', h', hshown⟩ := hf.pruned hs ht
    exact ⟨hf.looksLike h' hshown.symm, hf.lines_eq_of_all_shown h' hshown⟩

/-- A document whose first paragraph is left out unless a choice is made, with one below it and
one after it. -/
def conditional : Store :=
  (Session.run { store := { documentId := "d" } }
    [.edit (.append { body := "#rticles#true#x a" } none), .edit (.append { body := "b" } (some 1)),
      .edit (.append { body := "c" } none)]).store

theorem reachable_conditional : conditional.Reachable :=
  ⟨_, _, fresh_empty .memory "d", by simp [Event.Holdable, Edit.Holdable], rfl, rfl⟩

theorem omitted_as_absent_conditional :
    ∃ p ∈ conditional.paragraphs, p.body = "b" ∧ p.isIncluded {} = true ∧
      conditional.isShown {} p = false ∧
      ∃ t, delete p.id conditional = (.ok (), t) ∧ LooksLike {} conditional t := by
  obtain ⟨hdelete, -, -⟩ := omitted_as_absent reachable_conditional {}
  exact ⟨_, List.mem_of_getElem? (i := 1) rfl, rfl, rfl, rfl,
    hdelete _ (List.mem_of_getElem? (i := 1) rfl) rfl⟩

end Bylaws.Store
