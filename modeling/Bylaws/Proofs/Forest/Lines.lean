import Bylaws.Proofs.Index

/-!
# Places by lines

The lines of a forest with their depths tell the forest (`Forest.lines_injective`), and the lines
before a node tell where it stands: the nodes that it is below, and what is to the left of each of
them (`Hole.cut_eq_of_before`).
-/

namespace Bylaws

/-! ## Lines by depth -/

/-- Lines that are deep enough, behind a line that is not, are told apart from what is before
them. -/
theorem append_inj_of_getLast {d : Nat} {as as' bs bs' : List Line}
    (ha : ∀ l ∈ as.getLast?, l.depth < d) (ha' : ∀ l ∈ as'.getLast?, l.depth < d)
    (hb : ∀ l ∈ bs, d ≤ l.depth) (hb' : ∀ l ∈ bs', d ≤ l.depth) (h : as ++ bs = as' ++ bs') :
    as = as' ∧ bs = bs' := by
  -- What one of the two begins with more would end in a line that is both deep and not deep.
  have hnil : ∀ {as as' ms bs : List Line}, (∀ l ∈ as'.getLast?, l.depth < d) →
      (∀ l ∈ bs, d ≤ l.depth) → as' = as ++ ms → (∀ l ∈ ms, l ∈ bs) → ms = [] := by
    intro as as' ms bs hlast hdeep he hms
    by_contra hne
    have hmem := List.getLast_mem hne
    have hl : as'.getLast? = some (ms.getLast hne) := by
      rw [he, List.getLast?_append, List.getLast?_eq_some_getLast hne]
      rfl
    have h₁ := hlast _ hl
    have h₂ := hdeep _ (hms _ hmem)
    omega
  rcases List.append_eq_append_iff.1 h with ⟨ms, he, hbs⟩ | ⟨ms, he, hbs⟩
  · obtain rfl := hnil ha' hb he fun l hl => hbs ▸ List.mem_append_left _ hl
    rw [List.append_nil] at he
    exact ⟨he.symm, hbs⟩
  · obtain rfl := hnil ha hb' he fun l hl => hbs ▸ List.mem_append_left _ hl
    rw [List.append_nil] at he
    exact ⟨he, hbs.symm⟩

/-- Lines that are deep, in front of a line that is not, are told apart from what is behind
them. -/
theorem append_inj_of_head {d : Nat} {as as' bs bs' : List Line} (ha : ∀ l ∈ as, d < l.depth)
    (ha' : ∀ l ∈ as', d < l.depth) (hb : ∀ l ∈ bs.head?, l.depth ≤ d)
    (hb' : ∀ l ∈ bs'.head?, l.depth ≤ d) (h : as ++ bs = as' ++ bs') : as = as' ∧ bs = bs' := by
  have htake : ∀ {as bs : List Line}, (∀ l ∈ as, d < l.depth) → (∀ l ∈ bs.head?, l.depth ≤ d) →
      (as ++ bs).takeWhile (fun l => decide (d < l.depth)) = as := by
    intro as bs ha hb
    rw [List.takeWhile_append_of_pos (by simpa using ha)]
    cases bs with
    | nil => exact List.append_nil as
    | cons l bs =>
      have hl := hb l rfl
      rw [List.takeWhile_cons_of_neg (by simpa using hl), List.append_nil]
  have has := congrArg (List.takeWhile fun l => decide (d < l.depth)) h
  rw [htake ha hb, htake ha' hb'] at has
  obtain rfl := has
  exact ⟨rfl, List.append_cancel_left h⟩

namespace Forest

theorem depth_le_of_mem_lines {f : Forest} {depth : Nat} :
    ∀ l ∈ f.lines depth, depth ≤ l.depth := by
  induction f generalizing depth with
  | nil => exact fun l hl => absurd hl List.not_mem_nil
  | cons id fields below rest ih₁ ih₂ =>
    intro l hl
    rw [lines, List.mem_cons, List.mem_append] at hl
    rcases hl with rfl | hl | hl
    · exact Nat.le_refl depth
    · exact Nat.le_of_succ_le (ih₁ l hl)
    · exact ih₂ l hl

theorem depth_of_mem_head? {f : Forest} {depth : Nat} :
    ∀ l ∈ (f.lines depth).head?, l.depth = depth := by
  cases f with
  | nil => exact nofun
  | cons id fields below rest =>
    intro l hl
    obtain rfl := Option.some.inj hl
    rfl

/-- A forest is told by its lines. -/
theorem lines_injective {f g : Forest} {depth : Nat} (h : f.lines depth = g.lines depth) :
    f = g := by
  induction f generalizing g depth with
  | nil =>
    cases g with
    | nil => rfl
    | cons => exact nomatch h
  | cons id fields below rest ih₁ ih₂ =>
    cases g with
    | nil => exact nomatch h
    | cons id' fields' below' rest' =>
      obtain ⟨hline, hlines⟩ := List.cons.inj h
      obtain ⟨rfl, rfl, -⟩ := Line.mk.inj hline
      obtain ⟨hbelow, hrest⟩ := append_inj_of_head depth_le_of_mem_lines depth_le_of_mem_lines
        (fun l hl => (depth_of_mem_head? l hl).le) (fun l hl => (depth_of_mem_head? l hl).le) hlines
      rw [ih₁ hbelow, ih₂ hrest]

end Forest

/-! ## What is before a hole -/

namespace Hole

open Forest

/-- A hole without what comes after it. -/
def cut : Hole → Hole
  | top => top
  | under left id fields _ outer => under left id fields nil outer.cut

variable {choices : Choices}

theorem depth_cut (C : Hole) : C.cut.depth = C.depth := by
  induction C with
  | top => rfl
  | under left id fields right outer ih => exact congrArg (· + 1) ih

theorem parent_cut (C : Hole) : C.cut.parent = C.parent := by
  cases C <;> rfl

theorem ranks_cut (C : Hole) : C.cut.ranks choices = C.ranks choices := by
  induction C with
  | top => rfl
  | under left id fields right outer ih => rw [cut, ranks, ranks, ih, depth_cut]

theorem depth_of_mem_getLast? (C : Hole) : ∀ l ∈ C.before.getLast?, l.depth + 1 = C.depth := by
  cases C with
  | top => exact nofun
  | under left id fields right outer =>
    intro l hl
    rw [before, List.getLast?_concat] at hl
    obtain rfl := Option.some.inj hl
    rfl

/-- The lines before a node in a hole are those before the hole and those to the left of it. -/
theorem before_append_inj {C C' : Hole} {l l' : Forest} (hd : C.depth = C'.depth)
    (h : C.before ++ l.lines C.depth = C'.before ++ l'.lines C'.depth) :
    C.before = C'.before ∧ l = l' := by
  rw [← hd] at h
  have hlast : ∀ (D : Hole), D.depth = C.depth → ∀ l ∈ D.before.getLast?, l.depth < C.depth := by
    intro D hD l hl
    have := D.depth_of_mem_getLast? l hl
    omega
  obtain ⟨hbefore, hlines⟩ := append_inj_of_getLast (hlast C rfl) (hlast C' hd.symm)
    depth_le_of_mem_lines depth_le_of_mem_lines h
  exact ⟨hbefore, lines_injective hlines⟩

/-- The lines before a hole tell all about it but what comes after it. -/
theorem cut_eq_of_before {C C' : Hole} (h : C.before = C'.before) : C.cut = C'.cut := by
  induction C generalizing C' with
  | top =>
    cases C' with
    | top => rfl
    | under => exact absurd h (by simp [before])
  | under left id fields right outer ih =>
    cases C' with
    | top => exact absurd h (by simp [before])
    | under left' id' fields' right' outer' =>
      obtain ⟨hinit, hline⟩ := List.append_inj' h rfl
      obtain ⟨rfl, rfl, hdepth⟩ := Line.mk.inj (List.singleton_injective hline)
      obtain ⟨houter, rfl⟩ := before_append_inj hdepth hinit
      rw [cut, cut, ih houter]

end Hole

end Bylaws
