import Bylaws.Proofs.Rendering.Mirror
import Bylaws.Proofs.Session.Failures
import Bylaws.Proofs.Session.Mirror

/-!
# Documents in one file

The documents in a file are visited in any order: each visit opens the file for one document and
edits that. A document gets on as if it were visited alone. Its answers, its paragraphs and all
that is read of it are the same up to the names of paragraphs, which keep their order, since the
other documents draw ids from the same count; and the id of a paragraph of another document is
for it like one that does not exist (`Store.documents_separate`).
-/

namespace Bylaws

open Forest

/-- An edit of one of the documents in a file. -/
structure Visit where
  documentId : String
  edit : Edit

namespace Edit

/-- An edit with the ids that it is given replaced. -/
def replace (g : Int → Int) : Edit → Edit
  | append fields parent => append fields (parent.map g)
  | insert fields before after => insert fields (before.map g) (after.map g)
  | indent id => indent (g id)
  | outdent id => outdent (g id)
  | delete id => delete (g id)
  | importOutline outline parent => importOutline outline (parent.map g)

theorem names_replace (g : Int → Int) (e : Edit) : (e.replace g).names = e.names.map g := by
  cases e with
  | append fields parent => cases parent <;> rfl
  | insert fields before after => cases before <;> cases after <;> rfl
  | indent id => rfl
  | outdent id => rfl
  | delete id => rfl
  | importOutline outline parent => cases parent <;> rfl

theorem replace_id (e : Edit) : e.replace id = e := by
  cases e <;> simp [replace]

end Edit

namespace Store

variable {s t : Store} {f : Forest} {A : String} {ρ σ : Int → Int} {names : List (Int × Int)}

/-- The file is opened for a document, which is edited. -/
def visit (file : Store) (v : Visit) : Except Fault Answer × Store :=
  v.edit.perform (file.forDocument v.documentId)

/-- The file after some visits. -/
def visits (file : Store) (vs : List Visit) : Store :=
  vs.foldl (fun file v => (file.visit v).2) file

/-- A file in which nothing has been stored. -/
def emptyFile : Store := { medium := .database, documentId := "" }

/-! ## Files -/

/-- What holds of a file between visits: each document in it is a forest, and no id stands twice. -/
structure IsFile (s : Store) : Prop where
  medium_eq : s.medium = .database
  numbered : s.Numbered
  shows : ∀ documentId, ∃ f, (s.forDocument documentId).Shows f

theorem isFile_emptyFile : emptyFile.IsFile where
  medium_eq := rfl
  numbered := ⟨.nil, fun _ h => absurd h List.not_mem_nil, Int.le_refl _⟩
  shows := fun documentId => ⟨nil, (fresh_empty .database documentId).shows⟩

/-- A store with the same paragraphs shows the same forest. -/
theorem Shows.of_paragraphs (h : s.Shows f) (hp : t.paragraphs = s.paragraphs)
    (hd : t.documentId = s.documentId) (hm : t.medium = s.medium)
    (hi : ∀ p ∈ t.rows, p.id < t.nextId) : t.Shows f where
  rows_eq := by rw [hp, hd, h.rows_eq]
  nodup := h.nodup
  issued := hi
  held := by
    intro p hmem
    rw [hp] at hmem
    have := h.held p hmem
    rwa [canHold_iff, hm, ← canHold_iff]

/-- An edit outside of all transactions, whatever it is given, leaves a forest. -/
theorem shows_run (hs : s.spoilt = false) (hi : s.inTransaction = false) (h : s.Shows f)
    (e : Edit) : ∃ f', (e.run s).2.Shows f' := by
  have hspares := (run_built e).spares s
  by_cases hh : e.Holdable s.medium
  · have ho := edit_turns hs h hh
    have hspoilt := hspares.settled hi hs
    generalize e.run s = x at ho hspoilt ⊢
    cases ho with
    | done _ _ hf' _ => exact ⟨_, hf'⟩
    | failed _ _ hf' _ => exact ⟨_, hf'⟩
    | spoilt _ hsp => exact absurd (hsp.symm.trans hspoilt) (by decide)
  · have hfault : isFault (e.run s).1 = true := by
      rcases hx : e.run s with ⟨x | ids, t⟩
      · rfl
      · exact absurd (holdable_of_run hx) hh
    exact ⟨f, h.congr (run_undone (.inr hi) e hfault) hspares.medium_eq hspares.documentId_eq
      hspares.nextId_le⟩

theorem spares_visit (s : Store) (v : Visit) :
    (s.forDocument v.documentId).Spares (s.visit v).2 := by
  unfold visit
  rw [snd_perform]
  exact (run_built v.edit).spares _

/-- After a visit the file is still open for the document. -/
theorem forDocument_visit (s : Store) (v : Visit) :
    (s.visit v).2.forDocument v.documentId = (s.visit v).2 := by
  have h := spares_visit s v
  have hd : (s.visit v).2.documentId = v.documentId := h.documentId_eq
  have hi : (s.visit v).2.inTransaction = false := h.inTransaction_eq
  have hs : (s.visit v).2.spoilt = false := h.settled rfl rfl
  generalize (s.visit v).2 = t at hd hi hs ⊢
  obtain ⟨medium, documentId, rows, nextId, inTransaction, spoilt⟩ := t
  subst hd hi hs
  rfl

/-- A visit leaves the paragraphs of all other documents as they are. -/
theorem paragraphs_visit {v : Visit} (hv : v.documentId ≠ A) :
    ((s.visit v).2.forDocument A).paragraphs = (s.forDocument A).paragraphs :=
  (spares_visit s v).others_eq A hv.symm

theorem IsFile.visit (h : s.IsFile) (v : Visit) : (s.visit v).2.IsFile := by
  have hspares := spares_visit s v
  have hnumbered := hspares.numbered (h.numbered.mono (List.Sublist.refl _) (Int.le_refl _))
  refine ⟨hspares.medium_eq.trans h.medium_eq, hnumbered, fun d => ?_⟩
  obtain ⟨f, hf⟩ := h.shows d
  by_cases hd : v.documentId = d
  · subst hd
    rw [forDocument_visit]
    unfold Store.visit
    rw [snd_perform]
    exact shows_run rfl rfl hf v.edit
  · refine ⟨f, hf.of_paragraphs (paragraphs_visit hd) rfl hspares.medium_eq fun p hp => ?_⟩
    exact (hnumbered.issued p.id (List.mem_map_of_mem hp)).2

theorem IsFile.visits (h : s.IsFile) (vs : List Visit) : (s.visits vs).IsFile := by
  induction vs generalizing s with
  | nil => exact h
  | cons v vs ih => exact ih (h.visit v)

/-! ## Changing the map of ids -/

/-- A map of ids that goes on from another id, from some id on. -/
def shiftFrom (ρ : Int → Int) (first next : Int) : Int → Int :=
  fun i => if i < first then ρ i else next + (i - first)

theorem shiftFrom_of_lt {first next i : Int} (h : i < first) : shiftFrom ρ first next i = ρ i :=
  if_pos h

theorem shiftFrom_add (first next : Int) (n : Nat) :
    shiftFrom ρ first next (first + n) = next + n := by
  unfold shiftFrom
  rw [if_neg (by omega)]
  omega

theorem strictMono_shiftFrom (hρ : StrictMono ρ) {first next : Int} (h : ρ first ≤ next) :
    StrictMono (shiftFrom ρ first next) := by
  intro i j hij
  unfold shiftFrom
  by_cases hj : j < first
  · rw [if_pos (by omega), if_pos hj]
    exact hρ hij
  · rw [if_neg hj]
    by_cases hi : i < first
    · rw [if_pos hi]
      have := hρ hi
      omega
    · rw [if_neg hi]
      omega

/-- The ids of a stored paragraph and of its parent have been issued. -/
theorem Shows.rename_congr (h : s.Shows f) (hρσ : ∀ i < s.nextId, ρ i = σ i) {p : Paragraph}
    (hp : p ∈ s.paragraphs) : p.rename ρ = p.rename σ := by
  refine Paragraph.rename_congr (hρσ _ (h.issued p (mem_rows_of_mem hp))) fun i hi => ?_
  obtain ⟨q, hq, rfl⟩ := h.parent_stored hp hi
  exact hρσ _ (h.issued q (mem_rows_of_mem hq))

theorem Resembles.congr {lenient : Prop} (h : Resembles lenient ρ s t) (hs : s.Shows f)
    (hρσ : ∀ i < s.nextId, ρ i = σ i) : Resembles lenient σ s t where
  paragraphs_eq := by
    rw [h.paragraphs_eq]
    exact List.map_congr_left fun p hp => hs.rename_congr hρσ hp
  documentId_eq := h.documentId_eq
  medium := h.medium

theorem Named.congr {i j : Int} (h : Named names ρ s t i j) (hs : s.Shows f)
    (hρσ : ∀ i < s.nextId, ρ i = σ i) : Named names σ s t i j := by
  cases h with
  | stored hi hj => exact .stored hi (hj.trans (hρσ i (hs.lt_nextId (hs.contains_iff.1 hi))))
  | missing hnames hi hj ht => exact .missing hnames hi hj ht

theorem Placed.congr {parent parent' : Option Int} (h : Placed names ρ s t parent parent')
    (hs : s.Shows f) (hρσ : ∀ i < s.nextId, ρ i = σ i) : Placed names σ s t parent parent' := by
  cases h with
  | top => exact .top
  | under h => exact .under (h.congr hs hρσ)

end Store

theorem Edit.Renamed.congr {names : List (Int × Int)} {ρ σ : Int → Int} {s t : Store} {f : Forest}
    {e e' : Edit} (h : e.Renamed names ρ s t e') (hs : s.Shows f)
    (hρσ : ∀ i < s.nextId, ρ i = σ i) : e.Renamed names σ s t e' := by
  cases h with
  | append fields hp => exact .append fields (hp.congr hs hρσ)
  | insert fields hb ha => exact .insert fields (hb.congr hs hρσ) (ha.congr hs hρσ)
  | indent hn => exact .indent (hn.congr hs hρσ)
  | outdent hn => exact .outdent (hn.congr hs hρσ)
  | delete hn => exact .delete (hn.congr hs hρσ)
  | importOutline outline hp => exact .importOutline outline (hp.congr hs hρσ)

namespace Store

variable {s t : Store} {f : Forest} {A : String} {ρ σ : Int → Int} {names : List (Int × Int)}

theorem made_stored {x : StoreM Int} {a : Answer} (h : Edit.making x s = (.ok a, t)) :
    ∃ p ∈ t.paragraphs, a = .made p := by
  obtain ⟨id, u, -, k₁⟩ := bind_eq_ok h
  rw [bind_ok get_run] at k₁
  obtain ⟨p, _, hp, k₂⟩ := bind_eq_ok k₁
  obtain ⟨hp, rfl⟩ := lift_eq_ok hp
  cases k₂
  exact ⟨p, (get_eq_ok hp).1, rfl⟩

/-- All ids in an answer have been issued. -/
theorem rename_answer_congr {e : Edit} {a : Answer} (h : e.perform s = (.ok a, t))
    (ht : t.Shows f) (hρσ : ∀ i < t.nextId, ρ i = σ i) : a.rename ρ = a.rename σ := by
  have hmade : ∀ {x : StoreM Int} {u : Store}, Edit.making x u = (.ok a, t) →
      a.rename ρ = a.rename σ := by
    intro x u hx
    obtain ⟨p, hp, rfl⟩ := made_stored hx
    exact congrArg Answer.made (ht.rename_congr hρσ hp)
  cases e with
  | append fields parent =>
    obtain ⟨_, _, -, h⟩ := bind_eq_ok h
    exact hmade h
  | insert fields before after =>
    obtain ⟨_, _, -, h⟩ := bind_eq_ok h
    obtain ⟨_, _, -, h⟩ := bind_eq_ok h
    exact hmade h
  | indent id =>
    obtain ⟨_, _, -, h⟩ := bind_eq_ok h
    cases h
    rfl
  | outdent id =>
    obtain ⟨_, _, -, h⟩ := bind_eq_ok h
    cases h
    rfl
  | delete id =>
    obtain ⟨_, _, -, h⟩ := bind_eq_ok h
    cases h
    rfl
  | importOutline outline parent =>
    obtain ⟨ids, _, hids, h⟩ := bind_eq_ok h
    cases h
    obtain ⟨hissued, hnext⟩ := importOutline_issues hids
    refine congrArg Answer.imported (List.map_congr_left fun id hid => hρσ id ?_)
    rw [hissued] at hid
    have := (mem_issued.1 hid).2
    omega

/-! ## Visits of one document -/

/-- Twins on one medium. -/
theorem Twin.agree {α β : Type} {R : α → β → Prop} {x : Except Fault α × Store}
    {y : Except Fault β × Store} (h : Twin False names ρ R x y) :
    Echoes False names R x.1 y.1 ∧ Mirrors False ρ x.2 y.2 := by
  cases h with
  | ok hr hm => exact ⟨.ok hr, hm⟩
  | error he hm => exact ⟨.error he, hm⟩
  | refused hl => exact hl.elim

/-- Every id names something in one store that it names in the other. -/
theorem exists_named (h : Resembles False ρ s t) (hs : s.Numbered) (j : Int) :
    ∃ i, ∀ names, (i, j) ∈ names → Named names ρ s t i j := by
  have hmissing : ∀ i : Int, i < 1 → s.contains i = false := by
    intro i hi
    rw [← Bool.not_eq_true, contains_iff_exists]
    rintro ⟨p, hp, rfl⟩
    have := (hs.issued p.id (List.mem_map_of_mem (mem_rows_of_mem hp))).1
    omega
  by_cases hj : t.contains j = true
  · obtain ⟨q, hq, rfl⟩ := contains_iff_exists.1 hj
    rw [h.paragraphs_eq] at hq
    obtain ⟨p, hp, rfl⟩ := List.mem_map.1 hq
    exact ⟨p.id, fun _ _ => .stored (contains_iff_exists.2 ⟨p, hp, rfl⟩) rfl⟩
  · have hj : t.contains j = false := by simpa using hj
    cases ht : isTransferable j with
    | true => exact ⟨0, fun _ hm => .missing hm (hmissing 0 (by omega)) hj (ht.trans rfl)⟩
    | false =>
      exact ⟨-(2 ^ 127) - 1, fun _ hm => .missing hm (hmissing _ (by omega)) hj (ht.trans rfl)⟩

/-- An edit with its ids replaced by such as name the same. -/
theorem renamed_replace {g k : Int → Int} (e : Edit)
    (h : ∀ i ∈ e.names, ∀ names, (g i, k i) ∈ names → Named names ρ s t (g i) (k i)) :
    (e.replace g).Renamed ((e.replace g).names.zip (e.replace k).names) ρ s t (e.replace k) := by
  have hnamed : ∀ i ∈ e.names,
      Named ((e.replace g).names.zip (e.replace k).names) ρ s t (g i) (k i) := by
    intro i hi
    refine h i hi _ ?_
    rw [Edit.names_replace, Edit.names_replace, List.zip_map']
    exact List.mem_map_of_mem hi
  have hplaced : ∀ place : Option Int, (∀ i, place = some i → i ∈ e.names) →
      Placed ((e.replace g).names.zip (e.replace k).names) ρ s t (place.map g) (place.map k) := by
    intro place hp
    cases place with
    | none => exact .top
    | some i => exact .under (hnamed i (hp i rfl))
  cases e with
  | append fields parent =>
    exact .append fields (hplaced parent fun i hi => by simp [Edit.names, hi])
  | insert fields before after =>
    exact .insert fields (hplaced before fun i hi => by simp [Edit.names, hi])
      (hplaced after fun i hi => by simp [Edit.names, hi])
  | indent id => exact .indent (hnamed id (List.mem_singleton_self id))
  | outdent id => exact .outdent (hnamed id (List.mem_singleton_self id))
  | delete id => exact .delete (hnamed id (List.mem_singleton_self id))
  | importOutline outline parent =>
    exact .importOutline outline (hplaced parent fun i hi => by simp [Edit.names, hi])

/-- Edits of one document that go along with some visits of the file `t`: for each visit of that
document there is one, which names in the file `s` what the visit names in `t`. The file `s` is
visited for no other document. -/
inductive Tracks (A : String) (ρ : Int → Int) :
    Store → Store → List Visit → List Edit → Prop where
  | nil {s t : Store} : Tracks A ρ s t [] []
  | own {s t : Store} {e e' : Edit} {vs : List Visit} {es : List Edit} :
    e.Renamed (e.names.zip e'.names) ρ (s.forDocument A) (t.forDocument A) e' →
      Tracks A ρ (s.visit ⟨A, e⟩).2 (t.visit ⟨A, e'⟩).2 vs es →
        Tracks A ρ s t (⟨A, e'⟩ :: vs) (e :: es)
  | other {s t : Store} {v : Visit} {vs : List Visit} {es : List Edit} :
    v.documentId ≠ A → Tracks A ρ s (t.visit v).2 vs es → Tracks A ρ s t (v :: vs) es

/-- A document gets on in the file `t` as in the file `s`, which is visited for no other document:
at all times the same is read of it, and all edits of it are answered alike, up to the names. -/
inductive Parallels (A : String) (ρ : Int → Int) :
    Store → Store → List Visit → List Edit → Prop where
  | nil {s t : Store} : ReadsRenamed ρ (s.forDocument A) (t.forDocument A) → Parallels A ρ s t [] []
  | own {s t : Store} {e e' : Edit} {vs : List Visit} {es : List Edit} :
    ReadsRenamed ρ (s.forDocument A) (t.forDocument A) →
      Echoes False (e.names.zip e'.names) (fun a b => b = a.rename ρ) (s.visit ⟨A, e⟩).1
        (t.visit ⟨A, e'⟩).1 →
      Parallels A ρ (s.visit ⟨A, e⟩).2 (t.visit ⟨A, e'⟩).2 vs es →
        Parallels A ρ s t (⟨A, e'⟩ :: vs) (e :: es)
  | other {s t : Store} {v : Visit} {vs : List Visit} {es : List Edit} : v.documentId ≠ A →
    ReadsRenamed ρ (s.forDocument A) (t.forDocument A) → Parallels A ρ s (t.visit v).2 vs es →
      Parallels A ρ s t (v :: vs) es

theorem Resembles.reads (hρ : StrictMono ρ) (hs : s.IsFile) (ht : t.IsFile)
    (h : Resembles False ρ (s.forDocument A) (t.forDocument A)) :
    ReadsRenamed ρ (s.forDocument A) (t.forDocument A) := by
  obtain ⟨f, hf⟩ := hs.shows A
  obtain ⟨f', hf'⟩ := ht.shows A
  exact h.readsRenamed hρ hf (h.shows hρ hf hf')

/-- Visits of other documents only draw ids. -/
theorem resembles_other (h : Resembles False ρ (s.forDocument A) (t.forDocument A)) {v : Visit}
    (hv : v.documentId ≠ A) :
    Resembles False ρ (s.forDocument A) ((t.visit v).2.forDocument A) where
  paragraphs_eq := (paragraphs_visit hv).trans h.paragraphs_eq
  documentId_eq := rfl
  medium := by
    obtain ⟨hm, hi, hsp⟩ | ⟨hl, -⟩ := h.medium
    · exact .inl ⟨(spares_visit t v).medium_eq.trans hm, hi, hsp⟩
    · exact hl.elim

/-- Visits of a document in two files that hold it alike. -/
theorem visit_twin (hρ : StrictMono ρ) (hs : s.IsFile)
    (h : Mirrors False ρ (s.forDocument A) (t.forDocument A)) {e e' : Edit}
    (he : e.Renamed names ρ (s.forDocument A) (t.forDocument A) e') :
    Echoes False names (fun a b => b = a.rename ρ) (s.visit ⟨A, e⟩).1 (t.visit ⟨A, e'⟩).1 ∧
      Mirrors False ρ (s.visit ⟨A, e⟩).2 (t.visit ⟨A, e'⟩).2 := by
  obtain ⟨f, hf⟩ := hs.shows A
  exact (perform_twin hρ h rfl hf he).agree

/-- Both files draw the same number of ids. -/
theorem nextId_visit (hρ : StrictMono ρ) (h : Mirrors False ρ (s.forDocument A) (t.forDocument A))
    {v w : Visit} (hw : t.nextId ≤ (t.visit w).2.nextId)
    (h' : Mirrors False ρ (s.visit v).2 (t.visit w).2) :
    (s.visit v).2.nextId = s.nextId + ((t.visit w).2.nextId - t.nextId) := by
  refine hρ.injective ?_
  have hbefore : ρ (s.nextId + (((t.visit w).2.nextId - t.nextId).toNat : Int)) =
      t.nextId + (((t.visit w).2.nextId - t.nextId).toNat : Int) := h.next _
  have hafter := h'.next 0
  rw [Int.toNat_of_nonneg (by omega)] at hbefore
  simp only [Nat.cast_zero, add_zero] at hafter
  omega

/-- One map of ids carries a document of the file `t` through some visits, if it holds the
document like a file whose next id is `first`. -/
def Carries (A : String) (ρ₀ ρ : Int → Int) (first : Int) (t : Store) (vs : List Visit) : Prop :=
  ∀ s : Store, s.IsFile → s.nextId = first →
    Resembles False ρ₀ (s.forDocument A) (t.forDocument A) →
      (∃ es, Tracks A ρ s t vs es) ∧ ∀ es, Tracks A ρ s t vs es → Parallels A ρ s t vs es

theorem Carries.own {first : Int} {e' : Edit} {vs : List Visit} (hσ : StrictMono σ)
    (hρ : StrictMono ρ) (ht : t.IsFile) (hnext : ∀ n : Nat, σ (first + n) = t.nextId + n)
    (hagree : ∀ i < first + ((t.visit ⟨A, e'⟩).2.nextId - t.nextId), ρ i = σ i)
    (h : Carries A σ ρ (first + ((t.visit ⟨A, e'⟩).2.nextId - t.nextId)) (t.visit ⟨A, e'⟩).2 vs) :
    Carries A σ ρ first t (⟨A, e'⟩ :: vs) := by
  rintro s hs rfl hresembles
  have hle : t.nextId ≤ (t.visit ⟨A, e'⟩).2.nextId := (spares_visit t ⟨A, e'⟩).nextId_le
  obtain ⟨f, hf⟩ := hs.shows A
  have hback : ∀ i < (s.forDocument A).nextId, σ i = ρ i := fun i hi =>
    (hagree i (hi.trans_le (by show s.nextId ≤ _; omega))).symm
  have hρresembles := hresembles.congr hf hback
  -- One step of both, for any edit that names the same.
  have hstep : ∀ {e : Edit} {names : List (Int × Int)},
      e.Renamed names ρ (s.forDocument A) (t.forDocument A) e' →
      Echoes False names (fun a b => b = a.rename ρ) (s.visit ⟨A, e⟩).1 (t.visit ⟨A, e'⟩).1 ∧
        (∃ es, Tracks A ρ (s.visit ⟨A, e⟩).2 (t.visit ⟨A, e'⟩).2 vs es) ∧
        ∀ es, Tracks A ρ (s.visit ⟨A, e⟩).2 (t.visit ⟨A, e'⟩).2 vs es →
          Parallels A ρ (s.visit ⟨A, e⟩).2 (t.visit ⟨A, e'⟩).2 vs es := by
    intro e names he
    have hmirrors : Mirrors False σ (s.forDocument A) (t.forDocument A) := ⟨hresembles, hnext⟩
    obtain ⟨hanswer, hm⟩ := visit_twin hσ hs hmirrors (he.congr hf fun i hi => (hback i hi).symm)
    have hdraws := nextId_visit hσ hmirrors hle hm
    have hs' := forDocument_visit s ⟨A, e⟩
    have ht' := forDocument_visit t ⟨A, e'⟩
    dsimp only at hs' ht'
    refine ⟨hanswer.mono fun a b hx hr => ?_, h _ (hs.visit _) hdraws ?_⟩
    · obtain ⟨g, hg⟩ := (hs.visit ⟨A, e⟩).shows A
      rw [hs'] at hg
      have hrun : e.perform (s.forDocument A) = (.ok a, (s.visit ⟨A, e⟩).2) := Prod.ext hx rfl
      exact hr.trans (rename_answer_congr hrun hg fun i hi => (hagree i (hdraws ▸ hi)).symm)
    · rw [hs', ht']
      exact hm.toResembles
  constructor
  · have hnamed : ∀ j, ∃ i, ∀ names, (i, j) ∈ names →
        Named names ρ (s.forDocument A) (t.forDocument A) i j := fun j =>
      exists_named hρresembles (hs.numbered.mono (List.Sublist.refl _) (Int.le_refl _)) j
    choose g hg using hnamed
    have hrenamed := renamed_replace (g := g) (k := id) e' fun j _ => hg j
    rw [Edit.replace_id] at hrenamed
    obtain ⟨-, ⟨es, hes⟩, -⟩ := hstep hrenamed
    exact ⟨e'.replace g :: es, .own hrenamed hes⟩
  · intro es hes
    cases hes with
    | own he hes =>
      obtain ⟨hanswer, -, hall⟩ := hstep he
      exact .own (hρresembles.reads hρ hs ht) hanswer (hall _ hes)
    | other hne _ => exact absurd rfl hne

theorem Carries.other {first : Int} {v : Visit} {vs : List Visit} (hρ : StrictMono ρ)
    (ht : t.IsFile) (hv : v.documentId ≠ A) (hagree : ∀ i < first, ρ i = σ i) {σ' : Int → Int}
    (hshift : ∀ i < first, σ i = σ' i) (h : Carries A σ' ρ first (t.visit v).2 vs) :
    Carries A σ ρ first t (v :: vs) := by
  rintro s hs rfl hresembles
  obtain ⟨f, hf⟩ := hs.shows A
  have hreads := (hresembles.congr hf fun i hi => (hagree i hi).symm).reads hρ hs ht
  obtain ⟨⟨es, hes⟩, hall⟩ := h s hs rfl ((resembles_other hresembles hv).congr hf hshift)
  refine ⟨⟨es, .other hv hes⟩, fun es hes => ?_⟩
  cases hes with
  | own _ _ => exact absurd rfl hv
  | other _ hes => exact .other hv hreads (hall es hes)

/-- For any visits there is one map of ids. A visit of the document fixes the map on the ids that
it draws; a visit of another document moves all ids still to be drawn. -/
theorem exists_carries (A : String) (vs : List Visit) (ht : t.IsFile) {first : Int}
    (hσ : StrictMono σ) (hnext : ∀ n : Nat, σ (first + n) = t.nextId + n) :
    ∃ ρ, StrictMono ρ ∧ (∀ i < first, ρ i = σ i) ∧ Carries A σ ρ first t vs := by
  induction vs generalizing t first σ with
  | nil =>
    refine ⟨σ, hσ, fun _ _ => rfl, fun s hs _ h => ⟨⟨[], .nil⟩, fun es hes => ?_⟩⟩
    cases hes with
    | nil => exact .nil (h.reads hσ hs ht)
  | cons v vs ih =>
    have hle : t.nextId ≤ (t.visit v).2.nextId := (spares_visit t v).nextId_le
    by_cases hv : v.documentId = A
    · obtain ⟨d, e'⟩ := v
      obtain rfl : d = A := hv
      have hdrawn : ∀ n : Nat, σ (first + ((t.visit ⟨d, e'⟩).2.nextId - t.nextId) + n) =
          (t.visit ⟨d, e'⟩).2.nextId + n := by
        intro n
        have h := hnext (((t.visit ⟨d, e'⟩).2.nextId - t.nextId).toNat + n)
        push_cast at h
        rw [Int.toNat_of_nonneg (by omega)] at h
        rw [add_assoc, h]
        omega
      obtain ⟨ρ, hρ, hagree, hcarries⟩ := ih (ht.visit _) hσ hdrawn
      exact ⟨ρ, hρ, fun i hi => hagree i (by omega), hcarries.own hσ hρ ht hnext hagree⟩
    · have hfirst : σ first ≤ (t.visit v).2.nextId := by
        have h := hnext 0
        simp only [Nat.cast_zero, add_zero] at h
        omega
      obtain ⟨ρ, hρ, hagree, hcarries⟩ := ih (ht.visit v) (strictMono_shiftFrom hσ hfirst)
        (shiftFrom_add first _)
      have hback : ∀ i < first, ρ i = σ i := fun i hi => (hagree i hi).trans (shiftFrom_of_lt hi)
      exact ⟨ρ, hρ, hback, hcarries.other hρ ht hv hback fun i hi => (shiftFrom_of_lt hi).symm⟩

/-! ## Ids of other documents -/

/-- An edit that is given an id that names nothing changes nothing. -/
theorem perform_unknown (hs : s.spoilt = false) {i : Int} (hi : ¬ s.contains i = true) {e : Edit}
    (he : i ∈ e.names) : (e.perform s).2 = s := by
  have hfails : ∀ {α β : Type} {x : StoreM α} {k : α → StoreM β},
      (∃ x', x s = (.error x', s)) → ((x >>= k) s).2 = s := by
    rintro α β x k ⟨x', hx⟩
    rw [bind_error hx]
  rw [snd_perform]
  cases e with
  | append fields parent =>
    obtain rfl : parent = some i := by simpa [Edit.names] using he
    cases hc : fields.check with
    | error x => exact hfails ⟨x, lift_error hc⟩
    | ok fields' =>
      rw [show (Edit.append fields (some i)).run s = _ from bind_ok (lift_ok hc)]
      exact hfails (append_missing fields' hs hi)
  | insert fields before after =>
    cases hn : Neighbour.of before after with
    | error x => exact hfails ⟨x, lift_error hn⟩
    | ok neighbour =>
      obtain rfl : i = neighbour.id := by
        unfold Neighbour.of at hn
        split at hn <;> cases hn <;> exact List.mem_singleton.1 he
      rw [show (Edit.insert fields before after).run s = _ from bind_ok (lift_ok hn)]
      cases fields.check with
      | error x => exact hfails ⟨x, lift_error rfl⟩
      | ok fields' =>
        rw [bind_ok (lift_ok rfl)]
        exact hfails (insert_missing fields' hs hi)
  | indent id =>
    obtain rfl := List.mem_singleton.1 he
    exact hfails (indent_missing hs hi)
  | outdent id =>
    obtain rfl := List.mem_singleton.1 he
    exact hfails (outdent_missing hs hi)
  | delete id =>
    obtain rfl := List.mem_singleton.1 he
    exact hfails (delete_missing hs hi)
  | importOutline outline parent =>
    obtain rfl : parent = some i := by simpa [Edit.names] using he
    obtain ⟨r, hr, -⟩ := importOutline_missing hs hi outline
    exact congrArg Prod.snd hr

theorem mirrors_refl (s : Store) : Mirrors False id s s where
  paragraphs_eq := by
    rw [renameParagraph_id, List.map_id]
  documentId_eq := rfl
  medium := .inl ⟨rfl, rfl, rfl⟩
  next := fun _ => rfl

theorem rename_answer_id (a : Answer) : a.rename id = a := by
  cases a with
  | made p => exact congrArg (fun g => Answer.made (g p)) renameParagraph_id
  | moved done => rfl
  | removed => rfl
  | imported ids => exact congrArg Answer.imported (List.map_id ids)

/-- One id put in the place of another. -/
def swapped (i j : Int) : Int → Int := fun k => if k = i then j else k

/-- Whatever a document is asked under the one id is answered as if it were asked under the
other. -/
structure Indistinct (s : Store) (i j : Int) : Prop where
  perform : ∀ e : Edit, Echoes False (e.names.zip (e.replace (swapped i j)).names) Eq
    (e.perform s).1 ((e.replace (swapped i j)).perform s).1
  get : Echoes False [(i, j)] Eq (s.get i) (s.get j)
  childrenOf : Echoes False [(i, j)] Eq (s.childrenOf (some i)) (s.childrenOf (some j))
  walkBelow : Echoes False [(i, j)] Eq (s.walkBelow (some i)) (s.walkBelow (some j))

theorem indistinct_of_missing (hs : s.spoilt = false) (h : s.Shows f) {i j : Int}
    (hi : s.contains i = false) (hj : s.contains j = false)
    (ht : isTransferable j = isTransferable i) : Indistinct s i j := by
  have hmirrors := mirrors_refl s
  have hnamed : Named [(i, j)] id s s i j :=
    .missing (List.mem_singleton_self _) hi hj ht
  have hplaced : Placed [(i, j)] id s s (some i) (some j) := .under hnamed
  have hrename : f.rename id = f := Forest.rename_id f
  have hreads := hmirrors.readsRenamed strictMono_id h (hrename.symm ▸ h)
  refine ⟨fun e => ?_, ?_, ?_, ?_⟩
  · have hrenamed := renamed_replace (ρ := id) (s := s) (t := s) (g := id) (k := swapped i j) e
      fun k _ names hk => by
        unfold swapped at hk ⊢
        split at hk
        next he =>
          subst he
          rw [if_pos rfl]
          exact .missing hk hi hj ht
        next hne =>
          rw [if_neg hne]
          cases hc : s.contains k with
          | true => exact .stored hc rfl
          | false => exact .missing hk hc hc rfl
    rw [Edit.replace_id] at hrenamed
    exact ((perform_twin strictMono_id hmirrors hs h hrenamed).agree.1).mono
      fun a b _ hab => (hab.trans (rename_answer_id a)).symm
  · refine (hreads.get _ _ _ hnamed).mono fun p q _ hq => ?_
    rw [hq, renameParagraph_id, id]
  · refine (hreads.childrenOf _ _ _ hplaced).mono fun ps qs _ hq => ?_
    rw [hq, renameParagraph_id, List.map_id]
  · refine (hreads.walkBelow _ _ _ hplaced).mono fun xs ys _ hy => ?_
    rw [hy, renameEntry_id, List.map_id]

/-! ## The file as a whole -/

/-- The id of a paragraph of one document names nothing in another one. -/
theorem IsFile.contains_of_ne (h : s.IsFile) {B : String} (hne : B ≠ A) {p : Paragraph}
    (hp : p ∈ (s.forDocument B).paragraphs) : (s.forDocument A).contains p.id = false := by
  rw [← Bool.not_eq_true, contains_iff_exists]
  rintro ⟨q, hq, hid⟩
  obtain ⟨hq, hqdoc⟩ := List.mem_filter.1 hq
  obtain ⟨hp, hpdoc⟩ := List.mem_filter.1 hp
  obtain rfl := List.inj_on_of_nodup_map h.numbered.nodup hq hp hid
  exact hne ((beq_iff_eq.1 hpdoc).symm.trans (beq_iff_eq.1 hqdoc))

/-- Documents in one file do not interfere. Whatever visits follow, a document gets on in them as
in a run in which the visits of all other documents are left out, under a map of ids that keeps
their order. There are edits that go along with such visits, and all that do are answered alike,
with the same to be read of the document at all times. The id of a paragraph of another document
changes nothing in the file when it is given to an edit, and is like any other one of its size
that does not exist. -/
theorem documents_separate (before vs : List Visit) (A : String) :
    let file := emptyFile.visits before
    (∃ ρ : Int → Int, StrictMono ρ ∧ (∀ i < file.nextId, ρ i = i) ∧
      (∃ es, Tracks A ρ file file vs es) ∧
      ∀ es, Tracks A ρ file file vs es → Parallels A ρ file file vs es) ∧
    ∀ B, B ≠ A → ∀ p ∈ (file.forDocument B).paragraphs,
      (∀ e : Edit, p.id ∈ e.names → (file.visit ⟨A, e⟩).2 = file.forDocument A) ∧
      ∀ j, (∀ q ∈ file.rows, q.id ≠ j) → isTransferable j = isTransferable p.id →
        Indistinct (file.forDocument A) p.id j := by
  intro file
  have hfile : file.IsFile := isFile_emptyFile.visits before
  constructor
  · have hnext : ∀ n : Nat, id (file.nextId + n) = file.nextId + n := fun _ => rfl
    obtain ⟨ρ, hρ, hagree, hcarries⟩ := exists_carries A vs hfile strictMono_id hnext
    exact ⟨ρ, hρ, hagree, hcarries file hfile rfl (mirrors_refl _).toResembles⟩
  · intro B hne p hp
    have hmissing := hfile.contains_of_ne hne hp
    refine ⟨fun e he => perform_unknown rfl (by simp [hmissing]) he, fun j hj ht => ?_⟩
    obtain ⟨f, hf⟩ := hfile.shows A
    refine indistinct_of_missing rfl hf hmissing ?_ ht
    rw [← Bool.not_eq_true, contains_iff_exists]
    rintro ⟨q, hq, hid⟩
    exact hj q (List.mem_of_mem_filter hq) hid

/-- Two documents of one paragraph each. -/
def twoDocuments : List Visit :=
  [⟨"a", .append { body := "x" } none⟩, ⟨"b", .append { body := "y" } none⟩]

theorem documents_separate_two :
    (((emptyFile.visits twoDocuments).forDocument "b").paragraphs.map fun p => (p.id, p.body)) =
        [(2, "y")] ∧
      ((emptyFile.visits twoDocuments).visit ⟨"a", .delete 2⟩).2 =
        (emptyFile.visits twoDocuments).forDocument "a" ∧
      Indistinct ((emptyFile.visits twoDocuments).forDocument "a") 2 9 := by
  obtain ⟨-, hforeign⟩ := documents_separate twoDocuments [] "a"
  have hmem : ((emptyFile.visits twoDocuments).forDocument "b").paragraphs[0]? =
      some (row "b" none 1 2 { body := "y" }) := rfl
  obtain ⟨hunchanged, hindistinct⟩ := hforeign "b" (by decide) _ (List.mem_of_getElem? hmem)
  exact ⟨rfl, hunchanged (.delete 2) (List.mem_singleton_self 2),
    hindistinct 9 (by decide) (by decide)⟩

end Store

end Bylaws
