import Bylaws.Folder

/-!
# Databases in files

A database that has been kept in a file is found there again (`openStore_closeStore`). Keeping it
puts a file where there was one, or where one could be made, and this leaves all directories on the
way as they were (`within_put`), so that the path leads to the same place as before.
-/

namespace Bylaws.Folder

variable {f g : Folder} {p q place : Path} {s t : Store} {d d' : String}

/-! ## Putting a database in a place -/

theorem find?_put (f : Folder) (place : Path) (file : File) :
    (f.put place file).find? place = some file := by
  simp [find?, put]

theorem isSome_find?_put (file : File) (h : (f.find? q).isSome = true) :
    ((f.put place file).find? q).isSome = true := by
  unfold find? put at *
  rw [Option.isSome_map, List.find?_isSome] at *
  obtain ⟨e, he, hq⟩ := h
  by_cases hplace : e.1 = place
  · exact ⟨(place, file), List.mem_cons_self, by simpa [hplace] using hq⟩
  · exact ⟨e, List.mem_cons_of_mem _ (List.mem_filter.2 ⟨he, by simpa using hplace⟩), hq⟩

/-- A file in a place that is no directory leaves every directory. -/
theorem isDirectory_put (file : File) (hplace : f.isDirectory place = false)
    (h : f.isDirectory q = true) : (f.put place file).isDirectory q = true := by
  unfold isDirectory at h hplace ⊢
  simp only [Bool.or_eq_true, List.any_eq_true] at h ⊢
  refine h.imp_right ?_
  rintro ⟨e, he, hq⟩
  by_cases hne : e.1 = place
  · obtain ⟨path, old⟩ := e
    obtain rfl : path = place := hne
    rcases hq with hq | hq
    · exact ⟨(path, file), List.mem_cons_self, .inl hq⟩
    · rw [Bool.and_eq_true, decide_eq_true_eq] at hq
      obtain ⟨rfl, hdir⟩ := hq
      simp only [Bool.or_eq_false_iff, List.any_eq_false] at hplace
      have := hplace.2 _ he
      simp [hdir] at this
  · exact ⟨e, List.mem_cons_of_mem _ (List.mem_filter.2 ⟨he, by simpa using hne⟩), hq⟩

/-- A database makes no directory but those around it. -/
theorem isDirectory_of_put (h : (f.put place (.database s)).isDirectory q = true) :
    f.isDirectory q = true ∨ place.isBelow q = true := by
  unfold isDirectory at h ⊢
  simp only [Bool.or_eq_true, List.any_eq_true] at h ⊢
  rcases h with h | ⟨e, he, hq⟩
  · exact .inl (.inl h)
  · rcases List.mem_cons.1 he with rfl | he
    · simpa using Or.inr hq
    · exact .inl (.inr ⟨e, (List.mem_filter.1 he).1, hq⟩)

theorem isDirectory_place (h : f.isDirectory place = false) :
    (f.put place (.database s)).isDirectory place = false := by
  rw [← Bool.not_eq_true]
  intro hd
  rcases isDirectory_of_put hd with hd | hb
  · exact absurd (hd.symm.trans h) (by decide)
  · unfold Path.isBelow at hb
    simp at hb

/-- What is found in one folder is found in another one, and directories are directories there. -/
structure Within (f g : Folder) : Prop where
  isDirectory : ∀ q, f.isDirectory q = true → g.isDirectory q = true
  contains : ∀ q, f.contains q = true → g.contains q = true

theorem Within.refl (f : Folder) : f.Within f := ⟨fun _ => id, fun _ => id⟩

theorem within_put (file : File) (hplace : f.isDirectory place = false) :
    f.Within (f.put place file) where
  isDirectory := fun _ => isDirectory_put file hplace
  contains := by
    intro q h
    unfold Folder.contains at *
    rw [Bool.or_eq_true] at *
    exact h.imp (isDirectory_put file hplace) (isSome_find?_put file)

/-! ## Looking up paths -/

/-- A step that succeeds does so wherever more is found. The path is only named in faults. -/
theorem Within.step (hfg : f.Within g) {path path' a b : Path} {name : String}
    (h : f.step path a name = .ok b) : g.step path' a name = .ok b := by
  unfold Folder.step at *
  by_cases hdir : f.isDirectory a = true
  · rw [hdir] at h
    rw [hfg.isDirectory _ hdir]
    by_cases hup : name = ".."
    · simpa [hup] using h
    · by_cases hlong : longestName < name.utf8ByteSize
      · simp [hup, hlong] at h
      · by_cases hc : f.contains (a.down name) = true
        · have hc' := hfg.contains _ hc
          simpa [hup, hlong, hc, hc'] using h
        · simp [hup, hlong, hc] at h
  · simp [hdir] at h

theorem Within.steps (hfg : f.Within g) {path path' a b : Path} {names : List String}
    (h : names.foldlM (f.step path) a = .ok b) : names.foldlM (g.step path') a = .ok b := by
  induction names generalizing a with
  | nil => exact h
  | cons name names ih =>
    rw [List.foldlM_cons] at h ⊢
    cases hstep : f.step path a name with
    | error e =>
      rw [hstep] at h
      exact nomatch h
    | ok c =>
      rw [hstep] at h
      rw [hfg.step hstep]
      exact ih h

/-- A path whose spelling is in order is looked up name by name. -/
theorem locate_eq (f : Folder) (p : Path) :
    f.locate p = p.parts.foldlM (f.step p) p.origin ∨
      ∃ e, (∀ missing, e ≠ .fileMissing missing) ∧ ∀ g : Folder, g.locate p = .error e := by
  unfold locate
  split
  · refine .inr ⟨.nullInPath, ?_, fun _ => rfl⟩
    exact nofun
  · split
    · refine .inr ⟨.nameTooLong p.text, ?_, fun _ => rfl⟩
      exact nofun
    · exact .inl rfl

theorem Within.locate (hfg : f.Within g) (h : f.locate p = .ok q) : g.locate p = .ok q := by
  rcases locate_eq f p with hf | ⟨e, -, he⟩
  · rcases locate_eq g p with hg | ⟨e, -, he⟩
    · rw [hg]
      exact hfg.steps (hf ▸ h)
    · exact nomatch (he f).symm.trans h
  · exact nomatch (he f).symm.trans h

/-- A name that leads to nothing in a directory leads to a file that is put there. -/
theorem step_put {path : Path} {dir : Path} {name missing : String} (file : File)
    (h : f.step path dir name = .error (.fileMissing missing)) :
    f.isDirectory (dir.down name) = false ∧
      (f.put (dir.down name) file).step path dir name = .ok (dir.down name) := by
  unfold step at h
  by_cases hdir : f.isDirectory dir = true
  · by_cases hup : name = ".."
    · simp [hdir, hup] at h
    · by_cases hlong : longestName < name.utf8ByteSize
      · simp [hdir, hup, hlong] at h
      · by_cases hc : f.contains (dir.down name) = true
        · simp [hdir, hup, hlong, hc] at h
        · have hplace : f.isDirectory (dir.down name) = false := by
            unfold contains at hc
            rw [Bool.or_eq_true, not_or] at hc
            simpa using hc.1
          have hdir' := isDirectory_put file hplace hdir
          have hfound : (f.put (dir.down name) file).contains (dir.down name) = true := by
            unfold contains
            simp [find?_put]
          refine ⟨hplace, ?_⟩
          unfold step
          simp [hdir', hup, hlong, hfound]
  · simp [hdir] at h

/-- A path that leads to nothing, in a directory that is there, is a name in that directory. -/
theorem step_of_missing {dir : Path} {missing : String}
    (h : f.locate p = .error (.fileMissing missing)) (hparent : f.locate p.parent = .ok dir) :
    p.parts = p.parts.dropLast ++ [p.name] ∧ p.parts.dropLast.foldlM (f.step p) p.origin = .ok dir ∧
      f.step p dir p.name = .error (.fileMissing missing) := by
  have hsteps : p.parts.foldlM (f.step p) p.origin = .error (.fileMissing missing) := by
    rcases locate_eq f p with hf | ⟨e, hne, he⟩
    · exact hf ▸ h
    · exact absurd (Except.error.inj ((he f).symm.trans h)) (hne missing)
  have hdir : p.parts.dropLast.foldlM (f.step p) p.origin = .ok dir := by
    rcases locate_eq f p.parent with hf | ⟨e, -, he⟩
    · exact (Within.refl f).steps (hf ▸ hparent)
    · exact nomatch (he f).symm.trans hparent
  have hparts : p.parts = p.parts.dropLast ++ [p.name] := by
    unfold Path.name
    cases hlast : p.parts.getLast? with
    | none =>
      rw [List.getLast?_eq_none_iff.1 hlast] at hsteps
      exact nomatch hsteps
    | some name =>
      obtain ⟨names, hnames⟩ := List.getLast?_eq_some_iff.1 hlast
      rw [hnames, List.dropLast_concat]
      rfl
  refine ⟨hparts, hdir, ?_⟩
  rw [hparts, List.foldlM_append, hdir] at hsteps
  change (f.step p dir p.name >>= fun a => pure a) = _ at hsteps
  rwa [bind_pure] at hsteps

/-- A place at which a database may be kept is no directory, and is found again once one is. -/
theorem placeOf_put (s : Store) (h : f.placeOf p = .ok place) :
    (f.put place (.database s)).placeOf p = .ok place := by
  have hfound : f.isDirectory place = false ∧
      (f.put place (.database s)).locate p = .ok place := by
    unfold placeOf at h
    cases hl : f.locate p with
    | ok q =>
      rw [hl] at h
      dsimp only at h
      split at h
      · exact nomatch h
      next hd =>
        obtain rfl := Except.ok.inj h
        have hd : f.isDirectory q = false := by simpa using hd
        exact ⟨hd, (within_put _ hd).locate hl⟩
    | error e =>
      rw [hl] at h
      cases e with
      | fileMissing missing =>
        dsimp only at h
        cases hparent : f.locate p.parent with
        | error e =>
          rw [hparent] at h
          exact nomatch h
        | ok dir =>
          rw [hparent] at h
          dsimp only at h
          split at h
          next hdir =>
            obtain rfl := Except.ok.inj h
            obtain ⟨hparts, hsteps, hstep⟩ := step_of_missing hl hparent
            obtain ⟨hplace, hput⟩ := step_put (.database s) hstep
            refine ⟨hplace, ?_⟩
            rcases locate_eq (f.put (dir.down p.name) (.database s)) p with hg | ⟨e, hne, he⟩
            · rw [hg, hparts, List.foldlM_append, (within_put _ hplace).steps hsteps]
              show (Folder.step _ p dir p.name >>= fun a => pure a) = _
              rw [hput]
              rfl
            · exact absurd (Except.error.inj ((he f).symm.trans hl)) (hne missing)
          next hd => exact nomatch h
      | _ => exact nomatch h
  unfold placeOf
  rw [hfound.2]
  dsimp only
  rw [isDirectory_place hfound.1]
  rfl

/-! ## Databases -/

/-- A database that has been kept in a file is found there again. -/
theorem openStore_closeStore (hp : p.text ≠ passing) (h : f.openStore p d = .ok s) :
    (f.closeStore p t).openStore p d' = .ok (t.forDocument d') := by
  unfold openStore at h
  rw [if_neg hp] at h
  cases hplace : f.placeOf p with
  | error e =>
    rw [hplace] at h
    exact nomatch h
  | ok place =>
    have hkept : f.closeStore p t = f.put place (.database t) := by
      unfold closeStore
      rw [if_neg hp, hplace]
    unfold openStore
    rw [if_neg hp, hkept, placeOf_put t hplace]
    dsimp only [bind, Except.bind]
    rw [find?_put]
    rfl

end Bylaws.Folder
