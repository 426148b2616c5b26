import Bylaws.Json.Reader
import Bylaws.Proofs.Forest.Faults
import Mathlib.Tactic.SplitIfs

/-!
# What JSON holds

No collection in the value of a JSON text lies within itself: every token is a bracket, a mark or
a plain value, and every step of the reader puts values that are complete into a collection that is
still open (`isLoopless_advance`).
-/

namespace Bylaws

/-! ## Values without loops -/

mutual

/-- Whether no collection in a value lies within itself. Keys of dictionaries are no collections. -/
def Value.isLoopless : Value → Bool
  | .list items => areLoopless items
  | .tuple items => areLoopless items
  | .set items => areLoopless items
  | .dict entries => areLooplessEntries entries
  | .loop _ _ => false
  | .again _ => false
  | _ => true

def areLoopless : List Value → Bool
  | [] => true
  | v :: rest => v.isLoopless && areLoopless rest

def areLooplessEntries : List (Value × Value) → Bool
  | [] => true
  | (_, v) :: rest => v.isLoopless && areLooplessEntries rest

end

theorem areLoopless_iff {items : List Value} :
    areLoopless items = true ↔ ∀ v ∈ items, v.isLoopless = true := by
  induction items with
  | nil => simp [areLoopless]
  | cons v rest ih => simp [areLoopless, ih]

theorem areLooplessEntries_iff {entries : List (Value × Value)} :
    areLooplessEntries entries = true ↔ ∀ e ∈ entries, e.2.isLoopless = true := by
  induction entries with
  | nil => simp [areLooplessEntries]
  | cons e rest ih =>
    obtain ⟨k, v⟩ := e
    simp [areLooplessEntries, ih]

namespace Value

/-- A value without loops is written without a label. -/
theorem opened_of_isLoopless {v : Value} (h : v.isLoopless = true) : v.opened = v := by
  cases v with
  | loop label v => exact nomatch h
  | _ => rfl

theorem isLoopless_of_entry? {entries : List (Value × Value)} {key : String} {v : Value}
    (h : areLooplessEntries entries = true) (hv : entry? entries key = some v) :
    v.isLoopless = true := by
  obtain ⟨e, he, rfl⟩ := Option.map_eq_some_iff.1 hv
  exact areLooplessEntries_iff.1 h e (List.mem_of_find?_eq_some he)

mutual

theorem isTree_of_isLoopless : (v : Value) → v.isLoopless = true → v.isTree = true
  | .list items => areTrees_of_areLoopless items
  | .tuple items => areTrees_of_areLoopless items
  | .loop _ _ | .again _ => nofun
  | .null | .bool _ | .int _ | .float _ | .text _ | .dict _ | .set _ | .constant _ | .date _
  | .moment _ | .bytes _ => fun _ => rfl

theorem areTrees_of_areLoopless : (items : List Value) → areLoopless items = true →
    areTrees items = true
  | [] => fun _ => rfl
  | v :: rest => fun h => by
    obtain ⟨hv, hrest⟩ := (Bool.and_eq_true _ _).mp h
    unfold areTrees
    rw [isTree_of_isLoopless v hv, areTrees_of_areLoopless rest hrest]
    rfl

end

theorem mem_insertEntry {entries : List (Value × Value)} {key v : Value} {e : Value × Value}
    (h : e ∈ insertEntry entries key v) : e.2 = v ∨ e ∈ entries := by
  induction entries with
  | nil =>
    obtain rfl := List.mem_singleton.1 h
    exact .inl rfl
  | cons f entries ih =>
    obtain ⟨k, w⟩ := f
    unfold insertEntry at h
    split_ifs at h
    · rcases List.mem_cons.1 h with rfl | h
      · exact .inl rfl
      · exact .inr (List.mem_cons_of_mem _ h)
    · rcases List.mem_cons.1 h with rfl | h
      · exact .inr List.mem_cons_self
      · exact (ih h).imp_right (List.mem_cons_of_mem _)

theorem isLoopless_ofEntries {entries : List (Value × Value)}
    (h : ∀ e ∈ entries, e.2.isLoopless = true) : (ofEntries entries).isLoopless = true := by
  have key : ∀ found : List (Value × Value), (∀ e ∈ found, e.2.isLoopless = true) →
      ∀ e ∈ entries.foldl (fun d e => insertEntry d e.1 e.2) found, e.2.isLoopless = true := by
    induction entries with
    | nil => exact fun _ h => h
    | cons e entries ih =>
      obtain ⟨he, hentries⟩ := List.forall_mem_cons.1 h
      refine fun found hfound => ih hentries _ fun f hf => ?_
      rcases mem_insertEntry hf with heq | hf
      · exact heq ▸ he
      · exact hfound f hf
  exact areLooplessEntries_iff.2 (key [] fun _ h => absurd h List.not_mem_nil)

end Value

namespace Json

/-! ## Reading -/

/-- A token that is no value, or one that holds no collection within itself. -/
def Token.IsLoopless : Token → Prop
  | .value v => v.isLoopless = true
  | _ => True

theorem isLoopless_of_finite? {x : Binary64} {v : Value} (h : finite? x = some v) :
    v.isLoopless = true := by
  unfold finite? at h
  split at h
  · cases h
    rfl
  · exact nomatch h

theorem isLoopless_of_integer? {negative : Bool} {n : Nat} {v : Value}
    (h : integer? negative n = some v) : v.isLoopless = true := by
  unfold integer? at h
  split_ifs at h
  · cases h
    rfl
  · exact isLoopless_of_finite? h
  · cases h
    rfl
  · exact isLoopless_of_finite? h

theorem isLoopless_of_readNumber {s rest : List Char} {v : Value}
    (h : readNumber s = some (v, rest)) : v.isLoopless = true := by
  unfold readNumber at h
  dsimp only at h
  split_ifs at h
  · exact nomatch h
  · obtain ⟨⟨fraction, s₁⟩, -, h⟩ := Option.bind_eq_some_iff.1 h
    obtain ⟨⟨exponent, s₂⟩, -, h⟩ := Option.bind_eq_some_iff.1 h
    dsimp only at h
    split at h
    · obtain ⟨v', hv, h⟩ := Option.bind_eq_some_iff.1 h
      cases h
      exact isLoopless_of_integer? hv
    · obtain ⟨v', hv, h⟩ := Option.bind_eq_some_iff.1 h
      cases h
      exact isLoopless_of_finite? hv

theorem isLoopless_of_tokens {fuel : Nat} {s : List Char} {ts : List Token}
    (h : tokens fuel s = some ts) : ∀ t ∈ ts, t.IsLoopless := by
  induction fuel generalizing s ts with
  | zero => 
    cases s with
    | nil => 
      cases h
      simp
    | cons c rest => exact nomatch h
  | succ fuel ih =>
    cases s with
    | nil => 
      cases h
      simp
    | cons c rest =>
      have hmap : ∀ {t : Token} {rest : List Char} {ts : List Token},
          (tokens fuel rest).map (t :: ·) = some ts → t.IsLoopless → ∀ t ∈ ts, t.IsLoopless := by
        intro t rest ts hts ht
        obtain ⟨more, hmore, rfl⟩ := Option.map_eq_some_iff.1 hts
        exact List.forall_mem_cons.2 ⟨ht, ih hmore⟩
      unfold tokens at h
      split_ifs at h
      · exact ih h
      · exact hmap h trivial
      · exact hmap h trivial
      · exact hmap h trivial
      · exact hmap h trivial
      · exact hmap h trivial
      · exact hmap h trivial
      · obtain ⟨⟨text, rest'⟩, -, h⟩ := Option.bind_eq_some_iff.1 h
        obtain ⟨more, hmore, h⟩ := Option.bind_eq_some_iff.1 h
        cases h
        exact List.forall_mem_cons.2 ⟨rfl, ih hmore⟩
      · obtain ⟨⟨v, rest'⟩, hv, h⟩ := Option.bind_eq_some_iff.1 h
        obtain ⟨more, hmore, h⟩ := Option.bind_eq_some_iff.1 h
        cases h
        exact List.forall_mem_cons.2 ⟨isLoopless_of_readNumber hv, ih hmore⟩
      · split at h
        · exact hmap h rfl
        · exact hmap h rfl
        · exact hmap h rfl
        · exact nomatch h

/-- A frame whose members hold no collection within themselves. -/
def Frame.IsLoopless : Frame → Prop
  | .list items => ∀ v ∈ items, v.isLoopless = true
  | .dict entries _ => ∀ e ∈ entries, e.2.isLoopless = true

def Progress.IsLoopless : Progress → Prop
  | .inside _ frames => ∀ f ∈ frames, f.IsLoopless
  | .complete v => v.isLoopless = true

theorem isLoopless_place {v : Value} (hv : v.isLoopless = true) {frames : List Frame}
    (h : ∀ f ∈ frames, f.IsLoopless) : (place v frames).IsLoopless := by
  cases frames with
  | nil => exact hv
  | cons f frames =>
    obtain ⟨hf, hframes⟩ := List.forall_mem_cons.1 h
    refine List.forall_mem_cons.2 ⟨?_, hframes⟩
    cases f with
    | list items => exact List.forall_mem_cons.2 ⟨hv, hf⟩
    | dict entries key => exact List.forall_mem_cons.2 ⟨hv, hf⟩

theorem isLoopless_close {f : Frame} (h : f.IsLoopless) : f.close.isLoopless = true := by
  cases f with
  | list items =>
    refine areLoopless_iff.2 fun v hv => h v ?_
    exact List.mem_reverse.1 hv
  | dict entries key => exact Value.isLoopless_ofEntries fun e he => h e (List.mem_reverse.1 he)

theorem isLoopless_enter {expect : Expect} {f : Frame} {frames : List Frame}
    (h : ∀ f ∈ frames, f.IsLoopless) {p : Progress} (hp : enter expect f frames = some p)
    (hf : f.IsLoopless) : p.IsLoopless := by
  unfold enter at hp
  split_ifs at hp
  cases hp
  exact List.forall_mem_cons.2 ⟨hf, h⟩

theorem isLoopless_advance {p q : Progress} {t : Token} (hp : p.IsLoopless) (ht : t.IsLoopless)
    (h : advance p t = some q) : q.IsLoopless := by
  unfold advance at h
  split at h
  · exact nomatch h
  · next e frames =>
    have hframes : ∀ f ∈ frames, f.IsLoopless := hp
    split at h
    · cases h
      exact isLoopless_place ht hframes
    · cases h
      exact isLoopless_place ht hframes
    · exact isLoopless_enter hframes h fun _ hv => absurd hv List.not_mem_nil
    · exact isLoopless_enter hframes h fun _ hv => absurd hv List.not_mem_nil
    · exact isLoopless_enter hframes h fun _ he => absurd he List.not_mem_nil
    · exact isLoopless_enter hframes h fun _ he => absurd he List.not_mem_nil
    · cases h
      obtain ⟨hf, houter⟩ := List.forall_mem_cons.1 hframes
      exact isLoopless_place (isLoopless_close hf) houter
    · cases h
      obtain ⟨hf, houter⟩ := List.forall_mem_cons.1 hframes
      exact isLoopless_place (isLoopless_close hf) houter
    · cases h
      obtain ⟨hf, houter⟩ := List.forall_mem_cons.1 hframes
      exact List.forall_mem_cons.2 ⟨hf, houter⟩
    · cases h
      obtain ⟨hf, houter⟩ := List.forall_mem_cons.1 hframes
      exact List.forall_mem_cons.2 ⟨hf, houter⟩
    · cases h
      exact hframes
    · cases h
      exact hframes
    · cases h
      exact hframes
    · cases h
      obtain ⟨hf, houter⟩ := List.forall_mem_cons.1 hframes
      exact isLoopless_place (isLoopless_close hf) houter
    · cases h
      obtain ⟨hf, houter⟩ := List.forall_mem_cons.1 hframes
      exact isLoopless_place (isLoopless_close hf) houter
    · exact nomatch h

theorem isLoopless_of_ofTokens? {ts : List Token} (hts : ∀ t ∈ ts, t.IsLoopless) {v : Value}
    (h : ofTokens? ts = some v) : v.isLoopless = true := by
  have hrun : ∀ {p q : Progress}, ts.foldlM advance p = some q → p.IsLoopless → q.IsLoopless := by
    clear h
    intro p q hq hp
    induction ts generalizing p with
    | nil =>
      cases hq
      exact hp
    | cons t ts ih =>
      rw [List.forall_mem_cons] at hts
      rw [List.foldlM_cons] at hq
      obtain ⟨p', hp', hq⟩ := Option.bind_eq_some_iff.1 hq
      exact ih hts.2 hq (isLoopless_advance hp hts.1 hp')
  unfold ofTokens? at h
  split at h
  · next w hw =>
    cases h
    exact hrun hw fun _ hf => absurd hf List.not_mem_nil
  · exact nomatch h

/-- No collection in the value of a JSON text lies within itself. -/
theorem isLoopless_of_readBytes {bytes : List UInt8} {v : Value} (h : readBytes bytes = .ok v) :
    v.isLoopless = true := by
  unfold readBytes at h
  split at h
  · unfold read at h
    split at h
    · next v' hv =>
      cases h
      obtain ⟨ts, hts, hv⟩ := Option.bind_eq_some_iff.1 hv
      exact isLoopless_of_ofTokens? (isLoopless_of_tokens hts) hv
    · exact nomatch h
  · exact nomatch h

/-- JSON that cannot be read is malformed. -/
theorem readBytes_faults (bytes : List UInt8) :
    OnlyFaults (· = .malformedJson) (readBytes bytes) := by
  unfold readBytes read
  split
  · split
    · exact .ok _
    · exact .error rfl
  · exact .error rfl

end Json

end Bylaws
