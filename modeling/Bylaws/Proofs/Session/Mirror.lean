import Bylaws.Proofs.Forest.Mirror
import Bylaws.Proofs.Session.Media

/-!
# Answers under other ids

The same edit of two stores that mirror one another gives the same answer up to the names of
paragraphs, and leaves stores that mirror one another again (`Store.perform_twin`).
-/

namespace Bylaws

open Forest

/-- An answer under other ids. -/
def Answer.rename (ρ : Int → Int) : Answer → Answer
  | made p => made (p.rename ρ)
  | moved done => moved done
  | removed => removed
  | imported ids => imported (ids.map ρ)

/-- The same edit is asked for in two stores, with paragraphs named in each. -/
inductive Edit.Renamed (names : List (Int × Int)) (ρ : Int → Int) (s t : Store) :
    Edit → Edit → Prop where
  | append (fields : Fields) {parent parent' : Option Int} :
    Store.Placed names ρ s t parent parent' →
      Renamed names ρ s t (.append fields parent) (.append fields parent')
  | insert (fields : Fields) {before before' after after' : Option Int} :
    Store.Placed names ρ s t before before' → Store.Placed names ρ s t after after' →
      Renamed names ρ s t (.insert fields before after) (.insert fields before' after')
  | indent {i j : Int} : Store.Named names ρ s t i j →
    Renamed names ρ s t (.indent i) (.indent j)
  | outdent {i j : Int} : Store.Named names ρ s t i j →
    Renamed names ρ s t (.outdent i) (.outdent j)
  | delete {i j : Int} : Store.Named names ρ s t i j →
    Renamed names ρ s t (.delete i) (.delete j)
  | importOutline (outline : Value) {parent parent' : Option Int} :
    Store.Placed names ρ s t parent parent' →
      Renamed names ρ s t (.importOutline outline parent) (.importOutline outline parent')

namespace Store

variable {lenient : Prop} {names : List (Int × Int)} {ρ : Int → Int} {s t : Store} {f : Forest}

theorem making_twin (hρ : StrictMono ρ) {x y : StoreM Int}
    (h : Twin lenient names ρ (fun i j => j = ρ i) (x s) (y t))
    (hid : ∀ id u, x s = (.ok id, u) → u.contains id = true) :
    Twin lenient names ρ (fun a b => b = a.rename ρ) (Edit.making x s) (Edit.making y t) := by
  refine h.bind ?_
  rintro id _ s' t' hs - rfl hm
  refine .get_bind (.lift_bind ((Named.stored (hid id s' hs) rfl).get hρ hm.toResembles) hm ?_)
  rintro p _ - - rfl
  exact .ok rfl hm

/-- The neighbours of a paragraph to be inserted, given by corresponding names. -/
theorem neighbour_twin {before before' after after' : Option Int}
    (hb : Placed names ρ s t before before') (ha : Placed names ρ s t after after') :
    Echoes lenient names (fun n n' => n.Named names ρ s t n') (Neighbour.of before after)
      (Neighbour.of before' after') := by
  cases hb with
  | top =>
    cases ha with
    | top => exact .error (.same _)
    | under ha => exact .ok (.after ha)
  | under hb =>
    cases ha with
    | top => exact .ok (.before hb)
    | under ha => exact .error (.same _)

/-- The same edit of two stores that mirror one another gives the same answer up to the names of
paragraphs, and leaves stores that mirror one another. -/
theorem perform_twin (hρ : StrictMono ρ) (h : Mirrors lenient ρ s t) (hs : s.spoilt = false)
    (hf : s.Shows f) {e e' : Edit} (he : e.Renamed names ρ s t e') :
    Twin lenient names ρ (fun a b => b = a.rename ρ) (e.perform s) (e'.perform t) := by
  cases he with
  | @append fields parent parent' hn =>
    refine .same_bind _ h fun fields' hc => making_twin hρ (append_twin hρ h hf hn fields') ?_
    intro id u hrun
    have hrun' : (Edit.append fields parent).run s = (.ok [id], u) :=
      (bind_ok (lift_ok hc)).trans (bind_ok hrun)
    exact stored_of_run hs hf (e := .append fields parent) trivial hrun' id
      (List.mem_singleton_self id)
  | @insert fields before before' after after' hb ha =>
    refine .lift_bind (neighbour_twin hb ha) h fun n n' hn _ hnn => ?_
    refine .same_bind _ h fun fields' hc => making_twin hρ (insert_twin hρ h hf hnn fields') ?_
    intro id u hrun
    have hh : (Edit.insert fields before after).Holdable s.medium := by
      have := insert_eq_ok hrun
      rwa [← Fields.check_eq_ok hc] at this
    have hrun' : (Edit.insert fields before after).run s = (.ok [id], u) :=
      (bind_ok (lift_ok hn)).trans ((bind_ok (lift_ok hc)).trans (bind_ok hrun))
    exact stored_of_run hs hf hh hrun' id (List.mem_singleton_self id)
  | indent hn =>
    refine (indent_twin hρ h hf hn).bind_pure ?_
    rintro moved _ rfl
    rfl
  | outdent hn =>
    refine (outdent_twin hρ h hf hn).bind_pure ?_
    rintro moved _ rfl
    rfl
  | delete hn => exact (delete_twin hρ h hf hs hn).bind_pure fun _ _ _ => rfl
  | importOutline outline hn =>
    refine (importOutline_twin hρ h hs hf hn outline).bind_pure ?_
    rintro ids _ rfl
    rfl

end Store

end Bylaws
