import Deltabase.Lib.Transition
import Mathlib.Data.Multiset.Bind
import Mathlib.Data.Multiset.Filter

/-!
# Relations

What a database with tables is for, once pages, versions, indexes and logs are
left out of it. There are relations, each of which is a bag of tuples. A
statement changes one of them (`Change`), or asks for the tuples of one that
satisfy a condition, or does neither (`Event`), and every such event has one
outcome (`Step`).

A change replaces every tuple by its image, which may be empty, and adds tuples
(`Change.apply_eq`). An implementation that goes through its tuples one after
another does that to each as it comes to it; `Replacing` is the invariant of
such a loop, in which the tuples that have been dealt with are not told from
those that are yet to come.

A tuple is a list of values, and a list of names says which is where. A value is
read and written by its name (`field`, `assign`).
-/

namespace Relational

variable {ι τ α β ν : Type*}

/-! ## Tuples -/

section Tuples

variable [BEq ν]

/-- The value with a name: the first, if names repeat. -/
def field (names : List ν) (name : ν) (tuple : List α) : Option α :=
  (names.findIdx? fun n => n == name).bind fun i => tuple[i]?

/-- Writes a value under a name; a name that is not there is passed over. -/
def assign (names : List ν) (tuple : List α) (assignment : ν × α) : List α :=
  match names.findIdx? fun n => n == assignment.1 with
  | some i => tuple.set i assignment.2
  | none => tuple

/-- Writes one value after another. -/
def assignAll (names : List ν) (assignments : List (ν × α)) (tuple : List α) : List α :=
  assignments.foldl (assign names) tuple

@[simp] theorem length_assign (names : List ν) (tuple : List α) (assignment : ν × α) :
    (assign names tuple assignment).length = tuple.length := by
  unfold assign
  split
  · exact List.length_set
  · rfl

end Tuples

/-! ## Changes -/

/-- **A change of a relation.** -/
inductive Change (τ : Type*) where
  | insert (tuples : List τ)
  | update (selects : τ → Bool) (replace : τ → τ)
  | delete (selects : τ → Bool)

namespace Change

/-- **The relation after a change.** -/
def apply : Change τ → Multiset τ → Multiset τ
  | insert tuples, r => r + tuples
  | update selects replace, r =>
    r.filter (fun t => ¬ selects t) + (r.filter fun t => selects t).map replace
  | delete selects, r => r.filter fun t => ¬ selects t

/-- What becomes of a tuple. -/
def image : Change τ → τ → Multiset τ
  | insert _, t => {t}
  | update selects replace, t => if selects t then {replace t} else {t}
  | delete selects, t => if selects t then 0 else {t}

/-- The tuples that a change adds. -/
def added : Change τ → List τ
  | insert tuples => tuples
  | _ => []

/-- **A change replaces every tuple by its image** and adds tuples. -/
theorem apply_eq (c : Change τ) (r : Multiset τ) : c.apply r = r.bind c.image + c.added := by
  cases c with
  | insert tuples =>
    show r + ↑tuples = r.bind (fun t => {t}) + ↑tuples
    rw [Multiset.bind_singleton, Multiset.map_id']
  | update selects replace =>
    show _ = r.bind (fun t => if selects t then {replace t} else {t}) + 0
    rw [add_zero]
    induction r using Multiset.induction_on with
    | empty => rfl
    | cons t r ih =>
      rw [Multiset.cons_bind, ← ih]
      show (t ::ₘ r).filter _ + ((t ::ₘ r).filter _).map replace = _
      cases hselects : selects t with
      | true =>
        rw [Multiset.filter_cons_of_neg _ (by simpa using hselects),
          Multiset.filter_cons_of_pos (p := fun t => selects t = true) _ hselects,
          Multiset.map_cons, Multiset.add_cons]
        exact (Multiset.singleton_add _ _).symm
      | false =>
        rw [Multiset.filter_cons_of_pos _ (by simpa using hselects),
          Multiset.filter_cons_of_neg _ (by simpa using hselects), Multiset.cons_add]
        exact (Multiset.singleton_add _ _).symm
  | delete selects =>
    show _ = r.bind (fun t => if selects t then 0 else {t}) + 0
    rw [add_zero]
    induction r using Multiset.induction_on with
    | empty => rfl
    | cons t r ih =>
      rw [Multiset.cons_bind, ← ih]
      show (t ::ₘ r).filter _ = _
      cases hselects : selects t with
      | true =>
        rw [Multiset.filter_cons_of_neg _ (by simpa using hselects)]
        exact (zero_add _).symm
      | false =>
        rw [Multiset.filter_cons_of_pos _ (by simpa using hselects)]
        exact (Multiset.singleton_add _ _).symm

end Change

/-! ## Going through a relation -/

/-- **The invariant of a loop that replaces elements one by one**: `whole` is what
the relation is by now, `rest` are the elements to come, `view` is what is seen
of an element and `image` what it is replaced by. -/
def Replacing (view : α → τ) (image : α → Multiset τ) (final : Multiset τ) (rest : List α)
    (whole : Multiset τ) : Prop :=
  ∃ done, whole = done + ↑(rest.map view) ∧ done + (↑rest : Multiset α).bind image = final

namespace Replacing

variable {view : α → τ} {image : α → Multiset τ} {final whole whole' : Multiset τ}
  {rest : List α} {a : α}

theorem start (view : α → τ) (image : α → Multiset τ) (rest : List α) :
    Replacing view image ((↑rest : Multiset α).bind image) rest ↑(rest.map view) :=
  ⟨0, (zero_add _).symm, zero_add _⟩

/-- **An element is replaced.** -/
theorem replace (h : Replacing view image final (a :: rest) whole)
    (hwhole : view a ::ₘ whole' = whole + image a) : Replacing view image final rest whole' := by
  obtain ⟨done, hold, hfinal⟩ := h
  refine ⟨done + image a, ?_, ?_⟩
  · rw [hold, List.map_cons, ← Multiset.cons_coe, Multiset.add_cons, Multiset.cons_add] at hwhole
    rw [(Multiset.cons_inj_right (view a)).mp hwhole, add_right_comm]
  · rw [← hfinal, ← Multiset.cons_coe, Multiset.cons_bind, add_assoc]

/-- **An element is left alone**, being its own image. -/
theorem skip (h : Replacing view image final (a :: rest) whole) (himage : image a = {view a}) :
    Replacing view image final rest whole :=
  h.replace (by rw [himage, add_comm, Multiset.singleton_add])

theorem finish (h : Replacing view image final [] whole) : whole = final := by
  obtain ⟨done, hold, hfinal⟩ := h
  rw [hold, ← hfinal]
  rfl

end Replacing

/-! ## Systems of relations -/

/-- **What happens to a system of relations.** -/
inductive Event (ι τ : Type*) where
  | change (i : ι) (c : Change τ)
  | answer (i : ι) (selects : τ → Bool) (tuples : Multiset τ)
  | silent

namespace Event

/-- An event that adds tuples to a relation as new ones. -/
def Inserts (i : ι) (e : Event ι τ) : Prop := ∃ tuples, e = change i (.insert tuples)

/-- An event that replaces tuples of a relation. -/
def Updates (i : ι) (e : Event ι τ) : Prop :=
  ∃ selects replace, e = change i (.update selects replace)

end Event

/-- **The outcome of an event**: the relation is changed, or its tuples that
satisfy the condition are the answer. -/
inductive Step [DecidableEq ι] (r : ι → Multiset τ) : Event ι τ → (ι → Multiset τ) → Prop
  | change (i : ι) (c : Change τ) : Step r (.change i c) (Function.update r i (c.apply (r i)))
  | answer (i : ι) (selects : τ → Bool) :
      Step r (.answer i selects ((r i).filter fun t => selects t)) r
  | silent : Step r .silent r

end Relational
