import Mathlib.Algebra.Order.Group.Multiset
import Mathlib.Data.Multiset.Filter

/-!
# Lists of versions

A store that keeps its values in versions. A version has an id and a value and
is *live* or not; what the store holds are the values of the live ones. A value
is changed by writing a new version and retiring the old one, so that a list of
versions only grows.

A change can be taken back, and `takeBackAll` takes back a list of them, the
last one first. Taking an update back does not bring the old version back: the
new one gets the old value. As long as every change is about a version that was
there before all of them, the store holds what it held before. An update of a
version that one of the changes wrote leaves its old value behind as well
(`liveValues_takeBackAll`).
-/

/-- **A version** of a value. -/
structure Version (ι τ : Type*) where
  id : ι
  live : Bool
  value : τ

/-- **A change** of a list of versions. -/
inductive Change (ι τ : Type*) where
  | insert (after : Version ι τ)
  | update (before after : Version ι τ)
  | delete (before : Version ι τ)

namespace Version

variable {ι τ : Type*}

/-- The version stays in the list and is not live. -/
def retire (v : Version ι τ) : Version ι τ := { v with live := false }

/-- The version is live again. -/
def revive (v : Version ι τ) : Version ι τ := { v with live := true }

/-- The version is live and has this value. -/
def restore (value : τ) (v : Version ι τ) : Version ι τ := { v with live := true, value := value }

/-- What the store holds. -/
def liveValues (vs : List (Version ι τ)) : Multiset τ :=
  ((vs.filter Version.live).map Version.value)

section

variable {v w : Version ι τ} {vs ws : List (Version ι τ)}

@[simp] theorem retire_id (v : Version ι τ) : v.retire.id = v.id := rfl

@[simp] theorem revive_id (v : Version ι τ) : v.revive.id = v.id := rfl

@[simp] theorem restore_id (value : τ) (v : Version ι τ) : (v.restore value).id = v.id := rfl

theorem revive_retire (h : v.live = true) : v.retire.revive = v := by
  cases v
  cases h
  rfl

/-- Two versions with one id are one, where ids are distinct. -/
theorem eq_of_id_eq (h : (vs.map Version.id).Nodup) (hv : v ∈ vs) (hw : w ∈ vs)
    (hid : v.id = w.id) : v = w := List.inj_on_of_nodup_map h hv hw hid

theorem liveValues_append : liveValues (vs ++ ws) = liveValues vs + liveValues ws := by
  unfold liveValues
  rw [List.filter_append, List.map_append, Multiset.coe_add]

theorem liveValues_cons (v : Version ι τ) (vs : List (Version ι τ)) :
    liveValues (v :: vs) = liveValues [v] + liveValues vs := by
  rw [← liveValues_append]
  rfl

theorem liveValues_singleton (h : v.live = true) : liveValues [v] = {v.value} := by
  unfold liveValues
  rw [List.filter_cons_of_pos h]
  rfl

theorem liveValues_retire (v : Version ι τ) : liveValues [v.retire] = 0 := rfl

end

section

variable [DecidableEq ι] {id : ι} {f : Version ι τ → Version ι τ} {vs ws : List (Version ι τ)}

/-- Changes the version with an id. -/
def setAt (id : ι) (f : Version ι τ → Version ι τ) (vs : List (Version ι τ)) :
    List (Version ι τ) :=
  vs.map fun v => if v.id = id then f v else v

/-- Retires the versions with these ids. -/
def retireIn (ids : List ι) (v : Version ι τ) : Version ι τ := if v.id ∈ ids then v.retire else v

@[simp] theorem retireIn_id (ids : List ι) (v : Version ι τ) : (v.retireIn ids).id = v.id := by
  unfold retireIn
  split_ifs <;> rfl

theorem retire_retireIn (ids : List ι) (v : Version ι τ) : (v.retireIn ids).retire = v.retire := by
  unfold retireIn
  split_ifs <;> rfl

theorem restore_retireIn (ids : List ι) (value : τ) (v : Version ι τ) :
    (v.retireIn ids).restore value = v.restore value := by
  unfold retireIn
  split_ifs <;> rfl

/-- Changing a version keeps the ids. -/
theorem map_id_setAt (hf : ∀ v, (f v).id = v.id) :
    (setAt id f vs).map Version.id = vs.map Version.id := by
  unfold setAt
  rw [List.map_map]
  refine List.map_congr_left fun v _ => ?_
  show (if v.id = id then f v else v).id = v.id
  split_ifs
  exacts [hf v, rfl]

theorem map_id_retireIn (ids : List ι) (vs : List (Version ι τ)) :
    (vs.map (retireIn ids)).map Version.id = vs.map Version.id := by
  rw [List.map_map]
  exact List.map_congr_left fun v _ => retireIn_id ids v

theorem setAt_append : setAt id f (vs ++ ws) = setAt id f vs ++ setAt id f ws := List.map_append

/-- Where the id does not occur nothing is changed. -/
theorem setAt_of_not_mem (h : id ∉ vs.map Version.id) : setAt id f vs = vs := by
  unfold setAt
  conv_rhs => rw [← List.map_id vs]
  exact List.map_congr_left fun v hv => if_neg fun hid => h (List.mem_map.mpr ⟨v, hv, hid⟩)

/-- Retiring one version and then some is retiring all of them. -/
theorem map_retireIn_setAt (ids : List ι) (vs : List (Version ι τ)) :
    (setAt id retire vs).map (retireIn ids) = vs.map (retireIn (id :: ids)) := by
  unfold setAt
  rw [List.map_map]
  refine List.map_congr_left fun v _ => ?_
  show (if v.id = id then v.retire else v).retireIn ids = v.retireIn (id :: ids)
  unfold retireIn
  by_cases hid : v.id = id
  · have hmem : v.id ∈ id :: ids := List.mem_cons.mpr (.inl hid)
    rw [if_pos hid, if_pos hmem]
    split_ifs <;> rfl
  · have hmem : v.id ∈ id :: ids ↔ v.id ∈ ids :=
      List.mem_cons.trans (or_iff_right hid)
    rw [if_neg hid]
    exact if_congr hmem.symm rfl rfl

/-- A version that was live is as it was when it has been retired and is live
again. -/
theorem setAt_revive (ids : List ι) (hid : id ∉ ids)
    (hlive : ∀ v ∈ vs, v.id = id → v.live = true) :
    setAt id revive ((setAt id retire vs).map (retireIn ids)) = vs.map (retireIn ids) := by
  unfold setAt
  rw [List.map_map, List.map_map]
  refine List.map_congr_left fun v hv => ?_
  show (if ((if v.id = id then v.retire else v).retireIn ids).id = id
      then ((if v.id = id then v.retire else v).retireIn ids).revive
      else (if v.id = id then v.retire else v).retireIn ids) = v.retireIn ids
  by_cases heq : v.id = id
  · have hnot : v.id ∉ ids := heq ▸ hid
    have hretired : v.retire.retireIn ids = v.retire := if_neg hnot
    have hretire : v.retire.id = id := heq
    rw [if_pos heq, hretired, if_pos hretire, revive_retire (hlive v hv heq)]
    exact (if_neg hnot).symm
  · rw [if_neg heq, if_neg]
    rw [retireIn_id]
    exact heq

theorem setAt_singleton {v : Version ι τ} (h : v.id = id) : setAt id f [v] = [f v] := by
  unfold setAt
  rw [List.map_singleton, if_pos h]

end

end Version

namespace Change

open Version

variable {ι τ : Type*} [DecidableEq ι]

/-- The change. -/
def apply : Change ι τ → List (Version ι τ) → List (Version ι τ)
  | insert after, vs => vs ++ [after]
  | update before after, vs => setAt before.id retire vs ++ [after]
  | delete before, vs => setAt before.id retire vs

/-- Taking the change back. -/
def takeBack : Change ι τ → List (Version ι τ) → List (Version ι τ)
  | insert after, vs => setAt after.id retire vs
  | update before after, vs => setAt after.id (restore before.value) vs
  | delete before, vs => setAt before.id revive vs

/-- **The list is one the change can be made to**: what it writes is new, and
what it is about is live. -/
def Applies : Change ι τ → List (Version ι τ) → Prop
  | insert after, vs => after.id ∉ vs.map Version.id
  | update before after, vs => after.id ∉ vs.map Version.id
      ∧ ∃ v ∈ vs, v.id = before.id ∧ v.live = true ∧ v.value = before.value
  | delete before, vs => ∃ v ∈ vs, v.id = before.id ∧ v.live = true

instance [DecidableEq τ] : ∀ (c : Change ι τ) (vs : List (Version ι τ)), Decidable (c.Applies vs)
  | insert after, vs => inferInstanceAs (Decidable (after.id ∉ vs.map Version.id))
  | update before after, vs => inferInstanceAs (Decidable (after.id ∉ vs.map Version.id
      ∧ ∃ v ∈ vs, v.id = before.id ∧ v.live = true ∧ v.value = before.value))
  | delete before, vs => inferInstanceAs (Decidable (∃ v ∈ vs, v.id = before.id ∧ v.live = true))

/-- All changes, the first one first. -/
def applyAll (cs : List (Change ι τ)) (vs : List (Version ι τ)) : List (Version ι τ) :=
  cs.foldl (fun vs c => c.apply vs) vs

/-- Takes all changes back, the last one first. -/
def takeBackAll (cs : List (Change ι τ)) (vs : List (Version ι τ)) : List (Version ι τ) :=
  cs.foldr takeBack vs

/-- Each change can be made to what the ones before it leave. -/
def AppliesAll : List (Change ι τ) → List (Version ι τ) → Prop
  | [], _ => True
  | c :: cs, vs => c.Applies vs ∧ AppliesAll cs (c.apply vs)

instance decidableAppliesAll [DecidableEq τ] :
    ∀ (cs : List (Change ι τ)) (vs : List (Version ι τ)), Decidable (AppliesAll cs vs)
  | [], _ => .isTrue trivial
  | c :: cs, vs =>
    have := decidableAppliesAll cs (c.apply vs)
    inferInstanceAs (Decidable (c.Applies vs ∧ AppliesAll cs (c.apply vs)))

/-- What is left of a change that has been taken back. -/
def left : Change ι τ → Option (Version ι τ)
  | insert after => some after.retire
  | update before after => some (after.restore before.value)
  | delete _ => none

/-- The version that is updated. -/
def updated : Change ι τ → Option (Version ι τ)
  | update before _ => some before
  | _ => none

/-- The versions that changes update. -/
def befores (cs : List (Change ι τ)) : List (Version ι τ) := cs.filterMap updated

variable {c : Change ι τ} {cs : List (Change ι τ)} {v : Version ι τ} {vs : List (Version ι τ)}

/-- **Ids stay distinct.** -/
theorem Applies.nodup (h : c.Applies vs) (hnodup : (vs.map Version.id).Nodup) :
    ((c.apply vs).map Version.id).Nodup := by
  cases c with
  | insert after =>
    show ((vs ++ [after]).map Version.id).Nodup
    rw [List.map_append, List.map_singleton, ← List.concat_eq_append]
    exact hnodup.concat h
  | update before after =>
    show ((setAt before.id retire vs ++ [after]).map Version.id).Nodup
    rw [List.map_append, map_id_setAt retire_id, List.map_singleton, ← List.concat_eq_append]
    exact hnodup.concat h.1
  | delete before =>
    show ((setAt before.id retire vs).map Version.id).Nodup
    rw [map_id_setAt retire_id]
    exact hnodup

/-- Nothing is removed. -/
theorem ids_subset (c : Change ι τ) (vs : List (Version ι τ)) :
    vs.map Version.id ⊆ (c.apply vs).map Version.id := by
  cases c with
  | insert after =>
    show vs.map Version.id ⊆ (vs ++ [after]).map Version.id
    rw [List.map_append]
    exact List.subset_append_left _ _
  | update before after =>
    show vs.map Version.id ⊆ (setAt before.id retire vs ++ [after]).map Version.id
    rw [List.map_append, map_id_setAt retire_id]
    exact List.subset_append_left _ _
  | delete before =>
    show vs.map Version.id ⊆ (setAt before.id retire vs).map Version.id
    rw [map_id_setAt retire_id]
    exact List.Subset.refl _

/-- Taking a change back keeps the ids. -/
theorem map_id_takeBack (c : Change ι τ) (vs : List (Version ι τ)) :
    (c.takeBack vs).map Version.id = vs.map Version.id := by
  cases c with
  | insert after => exact map_id_setAt retire_id
  | update before after => exact map_id_setAt (restore_id before.value)
  | delete before => exact map_id_setAt revive_id

/-- **What is left is new.** -/
theorem AppliesAll.left_not_mem (h : AppliesAll cs vs) {id : ι}
    (hid : id ∈ vs.map Version.id) : id ∉ (cs.filterMap left).map Version.id := by
  induction cs generalizing vs with
  | nil => exact List.not_mem_nil
  | cons c cs ih =>
    have hrest := ih h.2 (ids_subset c vs hid)
    cases c with
    | insert after =>
      intro hmem
      rcases List.mem_cons.mp hmem with rfl | hmem
      exacts [h.1 hid, hrest hmem]
    | update before after =>
      intro hmem
      rcases List.mem_cons.mp hmem with rfl | hmem
      exacts [h.1.1 hid, hrest hmem]
    | delete before => exact hrest

/-- **A version is updated at most once**, and then it is live and has the value
that the update says. -/
theorem AppliesAll.updated_once (h : AppliesAll cs vs) (hnodup : (vs.map Version.id).Nodup)
    (hv : v ∈ vs) : v.id ∉ (befores cs).map Version.id
      ∨ v.live = true ∧ ∃ before, (befores cs).filter (fun b => b.id = v.id) = [before]
        ∧ before.value = v.value := by
  induction cs generalizing vs v with
  | nil => exact .inl List.not_mem_nil
  | cons c cs ih =>
    have hnodup' := h.1.nodup hnodup
    cases c with
    | insert after => exact ih h.2 hnodup' (List.mem_append_left _ hv)
    | update before after =>
      obtain ⟨-, w, hw, hwid, hwlive, hwvalue⟩ := h.1
      by_cases hid : v.id = before.id
      · -- the version that is updated is not live any more
        obtain rfl := eq_of_id_eq hnodup hv hw (hid.trans hwid.symm)
        have hretired : v.retire ∈ (update before after).apply vs :=
          List.mem_append_left _ (List.mem_map.mpr ⟨v, hv, if_pos hid⟩)
        rcases ih h.2 hnodup' hretired with hnone | ⟨hlive, -⟩
        · refine .inr ⟨hwlive, before, ?_, hwvalue.symm⟩
          have hrest : (befores cs).filter (fun b => b.id = v.id) = [] :=
            List.filter_eq_nil_iff.mpr fun b hb hbid =>
              hnone (List.mem_map.mpr ⟨b, hb, of_decide_eq_true hbid⟩)
          show (before :: befores cs).filter (fun b => b.id = v.id) = [before]
          rw [List.filter_cons_of_pos (p := fun b : Version ι τ => b.id = v.id)
            (decide_eq_true hid.symm), hrest]
        · cases hlive
      · have hkept : v ∈ (update before after).apply vs :=
          List.mem_append_left _ (List.mem_map.mpr ⟨v, hv, if_neg hid⟩)
        rcases ih h.2 hnodup' hkept with hnone | ⟨hlive, b, hb, hvalue⟩
        · exact .inl fun hmem => (List.mem_cons.mp hmem).elim hid hnone
        · refine .inr ⟨hlive, b, ?_, hvalue⟩
          show (before :: befores cs).filter (fun b => b.id = v.id) = [b]
          rw [List.filter_cons_of_neg (by simpa using Ne.symm hid), hb]
    | delete before =>
      by_cases hid : v.id = before.id
      · have hretired : v.retire ∈ (delete before).apply vs :=
          List.mem_map.mpr ⟨v, hv, if_pos hid⟩
        rcases ih h.2 hnodup' hretired with hnone | ⟨hlive, -⟩
        · exact .inl hnone
        · cases hlive
      · exact ih h.2 hnodup' (List.mem_map.mpr ⟨v, hv, if_neg hid⟩)

/-- **All changes made and taken back**: the versions that were there are the
same but for those that were updated, which stay retired, and what is left of
the changes comes after them. -/
theorem takeBackAll_applyAll (h : AppliesAll cs vs) (hnodup : (vs.map Version.id).Nodup) :
    takeBackAll cs (applyAll cs vs)
      = vs.map (retireIn ((befores cs).map Version.id)) ++ cs.filterMap left := by
  induction cs generalizing vs with
  | nil =>
    show vs = vs.map (retireIn []) ++ []
    rw [List.append_nil]
    conv_lhs => rw [← List.map_id vs]
    exact List.map_congr_left fun v _ => (if_neg List.not_mem_nil).symm
  | cons c cs ih =>
    have hrest := ih h.2 (h.1.nodup hnodup)
    show c.takeBack (takeBackAll cs (applyAll cs (c.apply vs))) = _
    rw [hrest]
    cases c with
    | insert after =>
      have hleft : after.id ∉ (cs.filterMap left).map Version.id :=
        h.2.left_not_mem (List.mem_map_of_mem (List.mem_append_right vs List.mem_cons_self))
      have hold : after.id ∉ (vs.map (retireIn ((befores cs).map Version.id))).map Version.id := by
        rw [map_id_retireIn]
        exact h.1
      show setAt after.id retire ((vs ++ [after]).map _ ++ cs.filterMap left)
        = vs.map _ ++ ([after.retire] ++ cs.filterMap left)
      rw [List.map_append, List.map_singleton, setAt_append, setAt_append, setAt_of_not_mem hleft,
        setAt_of_not_mem hold, setAt_singleton (retireIn_id _ after), retire_retireIn,
        List.append_assoc]
      rfl
    | update before after =>
      have hleft : after.id ∉ (cs.filterMap left).map Version.id :=
        h.2.left_not_mem (List.mem_map_of_mem (List.mem_append_right _ List.mem_cons_self))
      have hold : after.id ∉ ((setAt before.id retire vs).map
          (retireIn ((befores cs).map Version.id))).map Version.id := by
        rw [map_id_retireIn, map_id_setAt retire_id]
        exact h.1.1
      show setAt after.id (restore before.value)
          ((setAt before.id retire vs ++ [after]).map _ ++ cs.filterMap left)
        = vs.map (retireIn (before.id :: (befores cs).map Version.id))
          ++ ([after.restore before.value] ++ cs.filterMap left)
      rw [List.map_append, List.map_singleton, setAt_append, setAt_append, setAt_of_not_mem hleft,
        setAt_of_not_mem hold, setAt_singleton (retireIn_id _ after), restore_retireIn,
        List.append_assoc, map_retireIn_setAt]
    | delete before =>
      obtain ⟨w, hw, hwid, hwlive⟩ := h.1
      have hleft : before.id ∉ (cs.filterMap left).map Version.id :=
        h.2.left_not_mem (ids_subset _ vs (List.mem_map.mpr ⟨w, hw, hwid⟩))
      -- no later change has updated the version
      have hnot : before.id ∉ (befores cs).map Version.id := by
        have hretired : w.retire ∈ (delete before).apply vs :=
          List.mem_map.mpr ⟨w, hw, if_pos hwid⟩
        rcases h.2.updated_once (h.1.nodup hnodup) hretired with hnone | ⟨hlive, -⟩
        · exact hwid ▸ hnone
        · cases hlive
      have hlive : ∀ v ∈ vs, v.id = before.id → v.live = true := fun v hv hid =>
        eq_of_id_eq hnodup hv hw (hid.trans hwid.symm) ▸ hwlive
      show setAt before.id revive ((setAt before.id retire vs).map _ ++ cs.filterMap left)
        = vs.map _ ++ cs.filterMap left
      rw [setAt_append, setAt_of_not_mem hleft, setAt_revive _ hnot hlive]
      rfl

omit [DecidableEq ι] in
/-- **What is left of changes** are the values before the updates. -/
theorem liveValues_left (cs : List (Change ι τ)) :
    liveValues (cs.filterMap left) = (befores cs : Multiset (Version ι τ)).map Version.value := by
  induction cs with
  | nil => rfl
  | cons c cs ih =>
    cases c with
    | insert after =>
      show liveValues (after.retire :: cs.filterMap left) = _
      rw [liveValues_cons, liveValues_retire, zero_add]
      exact ih
    | update before after =>
      show liveValues (after.restore before.value :: cs.filterMap left)
        = ((before :: befores cs : List (Version ι τ)) : Multiset (Version ι τ)).map Version.value
      rw [liveValues_cons, liveValues_singleton rfl, ih, ← Multiset.cons_coe, Multiset.map_cons,
        ← Multiset.singleton_add]
      rfl
    | delete before => exact ih

/-- What retiring takes away from one version. -/
theorem AppliesAll.liveValues_singleton (h : AppliesAll cs vs) (hnodup : (vs.map Version.id).Nodup)
    (hv : v ∈ vs) : liveValues [v] = liveValues [v.retireIn ((befores cs).map Version.id)]
      + ((befores cs : Multiset (Version ι τ)).filter fun b => b.id = v.id).map Version.value := by
  rw [Multiset.filter_coe]
  unfold retireIn
  rcases h.updated_once hnodup hv with hnone | ⟨hlive, before, hbefore, hvalue⟩
  · have hnil : (befores cs).filter (fun b => b.id = v.id) = [] :=
      List.filter_eq_nil_iff.mpr fun b hb hbid =>
        hnone (List.mem_map.mpr ⟨b, hb, of_decide_eq_true hbid⟩)
    rw [if_neg hnone, hnil]
    exact (add_zero _).symm
  · have hmem : before ∈ (befores cs).filter fun b => b.id = v.id := by
      rw [hbefore]
      exact List.mem_cons_self
    obtain ⟨hb, hbid⟩ := List.mem_filter.mp hmem
    rw [if_pos (List.mem_map.mpr ⟨before, hb, of_decide_eq_true hbid⟩), hbefore,
      liveValues_retire, zero_add, Version.liveValues_singleton hlive, ← hvalue]
    rfl

/-- **What retiring takes away**: the values of the updates of these versions. -/
theorem AppliesAll.liveValues_retireIn (h : AppliesAll cs vs)
    (hnodup : (vs.map Version.id).Nodup) :
    liveValues vs = liveValues (vs.map (retireIn ((befores cs).map Version.id)))
      + ((befores cs : Multiset (Version ι τ)).filter fun b => b.id ∈ vs.map Version.id).map
        Version.value := by
  have hsub : ∀ ws, ws <:+ vs →
      liveValues ws = liveValues (ws.map (retireIn ((befores cs).map Version.id)))
      + ((befores cs : Multiset (Version ι τ)).filter fun b => b.id ∈ ws.map Version.id).map
        Version.value := by
    intro ws hws
    induction ws with
    | nil =>
      have hnone : (befores cs : Multiset (Version ι τ)).filter
          (fun b => b.id ∈ ([] : List (Version ι τ)).map Version.id) = 0 :=
        Multiset.filter_eq_nil.mpr fun _ _ => List.not_mem_nil
      rw [hnone]
      rfl
    | cons v ws ih =>
      have hsuffix : ws <:+ vs := (List.suffix_cons v ws).trans hws
      have hnew : v.id ∉ ws.map Version.id :=
        (List.nodup_cons.mp (hnodup.sublist (hws.sublist.map Version.id))).1
      have hboth : (befores cs : Multiset (Version ι τ)).filter
          (fun b => b.id = v.id ∧ b.id ∈ ws.map Version.id) = 0 :=
        Multiset.filter_eq_nil.mpr fun b _ ⟨hb, hmem⟩ => hnew (hb ▸ hmem)
      have hsplit : (befores cs : Multiset (Version ι τ)).filter
          (fun b => b.id ∈ (v :: ws).map Version.id)
          = (befores cs : Multiset (Version ι τ)).filter (fun b => b.id = v.id)
            + (befores cs : Multiset (Version ι τ)).filter (fun b => b.id ∈ ws.map Version.id) := by
        rw [Multiset.filter_add_filter, hboth, add_zero]
        exact Multiset.filter_congr fun b _ => List.mem_cons
      have hv : v ∈ vs := hws.subset List.mem_cons_self
      rw [List.map_cons (f := retireIn _), liveValues_cons, liveValues_cons (v.retireIn _),
        h.liveValues_singleton hnodup hv, ih hsuffix, hsplit, Multiset.map_add]
      exact add_add_add_comm _ _ _ _
  exact hsub vs List.suffix_rfl

/-- **What the store holds when all changes have been taken back**: what it held
before them, and the old values of updates of versions that are new. -/
theorem liveValues_takeBackAll (h : AppliesAll cs vs) (hnodup : (vs.map Version.id).Nodup) :
    liveValues (takeBackAll cs (applyAll cs vs)) = liveValues vs
      + ((befores cs : Multiset (Version ι τ)).filter fun b => b.id ∉ vs.map Version.id).map
        Version.value := by
  rw [takeBackAll_applyAll h hnodup, liveValues_append, liveValues_left,
    h.liveValues_retireIn hnodup, add_assoc, ← Multiset.map_add, Multiset.filter_add_not]

end Change
