import Mathlib.Data.List.Basic
import Mathlib.Order.Defs.Unbundled

/-!
# Programs that can throw

A program over a state `σ` that can throw an `ε` is a value of `EStateM ε σ α`:
it ends in a value or an exception, and in both cases in a state, since
throwing undoes nothing.

`Ensures m s Q E` says how `m` ends when it is started in `s`: in a value and a
state that satisfy `Q`, or in an exception and a state that satisfy `E`. It is
computed by going through the program (`ensures_bind` and its companions are
equivalences), and a loop over a list is treated by what its body preserves
(`Ensures.forM`).

`Respects R m` is for what a program does not do: the states before and after
are related by `R`, however `m` ends. When `R` is a preorder, a program respects
it as soon as its parts do.
-/

section

variable {ε σ α β ι : Type}

/-- **How a program ends**: `Q` for a value, `E` for an exception. -/
def Ensures (m : EStateM ε σ α) (s : σ) (Q : α → σ → Prop) (E : ε → σ → Prop) : Prop :=
  match m s with
  | .ok a t => Q a t
  | .error e t => E e t

variable {m : EStateM ε σ α} {s : σ} {Q Q' : α → σ → Prop} {E E' : ε → σ → Prop}

theorem Ensures.mono (h : Ensures m s Q E) (hQ : ∀ a t, Q a t → Q' a t)
    (hE : ∀ e t, E e t → E' e t) : Ensures m s Q' E' := by
  unfold Ensures at h ⊢
  cases hm : m s with
  | ok a t => rw [hm] at h; exact hQ a t h
  | error e t => rw [hm] at h; exact hE e t h

/-- Only how the program ends in a value matters. -/
theorem Ensures.mono_ok (h : Ensures m s Q E) (hQ : ∀ a t, Q a t → Q' a t) : Ensures m s Q' E :=
  h.mono hQ fun _ _ h => h

/-- What is ensured of a program that ended in a value. -/
theorem Ensures.of_ok (h : Ensures m s Q E) {a : α} {t : σ} (hm : m s = .ok a t) : Q a t := by
  unfold Ensures at h
  rwa [hm] at h

/-- A program that cannot throw ends in a value. -/
theorem Ensures.exists_ok (h : Ensures m s Q fun _ _ => False) :
    ∃ a t, m s = .ok a t ∧ Q a t := by
  unfold Ensures at h
  cases hm : m s with
  | ok a t => rw [hm] at h; exact ⟨a, t, rfl, h⟩
  | error e t => rw [hm] at h; exact h.elim

/-- What is ensured of a program that ended in an exception. -/
theorem Ensures.of_error (h : Ensures m s Q E) {e : ε} {t : σ} (hm : m s = .error e t) :
    E e t := by
  unfold Ensures at h
  rwa [hm] at h

/-- To ensure something is to show it of both endings. -/
theorem ensures_iff : Ensures m s Q E
    ↔ (∀ a t, m s = .ok a t → Q a t) ∧ ∀ e t, m s = .error e t → E e t := by
  constructor
  · exact fun h => ⟨fun a t => h.of_ok, fun e t => h.of_error⟩
  · rintro ⟨hok, herror⟩
    unfold Ensures
    cases hm : m s with
    | ok a t => exact hok a t hm
    | error e t => exact herror e t hm

@[simp] theorem ensures_pure (a : α) : Ensures (pure a : EStateM ε σ α) s Q E ↔ Q a s := Iff.rfl

@[simp] theorem ensures_throw (e : ε) :
    Ensures (throw e : EStateM ε σ α) s Q E ↔ E e s := Iff.rfl

@[simp] theorem ensures_get {Q : σ → σ → Prop} :
    Ensures (get : EStateM ε σ σ) s Q E ↔ Q s s := Iff.rfl

@[simp] theorem ensures_modify {Q : Unit → σ → Prop} (f : σ → σ) :
    Ensures (modify f : EStateM ε σ Unit) s Q E ↔ Q () (f s) := Iff.rfl

/-- **Sequencing.** -/
theorem ensures_bind (m : EStateM ε σ β) (f : β → EStateM ε σ α) :
    Ensures (m >>= f) s Q E ↔ Ensures m s (fun b t => Ensures (f b) t Q E) E := by
  unfold Ensures
  show (match EStateM.bind m f s with | .ok a t => Q a t | .error e t => E e t) ↔ _
  unfold EStateM.bind
  cases hm : m s <;> rfl

/-- A computation that can throw and has no state. -/
@[simp] theorem ensures_liftExcept (x : Except ε α) :
    Ensures (liftExcept x : EStateM ε σ α) s Q E
      ↔ (∀ a, x = .ok a → Q a s) ∧ ∀ e, x = .error e → E e s := by
  cases x <;> simp [liftExcept]

/-- **The loop rule**: what holds of what is left to do before each round holds
after it of what is left then. -/
theorem Ensures.forM {f : ι → EStateM ε σ PUnit} (I : List ι → σ → Prop)
    (hstep : ∀ i rest s, I (i :: rest) s → Ensures (f i) s (fun _ t => I rest t) E)
    {l : List ι} (h : I l s) : Ensures (l.forM f) s (fun _ t => I [] t) E := by
  induction l generalizing s with
  | nil => exact h
  | cons i rest ih =>
    show Ensures (f i >>= fun _ => rest.forM f) s _ E
    rw [ensures_bind]
    exact (hstep i rest s h).mono_ok fun _ t ht => ih ht

/-- The loop rule for a loop that carries a value. -/
theorem Ensures.foldlM {f : β → ι → EStateM ε σ β} (I : List ι → β → σ → Prop)
    (hstep : ∀ i rest b s, I (i :: rest) b s → Ensures (f b i) s (fun b' t => I rest b' t) E)
    {l : List ι} {b : β} (h : I l b s) : Ensures (l.foldlM f b) s (fun b' t => I [] b' t) E := by
  induction l generalizing s b with
  | nil => exact h
  | cons i rest ih =>
    rw [List.foldlM_cons, ensures_bind]
    exact (hstep i rest b s h).mono_ok fun b' t ht => ih ht

/-- The loop rule for an invariant that does not depend on what is left. -/
theorem Ensures.forM_of_preserves {f : ι → EStateM ε σ PUnit} (I : σ → Prop) {l : List ι}
    (hstep : ∀ i ∈ l, ∀ s, I s → Ensures (f i) s (fun _ t => I t) E) (h : I s) :
    Ensures (l.forM f) s (fun _ t => I t) E := by
  refine (Ensures.forM (fun rest t => rest ⊆ l ∧ I t) (fun i rest s hs => ?_)
    (And.intro (List.Subset.refl l) h)).mono_ok fun _ t ht => ht.2
  exact (hstep i (hs.1 List.mem_cons_self) s hs.2).mono_ok fun _ t ht =>
    ⟨fun x hx => hs.1 (List.mem_cons_of_mem i hx), ht⟩

/-! ## Relations between the states before and after -/

/-- **A program respects a relation** when the state it ends in, in whatever
way, is related to the one it is started in. -/
def Respects (R : σ → σ → Prop) (m : EStateM ε σ α) : Prop :=
  ∀ s, Ensures m s (fun _ t => R s t) fun _ t => R s t

section Respects

variable {R R' : σ → σ → Prop}

theorem Respects.of_ok (h : Respects R m) {a : α} {t : σ} (hm : m s = .ok a t) : R s t :=
  (h s).of_ok hm

theorem Respects.mono (h : Respects R m) (hR : ∀ s t, R s t → R' s t) : Respects R' m :=
  fun s => (h s).mono (fun _ t => hR s t) fun _ t => hR s t

theorem respects_modify {f : σ → σ} (hf : ∀ s, R s (f s)) :
    Respects R (modify f : EStateM ε σ PUnit) := hf

theorem respects_pure [Std.Refl R] (a : α) : Respects R (pure a : EStateM ε σ α) := refl_of R

theorem respects_throw [Std.Refl R] (e : ε) : Respects R (throw e : EStateM ε σ α) := refl_of R

theorem respects_get [Std.Refl R] : Respects R (get : EStateM ε σ σ) := refl_of R

theorem respects_liftExcept [Std.Refl R] (x : Except ε α) :
    Respects R (liftExcept x : EStateM ε σ α) := by
  intro s
  rw [ensures_liftExcept]
  exact ⟨fun _ _ => refl_of R s, fun _ _ => refl_of R s⟩

theorem Respects.bind [IsTrans σ R] {m : EStateM ε σ β} {f : β → EStateM ε σ α}
    (hm : Respects R m) (hf : ∀ b, Respects R (f b)) : Respects R (m >>= f) := by
  intro s
  rw [ensures_bind]
  exact (hm s).mono (fun b t hst => (hf b t).mono (fun _ _ h => trans_of R hst h)
    fun _ _ h => trans_of R hst h) fun _ _ h => h

theorem Respects.foldlM [IsPreorder σ R] {f : β → ι → EStateM ε σ β}
    (hf : ∀ b i, Respects R (f b i)) (l : List ι) (b : β) : Respects R (l.foldlM f b) := by
  induction l generalizing b with
  | nil => exact respects_pure b
  | cons i l ih =>
    rw [List.foldlM_cons]
    exact (hf b i).bind ih

theorem Respects.forM [IsPreorder σ R] {f : ι → EStateM ε σ PUnit} (hf : ∀ i, Respects R (f i))
    (l : List ι) : Respects R (l.forM f) := by
  induction l with
  | nil => exact respects_pure PUnit.unit
  | cons i l ih => exact (hf i).bind fun _ => ih

end Respects

/-! ## Running programs -/

/-- A sequence ends in a value exactly when both parts do. -/
theorem run_bind_eq_ok {m : EStateM ε σ β} {f : β → EStateM ε σ α} {a : α} {t : σ} :
    (m >>= f) s = .ok a t ↔ ∃ b u, m s = .ok b u ∧ f b u = .ok a t := by
  show EStateM.bind m f s = .ok a t ↔ _
  unfold EStateM.bind
  cases hm : m s with
  | ok b u => exact ⟨fun h => ⟨b, u, rfl, h⟩, fun ⟨_, _, h, h'⟩ => by cases h; exact h'⟩
  | error e u =>
    constructor
    · intro h
      cases h
    · rintro ⟨_, _, h, _⟩
      cases h

theorem run_liftExcept_eq_ok {x : Except ε α} {a : α} {t : σ} :
    (liftExcept x : EStateM ε σ α) s = .ok a t ↔ x = .ok a ∧ t = s := by
  cases x with
  | ok b =>
    constructor
    · intro h
      cases h
      exact ⟨rfl, rfl⟩
    · rintro ⟨h, rfl⟩
      cases h
      rfl
  | error e =>
    constructor
    · intro h
      cases h
    · rintro ⟨h, _⟩
      cases h

/-- Sequencing computations that can throw and have no state: the whole ends in
a value exactly when both parts do. -/
theorem bind_eq_ok {x : Except ε α} {f : α → Except ε β} {b : β} :
    x >>= f = .ok b ↔ ∃ a, x = .ok a ∧ f a = .ok b := by
  cases x with
  | error e =>
    refine ⟨fun h => ?_, fun ⟨_, h, _⟩ => ?_⟩
    · cases h
    · cases h
  | ok a => exact ⟨fun h => ⟨a, rfl, h⟩, fun ⟨_, ha, h⟩ => Except.ok.inj ha ▸ h⟩

/-- A loop that ends in a list has come to its values one element at a time. -/
theorem getElem?_of_mapM {f : α → Except ε β} {l : List α} {bs : List β} (h : l.mapM f = .ok bs)
    {i : ℕ} {b : β} (hb : bs[i]? = some b) : ∃ a, l[i]? = some a ∧ f a = .ok b := by
  induction l generalizing bs i with
  | nil =>
    rw [List.mapM_nil] at h
    obtain rfl := Except.ok.inj h
    cases hb
  | cons a l ih =>
    rw [List.mapM_cons] at h
    obtain ⟨b', hb', hrest⟩ := bind_eq_ok.mp h
    obtain ⟨bs', hbs, hpure⟩ := bind_eq_ok.mp hrest
    obtain rfl := Except.ok.inj hpure
    cases i with
    | zero => exact ⟨a, rfl, hb'.trans (congrArg _ (Option.some.inj hb))⟩
    | succ i => exact ih hbs hb

/-- Each of the values is that of an element. -/
theorem exists_of_mem_mapM {f : α → Except ε β} {l : List α} {bs : List β}
    (h : l.mapM f = .ok bs) {b : β} (hb : b ∈ bs) : ∃ a ∈ l, f a = .ok b := by
  obtain ⟨i, hi⟩ := List.getElem?_of_mem hb
  obtain ⟨a, ha, hf⟩ := getElem?_of_mapM h hi
  exact ⟨a, List.mem_of_getElem? ha, hf⟩

/-- **A loop ends in a list** when every round ends. -/
theorem exists_mapM_eq_ok_iff {f : α → Except ε β} {l : List α} :
    (∃ bs, l.mapM f = .ok bs) ↔ ∀ a ∈ l, ∃ b, f a = .ok b := by
  induction l with
  | nil => exact iff_of_true ⟨[], rfl⟩ fun _ h => absurd h List.not_mem_nil
  | cons a l ih =>
    rw [List.mapM_cons, List.forall_mem_cons, ← ih]
    constructor
    · rintro ⟨_, h⟩
      obtain ⟨b, hb, hrest⟩ := bind_eq_ok.mp h
      obtain ⟨bs, hbs, -⟩ := bind_eq_ok.mp hrest
      exact ⟨⟨b, hb⟩, bs, hbs⟩
    · rintro ⟨⟨b, hb⟩, bs, hbs⟩
      rw [hb, hbs]
      exact ⟨b :: bs, rfl⟩

/-- What holds of the value a computation ends in can be decided by running it. -/
instance decidableForallOk (x : Except ε α) (P : α → Prop) [∀ a, Decidable (P a)] :
    Decidable (∀ a, x = .ok a → P a) :=
  match x with
  | .ok a => decidable_of_iff (P a) ⟨fun h _ hb => Except.ok.inj hb ▸ h, fun h => h a rfl⟩
  | .error _ => isTrue fun _ h => nomatch h

instance decidableExistsOk (x : Except ε α) (P : α → Prop) [∀ a, Decidable (P a)] :
    Decidable (∃ a, x = .ok a ∧ P a) :=
  match x with
  | .ok a => decidable_of_iff (P a) ⟨fun h => ⟨a, rfl, h⟩, fun ⟨_, hb, h⟩ => Except.ok.inj hb ▸ h⟩
  | .error _ => isFalse fun ⟨_, h, _⟩ => nomatch h

end
