import Mathlib.Data.List.Basic
import Mathlib.Tactic.Ring
import Mathlib.Tactic.Linarith

/-!
# Bytes, machine integers and decoders

The part of a binary format that does not depend on what is being stored:
fixed-width numbers in either byte order, decoders that consume a prefix of the bytes
they are given, and the relation `Decoder.Reads` between a decoder, the bytes
it consumes and the value it returns.

`Reads d bs a` says that on `bs` followed by anything at all, `d` returns `a`
and stops exactly where `bs` ends. That is the round trip of a self-delimiting
format, and it composes: the bytes of a sequence of decoders are the
concatenation of theirs (`Reads.bind`), and the bytes of a counted loop are
those of its iterations (`Reads.replicate`).

`Exact d enc` is the other direction: whatever `d` accepts is an encoding of
the value it returns, so a format that is read by an exact decoder has one
representation of each value. `Extends d` says that `d` does not look at what
follows, and then no proper prefix of what it reads to the end is accepted
(`Extends.refusesCuts`). `Ensures d P` says what values a decoder can return
at all.
-/

/-- A byte string. -/
abbrev Bytes := List UInt8

/-! ## Little-endian numbers -/

/-- The natural number a byte string denotes, least significant byte first. -/
def leNat : Bytes → ℕ
  | [] => 0
  | b :: bs => b.toNat + 256 * leNat bs

/-- The `w` low bytes of a number, least significant first. -/
def leBytes : ℕ → ℕ → Bytes
  | 0, _ => []
  | w + 1, n => UInt8.ofNat (n % 256) :: leBytes w (n / 256)

/-- A byte string of length `n` denotes a number below `256 ^ n`. -/
theorem leNat_lt (bs : Bytes) : leNat bs < 256 ^ bs.length := by
  induction bs with
  | nil => simp [leNat]
  | cons b bs ih =>
    have hb := b.toNat_lt
    rw [leNat, List.length_cons, pow_succ]
    omega

@[simp] theorem length_leBytes (w n : ℕ) : (leBytes w n).length = w := by
  induction w generalizing n with
  | zero => rfl
  | succ w ih => rw [leBytes, List.length_cons, ih]

/-- **A number that fits its width is read back.** -/
theorem leNat_leBytes {w n : ℕ} (h : n < 256 ^ w) : leNat (leBytes w n) = n := by
  induction w generalizing n with
  | zero =>
    rw [pow_zero, Nat.lt_one_iff] at h
    rw [h]
    rfl
  | succ w ih =>
    have hdiv : n / 256 < 256 ^ w := by
      rw [pow_succ] at h
      exact Nat.div_lt_of_lt_mul (by rw [mul_comm]; exact h)
    have hbyte : (UInt8.ofNat (n % 256)).toNat = n % 256 := by
      rw [UInt8.toNat_ofNat']
      omega
    rw [leBytes, leNat, ih hdiv, hbyte]
    omega

/-- A number that does not fit its width is only read back smaller. -/
theorem leNat_leBytes_le (w n : ℕ) : leNat (leBytes w n) ≤ n := by
  induction w generalizing n with
  | zero => exact Nat.zero_le n
  | succ w ih =>
    have htail := ih (n / 256)
    have hbyte : (UInt8.ofNat (n % 256)).toNat = n % 256 := by
      rw [UInt8.toNat_ofNat']
      omega
    rw [leBytes, leNat, hbyte]
    omega

/-- A byte string is the fixed-width image of the number it denotes. -/
theorem leBytes_leNat (bs : Bytes) : leBytes bs.length (leNat bs) = bs := by
  induction bs with
  | nil => rfl
  | cons b bs ih =>
    have hb := b.toNat_lt
    have hlow : (b.toNat + 256 * leNat bs) % 256 = b.toNat := by omega
    have hhigh : (b.toNat + 256 * leNat bs) / 256 = leNat bs := by omega
    rw [List.length_cons, leNat, leBytes, hlow, hhigh, ih, UInt8.ofNat_toNat]

/-- Bytes behind others are worth more. -/
theorem leNat_append (bs cs : Bytes) :
    leNat (bs ++ cs) = leNat bs + 256 ^ bs.length * leNat cs := by
  induction bs with
  | nil => simp [leNat]
  | cons b bs ih =>
    rw [List.cons_append, leNat, ih, leNat, List.length_cons, pow_succ]
    ring

/-- The first bytes of a number denote what is left of it. -/
theorem leNat_take_leBytes {w k : ℕ} (hk : k ≤ w) (n : ℕ) :
    leNat ((leBytes w n).take k) = n % 256 ^ k := by
  induction k generalizing w n with
  | zero => rw [List.take_zero, pow_zero, Nat.mod_one, leNat]
  | succ k ih =>
    obtain ⟨w, rfl⟩ := Nat.exists_eq_add_of_lt hk
    have hbyte : (UInt8.ofNat (n % 256)).toNat = n % 256 := by
      rw [UInt8.toNat_ofNat']
      omega
    rw [leBytes, List.take_succ_cons, leNat, hbyte, ih (Nat.le_add_right k w), pow_succ',
      Nat.mod_mul]

/-! ## Big-endian numbers -/

/-- The natural number a byte string denotes, most significant byte first. -/
def beNat (bs : Bytes) : ℕ := leNat bs.reverse

/-- The `w` low bytes of a number, most significant first. -/
def beBytes (w n : ℕ) : Bytes := (leBytes w n).reverse

@[simp] theorem length_beBytes (w n : ℕ) : (beBytes w n).length = w := by
  rw [beBytes, List.length_reverse, length_leBytes]

theorem beNat_beBytes {w n : ℕ} (h : n < 256 ^ w) : beNat (beBytes w n) = n := by
  rw [beNat, beBytes, List.reverse_reverse, leNat_leBytes h]

theorem beBytes_beNat (bs : Bytes) : beBytes bs.length (beNat bs) = bs := by
  rw [beBytes, beNat, ← List.length_reverse, leBytes_leNat, List.reverse_reverse]

/-! ## Decoders -/

/-- A decoder consumes a prefix of its input, or fails. -/
def Decoder (α : Type) := Bytes → Option (α × Bytes)

namespace Decoder

variable {α β : Type}

instance : Monad Decoder where
  pure a := fun s => some (a, s)
  bind d f := fun s =>
    match d s with
    | none => none
    | some (a, rest) => f a rest

/-- The decoder that rejects every input. -/
def fail : Decoder α := fun _ => none

/-- A counted loop: `n` values one after the other. -/
def replicate (d : Decoder α) : ℕ → Decoder (List α)
  | 0 => pure []
  | n + 1 => do
    let a ← d
    let as ← d.replicate n
    pure (a :: as)

/-- **`d` reads the bytes `bs` as `a`**: whatever follows them, it returns `a`
and leaves what follows. -/
def Reads (d : Decoder α) (bs : Bytes) (a : α) : Prop :=
  ∀ t, d (bs ++ t) = some (a, t)

/-- With nothing behind the bytes nothing is left. -/
theorem Reads.run {d : Decoder α} {bs : Bytes} {a : α} (h : d.Reads bs a) :
    d bs = some (a, []) := by
  have hrun := h []
  rwa [List.append_nil] at hrun

theorem reads_pure (a : α) : Reads (pure a) [] a := fun _ => rfl

/-- **Sequencing concatenates.** -/
theorem Reads.bind {d : Decoder α} {f : α → Decoder β} {bs cs : Bytes} {a : α} {b : β}
    (h₁ : d.Reads bs a) (h₂ : (f a).Reads cs b) : (d >>= f).Reads (bs ++ cs) b := by
  intro t
  show (match d (bs ++ cs ++ t) with
    | none => none
    | some (a, rest) => f a rest) = some (b, t)
  rw [List.append_assoc, h₁ (cs ++ t)]
  exact h₂ t

/-- A sequence whose first part has read goes on with what is left. -/
theorem Reads.bind_append {d : Decoder α} {bs : Bytes} {a : α} (h : d.Reads bs a)
    (f : α → Decoder β) (t : Bytes) : (d >>= f) (bs ++ t) = f a t := by
  show (match d (bs ++ t) with
    | none => none
    | some (a, rest) => f a rest) = f a t
  rw [h t]

/-- A decoder followed by a step that consumes nothing reads what the decoder
reads. -/
theorem Reads.bind_pure {d : Decoder α} {f : α → Decoder β} {bs : Bytes} {a : α} {b : β}
    (h₁ : d.Reads bs a) (h₂ : f a = pure b) : (d >>= f).Reads bs b := by
  have h := h₁.bind (show (f a).Reads [] b by rw [h₂]; exact reads_pure b)
  rwa [List.append_nil] at h

/-- **A counted loop reads the concatenation of what its iterations read.** -/
theorem Reads.replicate {d : Decoder α} {enc : α → Bytes} {as : List α}
    (h : ∀ a ∈ as, d.Reads (enc a) a) :
    (d.replicate as.length).Reads (as.flatMap enc) as := by
  induction as with
  | nil => exact reads_pure []
  | cons a as ih =>
    have htail := ih fun b hb => h b (List.mem_cons_of_mem a hb)
    rw [List.flatMap_cons]
    exact (h a List.mem_cons_self).bind (htail.bind_pure rfl)

/-- A sequence succeeds when both parts do, one on what the other leaves. -/
theorem bind_eq_some {d : Decoder α} {f : α → Decoder β} {s t : Bytes} {b : β} :
    (d >>= f) s = some (b, t) ↔ ∃ a u, d s = some (a, u) ∧ f a u = some (b, t) := by
  show (match d s with
    | none => none
    | some (a, rest) => f a rest) = some (b, t) ↔ _
  cases d s with
  | none => simp
  | some r =>
    obtain ⟨a, u⟩ := r
    simp

/-- A sequence fails with its first part. -/
theorem bind_eq_none {d : Decoder α} {s : Bytes} (h : d s = none) (f : α → Decoder β) :
    (d >>= f) s = none := by
  show (match d s with
    | none => none
    | some (a, rest) => f a rest) = none
  rw [h]

/-- A sequence goes on with what its first part returns. -/
theorem bind_of_eq_some {d : Decoder α} {s t : Bytes} {a : α} (h : d s = some (a, t))
    (f : α → Decoder β) : (d >>= f) s = f a t := by
  show (match d s with
    | none => none
    | some (a, rest) => f a rest) = f a t
  rw [h]

theorem pure_eq_some {s t : Bytes} {a b : α} :
    (pure a : Decoder α) s = some (b, t) ↔ a = b ∧ s = t := by
  show some (a, s) = some (b, t) ↔ _
  rw [Option.some.injEq, Prod.mk.injEq]

/-- **`d` does not look at what follows**: what it returns it also returns with
more bytes behind. -/
def Extends (d : Decoder α) : Prop :=
  ∀ ⦃s t : Bytes⦄ ⦃a : α⦄, d s = some (a, t) → ∀ u, d (s ++ u) = some (a, t ++ u)

theorem extends_pure (a : α) : (pure a : Decoder α).Extends := by
  intro s t b h u
  obtain ⟨rfl, rfl⟩ := pure_eq_some.mp h
  rfl

theorem extends_fail : (fail : Decoder α).Extends := fun _ _ _ h => nomatch h

/-- A sequence does not look at what follows when neither of its parts does. -/
theorem Extends.bind {d : Decoder α} {f : α → Decoder β} (h₁ : d.Extends)
    (h₂ : ∀ a, (f a).Extends) : (d >>= f).Extends := by
  intro s t b h u
  obtain ⟨a, v, hd, hf⟩ := bind_eq_some.mp h
  exact bind_eq_some.mpr ⟨a, v ++ u, h₁ hd u, h₂ a hf u⟩

/-- A counted loop does not look at what follows when its body does not. -/
theorem Extends.replicate {d : Decoder α} (h : d.Extends) : ∀ n, (d.replicate n).Extends
  | 0 => extends_pure []
  | n + 1 => h.bind fun a => (h.replicate n).bind fun as => extends_pure (a :: as)

/-- **`d` stops at the end of its input**: it does not look at what follows, unless
it has come to the end. -/
def Clamps (d : Decoder α) : Prop :=
  ∀ ⦃s t : Bytes⦄ ⦃a : α⦄, d s = some (a, t) → t = [] ∨ ∀ u, d (s ++ u) = some (a, t ++ u)

theorem Clamps.bind_pure {d : Decoder α} (h : d.Clamps) (f : α → β) :
    (d >>= fun a => pure (f a)).Clamps := by
  intro s t b hb
  obtain ⟨a, u, hd, hp⟩ := bind_eq_some.mp hb
  obtain ⟨rfl, rfl⟩ := pure_eq_some.mp hp
  exact (h hd).imp id fun hd' v => bind_eq_some.mpr ⟨a, u ++ v, hd' v, rfl⟩

/-- **A decoder that stops at the end is made good** by one behind it that finds
nothing there. -/
theorem Clamps.bind {d : Decoder α} {f : α → Decoder β} (h₁ : d.Clamps)
    (h₂ : ∀ a, (f a).Extends) (hend : ∀ a, f a [] = none) : (d >>= f).Extends := by
  intro s t b h u
  obtain ⟨a, v, hd, hf⟩ := bind_eq_some.mp h
  rcases h₁ hd with rfl | hd'
  · rw [hend a] at hf
    cases hf
  · exact bind_eq_some.mpr ⟨a, v ++ u, hd' u, h₂ a hf u⟩

/-- **`d` refuses what has been cut off**: it accepts no proper prefix of `bs`. -/
def RefusesCuts (d : Decoder α) (bs : Bytes) : Prop :=
  ∀ p, p <+: bs → p ≠ bs → d p = none

/-- **What is read to its end is not read from less.** A decoder that accepted a
prefix would return the same with the rest behind it, and leave the rest. -/
theorem Extends.refusesCuts {d : Decoder α} (h : d.Extends) {bs : Bytes} {a : α}
    (hd : d bs = some (a, [])) : d.RefusesCuts bs := by
  rintro p ⟨u, rfl⟩ hne
  rw [Option.eq_none_iff_forall_ne_some]
  rintro ⟨b, t⟩ hp
  have hmore := h hp u
  rw [hd, Option.some.injEq, Prod.mk.injEq] at hmore
  have hu : u = [] := (List.append_eq_nil_iff.mp hmore.2.symm).2
  rw [hu, List.append_nil] at hne
  exact hne rfl

/-- **`d` returns only what `enc` writes**: what it has consumed is the encoding
of the value it returns. -/
def Exact (d : Decoder α) (enc : α → Bytes) : Prop :=
  ∀ ⦃s t : Bytes⦄ ⦃a : α⦄, d s = some (a, t) → s = enc a ++ t

/-- A decoder that is followed by a conversion is exact for the converted
values, if converting does not change the encoding. -/
theorem Exact.bind_pure {d : Decoder α} {f : α → β} {enc : α → Bytes} {enc' : β → Bytes}
    (h : d.Exact enc) (henc : ∀ a, enc' (f a) = enc a) :
    (d >>= fun a => pure (f a)).Exact enc' := by
  intro s t b hb
  obtain ⟨a, u, hd, hp⟩ := bind_eq_some.mp hb
  obtain ⟨rfl, rfl⟩ := pure_eq_some.mp hp
  rw [henc a]
  exact h hd

/-- **A counted loop consumes the encodings of what it returns.** -/
theorem Exact.replicate {d : Decoder α} {enc : α → Bytes} (h : d.Exact enc) :
    ∀ {n : ℕ} {s t : Bytes} {as : List α}, d.replicate n s = some (as, t) →
      as.length = n ∧ s = as.flatMap enc ++ t
  | 0, s, t, as, has => by
    obtain ⟨rfl, rfl⟩ := pure_eq_some.mp has
    exact ⟨rfl, rfl⟩
  | n + 1, s, t, as, has => by
    obtain ⟨a, u, hd, hrest⟩ := bind_eq_some.mp has
    obtain ⟨as', v, hloop, hp⟩ := bind_eq_some.mp hrest
    obtain ⟨rfl, rfl⟩ := pure_eq_some.mp hp
    obtain ⟨hlen, htail⟩ := h.replicate hloop
    refine ⟨congrArg (· + 1) hlen, ?_⟩
    rw [List.flatMap_cons, List.append_assoc, ← htail]
    exact h hd

/-- **`d` returns only values that satisfy `P`.** -/
def Ensures (d : Decoder α) (P : α → Prop) : Prop :=
  ∀ ⦃s t : Bytes⦄ ⦃a : α⦄, d s = some (a, t) → P a

theorem Ensures.bind {d : Decoder α} {f : α → Decoder β} {P : α → Prop} {Q : β → Prop}
    (h₁ : d.Ensures P) (h₂ : ∀ a, P a → (f a).Ensures Q) : (d >>= f).Ensures Q := by
  intro s t b h
  obtain ⟨a, u, hd, hf⟩ := bind_eq_some.mp h
  exact h₂ a (h₁ hd) hf

theorem ensures_pure {P : α → Prop} {a : α} (h : P a) : (pure a : Decoder α).Ensures P := by
  intro s t b hb
  obtain ⟨rfl, rfl⟩ := pure_eq_some.mp hb
  exact h

/-- **A counted loop returns as many values as it counts**, each of which its
body can return. -/
theorem Ensures.replicate {d : Decoder α} {P : α → Prop} (h : d.Ensures P) (n : ℕ) :
    (d.replicate n).Ensures fun as => as.length = n ∧ ∀ a ∈ as, P a := by
  induction n with
  | zero => exact ensures_pure ⟨rfl, fun a ha => nomatch ha⟩
  | succ n ih =>
    refine h.bind fun a ha => ih.bind fun as has => ensures_pure ?_
    refine ⟨congrArg (· + 1) has.1, fun b hb => ?_⟩
    cases hb with
    | head => exact ha
    | tail _ hb => exact has.2 b hb

end Decoder
