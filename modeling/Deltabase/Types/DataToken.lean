import Deltabase.Lib.Codec
import Mathlib.Data.List.Lex
import Mathlib.Data.Prod.Lex

/-!
# Data tokens and their comparison

A `DataToken` is one value of a row: a data type and the raw bytes of the
value. Every comparison in the engine – the `WHERE` of an index scan, the
uniqueness check, the descent of a B+ tree – goes through `operator==` and
`operator<` on tokens, which read the bytes at the C++ type the data type
names.

The bytes are read the way the machine reads them: little-endian `int` in
two's complement, `char` signed, `bool` as non-zero, `std::string` by
unsigned bytes, and `double` by the IEEE 754 order, which on bit patterns is
the order of signed magnitudes with the NaNs left out.

The result the rest of the development uses is `DataToken.lt_iff_rank` with
`DataToken.eq_iff_rank`: on well-formed tokens both comparisons are those of
one linear order, the order of `DataToken.rank`.
-/

/-- `types::DataType`, an `enum class : uint64_t`. The last constructor holds
the values of the underlying type that no enumerator names, which a cast or a
read from a file can produce. -/
inductive DataType where
  | undefined
  | null
  | integer
  | real
  | char
  | bool
  | string
  | other (raw : ℕ) (h : 6 < raw)
  deriving DecidableEq

namespace DataType

/-- The underlying integer of a data type. -/
def toNat : DataType → ℕ
  | undefined => 0
  | null => 1
  | integer => 2
  | real => 3
  | char => 4
  | bool => 5
  | string => 6
  | other raw _ => raw

/-- The data type with a given underlying integer. -/
def ofNat (n : ℕ) : DataType :=
  match n with
  | 0 => undefined
  | 1 => null
  | 2 => integer
  | 3 => real
  | 4 => char
  | 5 => bool
  | 6 => string
  | k + 7 => other (k + 7) (by omega)

/-- A data type is determined by its underlying integer. -/
@[simp] theorem ofNat_toNat (t : DataType) : ofNat t.toNat = t := by
  cases t with
  | other raw h =>
    obtain ⟨k, rfl⟩ : ∃ k, raw = k + 7 := ⟨raw - 7, by omega⟩
    rfl
  | _ => rfl

/-- Every underlying integer is the one of some data type. -/
@[simp] theorem toNat_ofNat (n : ℕ) : (ofNat n).toNat = n := by
  unfold ofNat
  split <;> rfl

theorem toNat_injective : Function.Injective toNat :=
  Function.LeftInverse.injective ofNat_toNat

end DataType

/-! ## Reading bytes as machine values -/

/-- `memcpy` of four bytes into an `int`. -/
def asInt (bs : Bytes) : ℤ :=
  let n := leNat (bs.take 4)
  if n < 2 ^ 31 then n else n - 2 ^ 32

/-- The first byte read as a `char`, which is signed on the target. -/
def asChar (bs : Bytes) : ℤ :=
  let n := leNat (bs.take 1)
  if n < 128 then n else n - 256

/-- The first byte read as a `bool`. -/
def asBool (bs : Bytes) : Bool := leNat (bs.take 1) != 0

/-- The bit pattern of a `double`. -/
def asDoubleBits (bs : Bytes) : ℕ := leNat (bs.take 8)

/-- Whether a bit pattern is a NaN: exponent all ones, mantissa non-zero. -/
def isNaN (bits : ℕ) : Bool := decide (0x7FF0000000000000 < bits % 2 ^ 63)

/-- The signed magnitude of a bit pattern. IEEE 754 orders the patterns that
are not NaNs by it, and gives both zeros the magnitude `0`. -/
def doubleKey (bits : ℕ) : ℤ :=
  if bits / 2 ^ 63 % 2 = 0 then (bits % 2 ^ 63 : ℕ) else -((bits % 2 ^ 63 : ℕ) : ℤ)

/-- `operator==` of `double`. -/
def doubleEq (a b : ℕ) : Bool := !isNaN a && !isNaN b && decide (doubleKey a = doubleKey b)

/-- `operator<` of `double`. -/
def doubleLt (a b : ℕ) : Bool := !isNaN a && !isNaN b && decide (doubleKey a < doubleKey b)

/-- Lexicographic `operator<` of byte sequences, as `std::string` (whose
`char_traits` compare bytes unsigned) and `std::vector<uint8_t>` have it. -/
def bytesLt : Bytes → Bytes → Bool
  | [], [] => false
  | [], _ :: _ => true
  | _ :: _, [] => false
  | a :: as, b :: bs => if a < b then true else if b < a then false else bytesLt as bs

/-! ## Tokens -/

/-- `types::DataToken`. -/
structure DataToken where
  /-- The raw bytes of the value. -/
  bytes : Bytes
  /-- The data type the bytes are read at. -/
  type : DataType
  deriving DecidableEq

namespace DataToken

/-- `operator==`. Tokens of different types are different; a type with no
comparison of its own compares bytes. -/
def eq (lhs rhs : DataToken) : Bool :=
  if lhs.type ≠ rhs.type then false
  else match lhs.type with
    | .null => true
    | .integer => decide (asInt lhs.bytes = asInt rhs.bytes)
    | .real => doubleEq (asDoubleBits lhs.bytes) (asDoubleBits rhs.bytes)
    | .char => decide (asChar lhs.bytes = asChar rhs.bytes)
    | .bool => asBool lhs.bytes == asBool rhs.bytes
    | .string => decide (lhs.bytes = rhs.bytes)
    | _ => decide (lhs.bytes = rhs.bytes)

/-- `operator<`. Tokens of different types are ordered by the type; `NULL` has
no case of its own and compares bytes. -/
def lt (lhs rhs : DataToken) : Bool :=
  if lhs.type ≠ rhs.type then decide (lhs.type.toNat < rhs.type.toNat)
  else match lhs.type with
    | .integer => decide (asInt lhs.bytes < asInt rhs.bytes)
    | .real => doubleLt (asDoubleBits lhs.bytes) (asDoubleBits rhs.bytes)
    | .char => decide (asChar lhs.bytes < asChar rhs.bytes)
    | .bool => !asBool lhs.bytes && asBool rhs.bytes
    | .string => bytesLt lhs.bytes rhs.bytes
    | _ => bytesLt lhs.bytes rhs.bytes

/-- `IndexBPlusTree::compare_token`. -/
def compareToken (a b : DataToken) : ℤ :=
  if a.eq b then 0 else if a.lt b then -1 else 1

/-- **A well-formed token**: the bytes have the width of the type, a `NULL`
carries none, and a `REAL` is not a NaN. -/
def WellFormed (t : DataToken) : Prop :=
  match t.type with
  | .null => t.bytes = []
  | .integer => t.bytes.length = 4
  | .real => t.bytes.length = 8 ∧ isNaN (asDoubleBits t.bytes) = false
  | .char => t.bytes.length = 1
  | .bool => t.bytes.length = 1
  | _ => True

instance : DecidablePred WellFormed := fun t => by
  unfold WellFormed
  cases t.type <;> infer_instance

/-- **A token with a place in the order**: a `NULL` carries no bytes, and a `REAL` is
not a NaN. -/
def Ranked (t : DataToken) : Prop :=
  match t.type with
  | .null => t.bytes = []
  | .real => isNaN (asDoubleBits t.bytes) = false
  | _ => True

theorem WellFormed.ranked {t : DataToken} (h : t.WellFormed) : t.Ranked := by
  unfold WellFormed at h
  unfold Ranked
  cases htype : t.type <;> simp_all

/-! ## The order the comparisons compute -/

/-- The value a token is compared by within its type. -/
def payload (t : DataToken) : List ℤ :=
  match t.type with
  | .null => []
  | .integer => [asInt t.bytes]
  | .real => [doubleKey (asDoubleBits t.bytes)]
  | .char => [asChar t.bytes]
  | .bool => [if asBool t.bytes then 1 else 0]
  | _ => t.bytes.map (fun b => (b.toNat : ℤ))

/-- **The rank of a token**: its type, then its value within the type. -/
def rank (t : DataToken) : ℕ ×ₗ List ℤ := toLex (t.type.toNat, t.payload)

end DataToken

theorem toNat_map_injective :
    Function.Injective (List.map (fun b : UInt8 => (b.toNat : ℤ))) :=
  List.map_injective_iff.mpr fun a b h => by
    have h' : (a.toNat : ℤ) = b.toNat := h
    exact UInt8.toNat_inj.mp (by exact_mod_cast h')

/-- The byte order is the lexicographic order of the byte values. -/
theorem bytesLt_iff (a b : Bytes) :
    bytesLt a b = true
      ↔ a.map (fun b => (b.toNat : ℤ)) < b.map (fun b => (b.toNat : ℤ)) := by
  induction a generalizing b with
  | nil =>
    cases b with
    | nil => simp [bytesLt]
    | cons b bs => simp [bytesLt]
  | cons a as ih =>
    cases b with
    | nil => simp [bytesLt]
    | cons b bs =>
      rw [bytesLt, List.map_cons, List.map_cons, List.cons_lt_cons_iff]
      have hcast : ∀ x y : UInt8, ((x.toNat : ℤ) < y.toNat) ↔ x < y := fun x y => by
        rw [UInt8.lt_iff_toNat_lt]; exact_mod_cast Iff.rfl
      rw [hcast]
      by_cases h₁ : a < b
      · simp [h₁]
      · by_cases h₂ : b < a
        · have hne : (a.toNat : ℤ) ≠ b.toNat := by
            have := (hcast b a).mpr h₂
            omega
          simp [h₁, h₂, hne]
        · have heq : (a.toNat : ℤ) = b.toNat := by
            have h₃ := mt (hcast a b).mp h₁
            have h₄ := mt (hcast b a).mp h₂
            omega
          simp only [h₁, h₂, if_false, false_or, heq, true_and]
          exact ih bs

namespace DataToken

/-- Two lists of one element compare as their elements. -/
theorem singleton_lt_singleton (x y : ℤ) : ([x] : List ℤ) < [y] ↔ x < y := by
  rw [List.cons_lt_cons_iff]
  simp

/-- **Equality is equality of ranks.** -/
theorem eq_iff_rank_of_ranked {a b : DataToken} (ha : a.Ranked) (hb : b.Ranked) :
    a.eq b = true ↔ a.rank = b.rank := by
  obtain ⟨ab, at'⟩ := a
  obtain ⟨bb, bt⟩ := b
  have hsplit : rank ⟨ab, at'⟩ = rank ⟨bb, bt⟩
      ↔ at' = bt ∧ payload ⟨ab, at'⟩ = payload ⟨bb, bt⟩ := by
    unfold rank
    rw [toLex_inj, Prod.mk.injEq, DataType.toNat_injective.eq_iff]
  rw [hsplit]
  by_cases h : at' = bt
  · subst h
    cases at' with
    | null => simp [eq, payload]
    | integer => simp [eq, payload]
    | real =>
      have na : isNaN (asDoubleBits ab) = false := ha
      have nb : isNaN (asDoubleBits bb) = false := hb
      simp [eq, payload, doubleEq, na, nb]
    | char => simp [eq, payload]
    | bool => cases h₁ : asBool ab <;> cases h₂ : asBool bb <;> simp [eq, payload, h₁, h₂]
    | undefined => simp [eq, payload, toNat_map_injective.eq_iff]
    | string => simp [eq, payload, toNat_map_injective.eq_iff]
    | other raw hr => simp [eq, payload, toNat_map_injective.eq_iff]
  · simp [eq, h]

/-- **The order is the order of ranks.** -/
theorem lt_iff_rank_of_ranked {a b : DataToken} (ha : a.Ranked) (hb : b.Ranked) :
    a.lt b = true ↔ a.rank < b.rank := by
  obtain ⟨ab, at'⟩ := a
  obtain ⟨bb, bt⟩ := b
  have hsplit : rank ⟨ab, at'⟩ < rank ⟨bb, bt⟩
      ↔ at'.toNat < bt.toNat
        ∨ at' = bt ∧ payload ⟨ab, at'⟩ < payload ⟨bb, bt⟩ := by
    unfold rank
    rw [Prod.Lex.toLex_lt_toLex, DataType.toNat_injective.eq_iff]
  rw [hsplit]
  by_cases h : at' = bt
  · subst h
    cases at' with
    | null =>
      have ea : ab = [] := ha
      have eb : bb = [] := hb
      simp [lt, payload, ea, eb, bytesLt]
    | integer => simp [lt, payload, singleton_lt_singleton]
    | real =>
      have na : isNaN (asDoubleBits ab) = false := ha
      have nb : isNaN (asDoubleBits bb) = false := hb
      simp [lt, payload, doubleLt, na, nb, singleton_lt_singleton]
    | char => simp [lt, payload, singleton_lt_singleton]
    | bool =>
      cases h₁ : asBool ab <;> cases h₂ : asBool bb <;>
        simp [lt, payload, h₁, h₂, singleton_lt_singleton]
    | undefined => simp [lt, payload, bytesLt_iff]
    | string => simp [lt, payload, bytesLt_iff]
    | other raw hr => simp [lt, payload, bytesLt_iff]
  · simp [lt, h]

theorem eq_iff_rank {a b : DataToken} (ha : a.WellFormed) (hb : b.WellFormed) :
    a.eq b = true ↔ a.rank = b.rank := eq_iff_rank_of_ranked ha.ranked hb.ranked

theorem lt_iff_rank {a b : DataToken} (ha : a.WellFormed) (hb : b.WellFormed) :
    a.lt b = true ↔ a.rank < b.rank := lt_iff_rank_of_ranked ha.ranked hb.ranked

/-- `compare_token` is zero exactly on equal ranks. -/
theorem compareToken_eq_zero_iff {a b : DataToken} (ha : a.WellFormed)
    (hb : b.WellFormed) : compareToken a b = 0 ↔ a.rank = b.rank := by
  rw [← eq_iff_rank ha hb]
  unfold compareToken
  split <;> simp_all
  split <;> decide

/-- `compare_token` is negative exactly on increasing ranks. -/
theorem compareToken_neg_iff {a b : DataToken} (ha : a.WellFormed)
    (hb : b.WellFormed) : compareToken a b < 0 ↔ a.rank < b.rank := by
  unfold compareToken
  by_cases he : a.eq b = true
  · have := (eq_iff_rank ha hb).mp he
    simp [he, this]
  · by_cases hl : a.lt b = true
    · simp [he, hl, (lt_iff_rank ha hb).mp hl]
    · have := mt (lt_iff_rank ha hb).mpr hl
      simp [he, hl, this]

/-- `compare_token` is not positive exactly on non-decreasing ranks. -/
theorem compareToken_nonpos_iff {a b : DataToken} (ha : a.WellFormed)
    (hb : b.WellFormed) : compareToken a b ≤ 0 ↔ a.rank ≤ b.rank := by
  rw [le_iff_lt_or_eq, le_iff_lt_or_eq, compareToken_neg_iff ha hb,
    compareToken_eq_zero_iff ha hb]

end DataToken
