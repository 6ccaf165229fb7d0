import Deltabase.Misc.MemoryStream

/-!
# Reading from a buffer

`misc::ReadOnlyMemoryStream` as it is: a buffer and a position in it. The
arithmetic of `read` is that of 64-bit numbers and what it copies is copied by
`memcpy`, which does not look at the size of the buffer: here a copy from
behind the end is a fault (`memcpy`).

`Implements p d` says that `p`, which works on the buffer, never faults and
does what the decoder `d` does with the bytes from the position on.
-/

/-- `misc::ReadOnlyMemoryStream`. -/
structure ReadOnlyMemoryStream where
  buffer : Bytes
  position : ℕ := 0

/-- How a read fails. -/
inductive ReadError where
  /-- The call returns `false`. -/
  | refused
  /-- Memory behind the end of the buffer is read. -/
  | fault
  deriving DecidableEq

/-- A call that reads from a stream. -/
abbrev StreamReader (α : Type) := EStateM ReadError ReadOnlyMemoryStream α

namespace ReadOnlyMemoryStream

/-- `PTRDIFF_MAX`, the size that a `std::vector<uint8_t>` does not exceed. -/
def maxSize : ℕ := 2 ^ 63 - 1

/-- A stream on a buffer that a vector can hold, with its position in it. -/
def Valid (s : ReadOnlyMemoryStream) : Prop :=
  s.buffer.length ≤ maxSize ∧ s.position ≤ s.buffer.length

/-- What is left to read. -/
def rest (s : ReadOnlyMemoryStream) : Bytes := s.buffer.drop s.position

/-- `std::memcpy` of `count` bytes from an offset of a buffer. -/
def memcpy (buffer : Bytes) (offset count : ℕ) : Except ReadError Bytes :=
  if offset + count ≤ buffer.length then .ok ((buffer.drop offset).take count) else .error .fault

/-- `read(dest, count)`: how many bytes were copied and what the destination
holds afterwards. -/
def readInto (dest : Bytes) : StreamReader (ℕ × Bytes) := fun s =>
  let count :=
    if s.buffer.length < (s.position + dest.length) % 2 ^ 64
    then (s.buffer.length + 2 ^ 64 - s.position) % 2 ^ 64
    else dest.length
  match memcpy s.buffer s.position count with
  | .error e => .error e s
  | .ok bs =>
    .ok (count, bs ++ dest.drop count) { s with position := (s.position + count) % 2 ^ 64 }

/-- `remaining`. -/
def remaining (s : ReadOnlyMemoryStream) : ℕ :=
  (s.buffer.length + 2 ^ 64 - s.position) % 2 ^ 64

/-- `read_exact`, on success with what the destination holds. -/
def tryReadExact (dest : Bytes) : StreamReader Bytes := do
  let r ← readInto dest
  if r.1 = dest.length then pure r.2 else throw .refused

/-- The part of `read_bytes` that follows the length. -/
def tryReadSized (size remaining : ℕ) : StreamReader Bytes :=
  if size > remaining then throw .refused
  else if size = 0 then pure []
  else tryReadExact (List.replicate size 0)

/-- `read_bytes(out, big_endian = true)`, and `read_string` likewise. -/
def tryReadBytes : StreamReader Bytes := do
  let sizeBe ← tryReadExact (List.replicate 8 0)
  let s ← get
  tryReadSized (beNat sizeBe) s.remaining

/-! ## Readers and decoders -/

variable {α β : Type}

/-- How a reader and a decoder end alike. -/
def Agree : EStateM.Result ReadError ReadOnlyMemoryStream α → Option (α × Bytes) → Prop
  | .ok a s, r => s.Valid ∧ r = some (a, s.rest)
  | .error .refused _, r => r = none
  | .error .fault _, _ => False

/-- **`p` implements `d`**: it never faults, and it succeeds when `d` does on
what is left to read, with the same value and at the same place. -/
def Implements (p : StreamReader α) (d : Decoder α) : Prop :=
  ∀ s : ReadOnlyMemoryStream, s.Valid → Agree (p s) (d s.rest)

/-- `get` passes the stream on. -/
theorem get_bind (f : ReadOnlyMemoryStream → StreamReader α) (s : ReadOnlyMemoryStream) :
    (get >>= f) s = f s s := rfl

theorem implements_pure (a : α) : Implements (pure a) (pure a) :=
  fun _ hs => ⟨hs, rfl⟩

theorem implements_refused : Implements (throw .refused : StreamReader α) Decoder.fail :=
  fun _ _ => rfl

/-- **Sequences implement sequences.** -/
theorem Implements.bind {p : StreamReader α} {d : Decoder α} {f : α → StreamReader β}
    {g : α → Decoder β} (h₁ : Implements p d) (h₂ : ∀ a, Implements (f a) (g a)) :
    Implements (p >>= f) (d >>= g) := by
  intro s hs
  have hagree := h₁ s hs
  show Agree (EStateM.bind p f s) ((d >>= g) s.rest)
  unfold EStateM.bind
  cases hp : p s with
  | ok a s₁ =>
    rw [hp] at hagree
    obtain ⟨hs₁, hd⟩ := hagree
    rw [Decoder.bind_of_eq_some hd]
    exact h₂ a s₁ hs₁
  | error e s₁ =>
    rw [hp] at hagree
    cases e with
    | refused =>
      have hd : d s.rest = none := hagree
      rw [Decoder.bind_eq_none hd]
      rfl
    | fault => exact hagree.elim

/-- A read inside the buffer is one of what is left. -/
theorem readInto_of_le {dest : Bytes} {s : ReadOnlyMemoryStream} (hs : s.Valid)
    (hdest : dest.length ≤ maxSize) :
    readInto dest s
      = .ok (min dest.length s.rest.length,
          s.rest.take (min dest.length s.rest.length)
            ++ dest.drop (min dest.length s.rest.length))
        { s with position := s.position + min dest.length s.rest.length } := by
  obtain ⟨hbuffer, hpos⟩ := hs
  have hrest : s.rest.length = s.buffer.length - s.position := List.length_drop
  have hmax : maxSize = 2 ^ 63 - 1 := rfl
  have hmod : (s.position + dest.length) % 2 ^ 64 = s.position + dest.length :=
    Nat.mod_eq_of_lt (by omega)
  have hleft : (s.buffer.length + 2 ^ 64 - s.position) % 2 ^ 64 = s.buffer.length - s.position := by
    omega
  have hcount : (if s.buffer.length < (s.position + dest.length) % 2 ^ 64
      then (s.buffer.length + 2 ^ 64 - s.position) % 2 ^ 64 else dest.length)
      = min dest.length s.rest.length := by
    rw [hmod, hleft, hrest]
    split <;> omega
  unfold readInto
  simp only [hcount]
  generalize hn : min dest.length s.rest.length = n
  have hle : s.position + n ≤ s.buffer.length := by omega
  have hpos' : (s.position + n) % 2 ^ 64 = s.position + n := Nat.mod_eq_of_lt (by omega)
  rw [memcpy, if_pos hle, hpos']
  rfl

/-- A checked read of more than is left fails. -/
theorem readExact_eq_none {dest s : Bytes} (h : s.length < dest.length) :
    readExact dest s = none := by
  cases hx : readExact dest s with
  | none => rfl
  | some x =>
    obtain ⟨hlen, hs⟩ := readExact_eq_some hx
    have hlength := congrArg List.length hs
    rw [List.length_append] at hlength
    omega

/-- **`read_exact` implements a checked read.** -/
theorem implements_tryReadExact {dest : Bytes} (hdest : dest.length ≤ maxSize) :
    Implements (tryReadExact dest) (readExact dest) := by
  intro s hs
  have hread := readInto_of_le hs hdest
  obtain ⟨hbuffer, hpos⟩ := hs
  have hrest : s.rest.length = s.buffer.length - s.position := List.length_drop
  show Agree (EStateM.bind (readInto dest) _ s) _
  unfold EStateM.bind
  rw [hread]
  by_cases hlen : dest.length ≤ s.rest.length
  · rw [Nat.min_eq_left hlen, List.drop_length, List.append_nil]
    show Agree ((if dest.length = dest.length then pure _ else _ : StreamReader Bytes) _) _
    rw [if_pos rfl]
    refine ⟨⟨hbuffer, ?_⟩, ?_⟩
    · show s.position + dest.length ≤ s.buffer.length
      omega
    · have hread : (readExact dest).Reads (s.rest.take dest.length) (s.rest.take dest.length) :=
        reads_readExact (by rw [List.length_take, Nat.min_eq_left hlen])
      have h := hread (s.rest.drop dest.length)
      rw [List.take_append_drop] at h
      rw [h]
      exact congrArg (fun left => some (_, left)) (List.drop_drop ..)
  · rw [Nat.min_eq_right (by omega)]
    show Agree
      ((if s.rest.length = dest.length then _ else throw .refused : StreamReader Bytes) _) _
    rw [if_neg (by omega)]
    exact readExact_eq_none (by omega)

theorem remaining_eq {s : ReadOnlyMemoryStream} (hs : s.Valid) : s.remaining = s.rest.length := by
  obtain ⟨hbuffer, hpos⟩ := hs
  have hrest : s.rest.length = s.buffer.length - s.position := List.length_drop
  have hmax : maxSize = 2 ^ 63 - 1 := rfl
  unfold remaining
  omega

/-- A length-prefixed byte string. -/
def readBytes : Decoder Bytes := do
  let sizeBe ← readExact (List.replicate 8 0)
  readExact (List.replicate (beNat sizeBe) 0)

/-- **`read_bytes` implements the reading of a length-prefixed string.** A
length that exceeds what is left is refused before anything is read. -/
theorem implements_tryReadBytes : Implements tryReadBytes readBytes := by
  have height : (List.replicate 8 0 : Bytes).length ≤ maxSize := by
    rw [List.length_replicate, maxSize]
    omega
  refine Implements.bind (implements_tryReadExact height) fun sizeBe => ?_
  intro s hs
  rw [get_bind, remaining_eq hs, tryReadSized]
  by_cases hsize : beNat sizeBe > s.rest.length
  · rw [if_pos hsize]
    exact readExact_eq_none (by rwa [List.length_replicate])
  · rw [if_neg hsize]
    by_cases hzero : beNat sizeBe = 0
    · rw [if_pos hzero, hzero]
      have hread : (readExact []).Reads [] [] := reads_readExact rfl
      exact ⟨hs, hread s.rest⟩
    · rw [if_neg hzero]
      refine implements_tryReadExact ?_ s hs
      have hrest : s.rest.length ≤ s.buffer.length := by
        rw [rest, List.length_drop]
        exact Nat.sub_le _ _
      rw [List.length_replicate]
      exact (Nat.le_of_not_lt hsize).trans (hrest.trans hs.1)

/-- The bytes of a length-prefixed string. -/
def prefixedBytes (bs : Bytes) : Bytes := beBytes 8 bs.length ++ bs

theorem reads_readBytes {bs : Bytes} (h : bs.length < 256 ^ 8) :
    readBytes.Reads (prefixedBytes bs) bs := by
  refine (reads_readExact (by simp)).bind ?_
  rw [beNat_beBytes h]
  exact reads_readExact (by simp)

/-- A length-prefixed string is written as the bytes it has been read from. -/
theorem exact_readBytes : readBytes.Exact prefixedBytes := by
  intro s t bs h
  obtain ⟨sizeBe, u, hsize, hread⟩ := Decoder.bind_eq_some.mp h
  obtain ⟨hwidth, hs⟩ := readExact_eq_some hsize
  obtain ⟨hlen, hu⟩ := readExact_eq_some hread
  rw [List.length_replicate] at hwidth hlen
  rw [prefixedBytes, hlen, ← hwidth, beBytes_beNat, List.append_assoc, ← hu]
  exact hs

end ReadOnlyMemoryStream
