import Deltabase.Lib.Codec

/-!
# Memory streams

`misc::MemoryStream` is written by the serializers and
`misc::ReadOnlyMemoryStream` is read by the deserializers.

A write goes to the current position and grows the buffer when it passes the
end. The serializers only ever write at the end, and there a write is an
append (`MemoryStream.write_atEnd`).

A read copies as many bytes as are left, up to the width of the destination,
and returns how many it copied; what the destination held stays behind the
copied bytes. The callers differ in what they make of the count: some insist
on the full width (`readExact`), some only that it is not zero (`readSome`),
some do not look (`readAny`). A stream is given by the bytes from its position
on.
-/

/-- `misc::MemoryStream`. -/
structure MemoryStream where
  buffer : Bytes := []
  position : ℕ := 0
  deriving DecidableEq

namespace MemoryStream

/-- `write`. -/
def write (s : MemoryStream) (src : Bytes) : MemoryStream :=
  let grown := s.buffer ++ List.replicate (s.position + src.length - s.buffer.length) 0
  { buffer := grown.take s.position ++ src ++ grown.drop (s.position + src.length)
    position := s.position + src.length }

/-- `append`. -/
def append (s other : MemoryStream) (count : ℕ) : MemoryStream :=
  let n := min count other.buffer.length
  { buffer := s.buffer ++ other.buffer.take n
    position := s.position + n }

/-- `size`. -/
def size (s : MemoryStream) : ℕ := s.buffer.length

/-- `seek`; the serializers only seek to the start, which never throws. -/
def seek (s : MemoryStream) (pos : ℕ) : MemoryStream := { s with position := pos }

/-- A stream positioned at its end. -/
def atEnd (bs : Bytes) : MemoryStream := ⟨bs, bs.length⟩

/-- **A write at the end is an append.** -/
@[simp] theorem write_atEnd (bs src : Bytes) : (atEnd bs).write src = atEnd (bs ++ src) := by
  unfold write atEnd
  have hgrow : bs.length + src.length - bs.length = src.length := Nat.add_sub_cancel_left _ _
  have hdrop : (bs ++ List.replicate src.length 0).drop (bs.length + src.length)
      = ([] : Bytes) := by
    rw [List.drop_eq_nil_iff, List.length_append, List.length_replicate]
  simp only [hgrow, List.take_left, hdrop, List.append_nil, List.length_append]

/-- Appending a whole stream appends its bytes. -/
@[simp] theorem append_atEnd (bs : Bytes) (other : MemoryStream) :
    (atEnd bs).append other other.size = atEnd (bs ++ other.buffer) := by
  unfold append atEnd size
  simp only [min_self, List.take_length, List.length_append]

/-- A new stream is at its end. -/
theorem empty_eq_atEnd : ({} : MemoryStream) = atEnd [] := rfl

/-- `write_u64(value, big_endian = true)`: the bytes are swapped and written in
the order of the machine, which is little-endian. -/
def writeU64 (s : MemoryStream) (value : ℕ) : MemoryStream := s.write (beBytes 8 value)

/-- `write_bytes(bytes, big_endian = true)`, and `write_string` likewise. -/
def writeBytes (s : MemoryStream) (bytes : Bytes) : MemoryStream :=
  let s := s.write (beBytes 8 bytes.length)
  if bytes ≠ [] then s.write bytes else s

@[simp] theorem writeU64_atEnd (bs : Bytes) (value : ℕ) :
    (atEnd bs).writeU64 value = atEnd (bs ++ beBytes 8 value) := write_atEnd _ _

/-- A length-prefixed string is appended with its length. -/
@[simp] theorem writeBytes_atEnd (bs bytes : Bytes) :
    (atEnd bs).writeBytes bytes = atEnd (bs ++ (beBytes 8 bytes.length ++ bytes)) := by
  unfold writeBytes
  by_cases h : bytes = []
  · simp only [h, ne_eq, not_true_eq_false, if_false, write_atEnd, List.append_nil]
  · simp only [h, ne_eq, not_false_eq_true, if_true, write_atEnd, List.append_assoc]

@[simp] theorem buffer_atEnd (bs : Bytes) : (atEnd bs).buffer = bs := rfl

@[simp] theorem buffer_seek (s : MemoryStream) (pos : ℕ) : (s.seek pos).buffer = s.buffer := rfl

end MemoryStream

namespace ReadOnlyMemoryStream

/-- `read(dest, count)`: how many bytes were copied and what the destination
holds afterwards. -/
def read (dest : Bytes) : Decoder (ℕ × Bytes) := fun s =>
  let n := min dest.length s.length
  some ((n, s.take n ++ dest.drop n), s.drop n)

/-- `if (stream.read(&x, n) != n) return false;` -/
def readExact (dest : Bytes) : Decoder Bytes := do
  let r ← read dest
  if r.1 = dest.length then pure r.2 else Decoder.fail

/-- `if (!stream.read(&x, n)) return false;` -/
def readSome (dest : Bytes) : Decoder Bytes := do
  let r ← read dest
  if r.1 = 0 then Decoder.fail else pure r.2

/-- `stream.read(&x, n);` -/
def readAny (dest : Bytes) : Decoder Bytes := do
  let r ← read dest
  pure r.2

variable {dest bs : Bytes}

/-- A read that finds its full width takes exactly those bytes. -/
theorem reads_read (h : bs.length = dest.length) :
    (read dest).Reads bs (dest.length, bs) := by
  intro t
  have hmin : min dest.length (bs ++ t).length = dest.length := by
    rw [List.length_append, h]
    exact Nat.min_eq_left (Nat.le_add_right _ _)
  unfold read
  simp only [hmin, List.drop_length, List.append_nil]
  rw [← h, List.take_left, List.drop_left]

theorem reads_readExact (h : bs.length = dest.length) : (readExact dest).Reads bs bs :=
  (reads_read h).bind_pure (if_pos rfl)

theorem reads_readSome (h : bs.length = dest.length) (hpos : 0 < dest.length) :
    (readSome dest).Reads bs bs :=
  (reads_read h).bind_pure (if_neg hpos.ne')

theorem reads_readAny (h : bs.length = dest.length) : (readAny dest).Reads bs bs :=
  (reads_read h).bind_pure rfl

/-- **A checked read returns the bytes it has consumed**, as many as were asked
for. -/
theorem readExact_eq_some {s t : Bytes} (h : readExact dest s = some (bs, t)) :
    bs.length = dest.length ∧ s = bs ++ t := by
  obtain ⟨r, u, hread, hcheck⟩ := Decoder.bind_eq_some.mp h
  obtain ⟨rfl, rfl⟩ := Prod.mk.inj (Option.some.inj hread)
  by_cases hn : min dest.length s.length = dest.length
  · rw [if_pos hn] at hcheck
    obtain ⟨hbs, rfl⟩ := Decoder.pure_eq_some.mp hcheck
    simp only [hn, List.drop_length, List.append_nil] at hbs ⊢
    subst hbs
    exact ⟨by rw [List.length_take, hn], (List.take_append_drop _ _).symm⟩
  · rw [if_neg hn] at hcheck
    cases hcheck

/-- A checked read does not look at what follows. -/
theorem extends_readExact (dest : Bytes) : (readExact dest).Extends := by
  intro s t bs h u
  obtain ⟨hlen, rfl⟩ := readExact_eq_some h
  rw [List.append_assoc]
  exact reads_readExact hlen (t ++ u)

/-- An unchecked read stops at the end of the stream. -/
theorem clamps_readAny (dest : Bytes) : (readAny dest).Clamps := by
  intro s t bs h
  obtain ⟨rfl, rfl⟩ := Prod.mk.inj (Option.some.inj h)
  by_cases hs : dest.length ≤ s.length
  · right
    intro u
    have hread : (readAny dest).Reads (s.take dest.length) (s.take dest.length) :=
      reads_readAny (by rw [List.length_take, Nat.min_eq_left hs])
    have hall := hread (s.drop dest.length ++ u)
    rw [← List.append_assoc, List.take_append_drop] at hall
    rw [hall]
    simp only [Nat.min_eq_left hs, List.drop_length, List.append_nil]
  · left
    exact List.drop_eq_nil_of_le (by omega)

end ReadOnlyMemoryStream
