import Deltabase.Storage.StdStorageSerializer

/-!
# The text of a UUID

`UUID::to_string` and the constructor of `UUID` from a string, by libuuid's
`uuid_unparse_lower` and `uuid_parse`: thirty-six characters, which are the
sixteen bytes in hexadecimal with a hyphen after the fourth, the sixth, the eighth
and the tenth. Both cases of a digit are read, and the lower one is written.

Page and index files are named by these texts (`ofString_toString`).
-/

namespace UUID

/-- A digit, of a number below sixteen. -/
def hexDigit (n : ℕ) : UInt8 := UInt8.ofNat (if n < 10 then 48 + n else 87 + n)

/-- The number that a digit stands for. -/
def hexValue (c : UInt8) : Option ℕ :=
  if 48 ≤ c.toNat ∧ c.toNat ≤ 57 then some (c.toNat - 48)
  else if 97 ≤ c.toNat ∧ c.toNat ≤ 102 then some (c.toNat - 87)
  else if 65 ≤ c.toNat ∧ c.toNat ≤ 70 then some (c.toNat - 55)
  else none

theorem hexValue_hexDigit {n : ℕ} (h : n < 16) : hexValue (hexDigit n) = some n := by
  have hall : ∀ n < 16, hexValue (hexDigit n) = some n := by decide
  exact hall n h

/-- Bytes in hexadecimal. -/
def hex (bs : Bytes) : Bytes :=
  bs.flatMap fun b => [hexDigit (b.toNat / 16), hexDigit (b.toNat % 16)]

/-- The bytes that hexadecimal digits stand for. -/
def unhex : Bytes → Option Bytes
  | [] => some []
  | [_] => none
  | c :: c' :: cs => do
    let high ← hexValue c
    let low ← hexValue c'
    let bs ← unhex cs
    pure (UInt8.ofNat (16 * high + low) :: bs)

theorem length_hex (bs : Bytes) : (hex bs).length = 2 * bs.length := by
  induction bs with
  | nil => rfl
  | cons b bs ih =>
    show (hex bs).length + 2 = 2 * (bs.length + 1)
    rw [ih]
    rfl

theorem unhex_hex (bs : Bytes) : unhex (hex bs) = some bs := by
  induction bs with
  | nil => rfl
  | cons b bs ih =>
    have hb := b.toNat_lt
    have hhigh := hexValue_hexDigit (n := b.toNat / 16) (by omega)
    have hlow := hexValue_hexDigit (n := b.toNat % 16) (by omega)
    show unhex (hexDigit (b.toNat / 16) :: hexDigit (b.toNat % 16) :: hex bs) = _
    rw [unhex, hhigh, hlow, ih]
    show some (UInt8.ofNat (16 * (b.toNat / 16) + b.toNat % 16) :: bs) = _
    rw [Nat.div_add_mod, UInt8.ofNat_toNat]

/-- The character `-`. -/
def hyphen : UInt8 := 45

/-- `UUID::to_string`. -/
def toString (id : UUID) : Bytes :=
  let bs := uuidBytes id
  hex (bs.take 4) ++ hyphen :: (hex ((bs.drop 4).take 2) ++ hyphen :: (hex ((bs.drop 6).take 2)
    ++ hyphen :: (hex ((bs.drop 8).take 2) ++ hyphen :: hex (bs.drop 10))))

/-- The constructor from a string, which throws `std::invalid_argument` on what
is not a UUID. -/
def ofString (str : Bytes) : Option UUID :=
  if str.length = 36 ∧ str[8]? = some hyphen ∧ str[13]? = some hyphen ∧ str[18]? = some hyphen
      ∧ str[23]? = some hyphen then
    (unhex (str.take 8 ++ ((str.drop 9).take 4 ++ ((str.drop 14).take 4
      ++ ((str.drop 19).take 4 ++ str.drop 24))))).map uuidOfBytes
  else none

theorem hex_append (bs cs : Bytes) : hex (bs ++ cs) = hex bs ++ hex cs := List.flatMap_append

/-- Digits with hyphens where they belong are read. -/
theorem ofString_hyphens {A B C D E bs : Bytes} (hA : A.length = 8) (hB : B.length = 4)
    (hC : C.length = 4) (hD : D.length = 4) (hE : E.length = 12)
    (hdigits : unhex (A ++ (B ++ (C ++ (D ++ E)))) = some bs) :
    ofString (A ++ hyphen :: (B ++ hyphen :: (C ++ hyphen :: (D ++ hyphen :: E))))
      = some (uuidOfBytes bs) := by
  unfold ofString
  simp [List.drop_append, List.drop_of_length_le, hA, hB, hC, hD, hE, hdigits]

/-- **The text of a UUID is read back.** -/
theorem ofString_toString {id : UUID} (h : id < 256 ^ 16) : ofString (toString id) = some id := by
  have hlength := length_uuidBytes id
  have hid := uuidOfBytes_uuidBytes h
  unfold toString
  generalize uuidBytes id = bs at hlength hid
  have hbytes : bs.take 4 ++ ((bs.drop 4).take 2 ++ ((bs.drop 6).take 2
      ++ ((bs.drop 8).take 2 ++ bs.drop 10))) = bs := by
    rw [show bs.drop 10 = (bs.drop 8).drop 2 from by rw [List.drop_drop], List.take_append_drop,
      show bs.drop 8 = (bs.drop 6).drop 2 from by rw [List.drop_drop], List.take_append_drop,
      show bs.drop 6 = (bs.drop 4).drop 2 from by rw [List.drop_drop], List.take_append_drop,
      List.take_append_drop]
  rw [← hid]
  refine ofString_hyphens ?_ ?_ ?_ ?_ ?_ ?_
  · rw [length_hex, List.length_take, hlength]
    rfl
  · rw [length_hex, List.length_take, List.length_drop, hlength]
    rfl
  · rw [length_hex, List.length_take, List.length_drop, hlength]
    rfl
  · rw [length_hex, List.length_take, List.length_drop, hlength]
    rfl
  · rw [length_hex, List.length_drop, hlength]
  · rw [← hex_append, ← hex_append, ← hex_append, ← hex_append, hbytes, unhex_hex]

end UUID
