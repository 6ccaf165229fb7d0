import Deltabase.Storage.FileIOManager

/-!
# Stored values and their bytes

Both directions of the storage format. What a serializer has written is read
back by the deserializer of the same type, whatever follows it in the stream;
and rows and pages have one representation each: the bytes a row or a page is
read from are the bytes it is written as (`exact_deserializeDr`,
`exact_deserializeDp`).

The other types do not have the second property. The ids of a table and a
schema are read without a check, so a file that ends inside one is read as if
zeros followed, and any non-zero byte is a true `bool`.
-/

namespace StdStorageSerializer

/-! ## Types and strings -/

theorem exact_readDataType : readDataType.Exact fun t => leBytes 8 t.toNat :=
  exact_readU64.bind_pure fun n => by rw [DataType.toNat_ofNat]

/-- A string is written as the bytes it has been read from: the length that is
read is that of the string. -/
theorem exact_readStr : readStr.Exact strBytes := by
  intro s t str h
  obtain ⟨size, u, hsize, hread⟩ := Decoder.bind_eq_some.mp h
  obtain ⟨hlen, hu⟩ := ReadOnlyMemoryStream.readExact_eq_some hread
  rw [length_zeros] at hlen
  rw [strBytes, List.append_assoc, hlen, ← hu]
  exact exact_readU64 hsize

/-! ## Tokens, rows and pages -/

/-- A token is written as the bytes it has been read from. -/
theorem exact_deserializeDt : deserializeDt.Exact fun t => (serializeDt t).buffer := by
  intro s t token h
  obtain ⟨type, u, htype, hrest⟩ := Decoder.bind_eq_some.mp h
  show s = (serializeDt token).buffer ++ t
  have hs : s = leBytes 8 type.toNat ++ u := exact_readDataType htype
  by_cases hnull : type = .null
  · rw [if_neg (not_not_intro hnull)] at hrest
    obtain ⟨rfl, rfl⟩ := Decoder.pure_eq_some.mp hrest
    rw [buffer_serializeDt, if_pos hnull, List.append_nil]
    exact hs
  · rw [if_pos hnull] at hrest
    obtain ⟨size, v, hsize, hrest⟩ := Decoder.bind_eq_some.mp hrest
    obtain ⟨bytes, w, hbytes, hp⟩ := Decoder.bind_eq_some.mp hrest
    obtain ⟨rfl, rfl⟩ := Decoder.pure_eq_some.mp hp
    have hstr : u = strBytes bytes ++ w :=
      exact_readStr (Decoder.bind_eq_some.mpr ⟨size, v, hsize, hbytes⟩)
    rw [buffer_serializeDt, if_neg hnull, List.append_assoc, ← hstr]
    exact hs

/-- **A row is written as the bytes it has been read from.** -/
theorem exact_deserializeDr : deserializeDr.Exact fun r => (serializeDr r).buffer := by
  intro s t row h
  obtain ⟨id, s₁, hid, h⟩ := Decoder.bind_eq_some.mp h
  obtain ⟨flags, s₂, hflags, h⟩ := Decoder.bind_eq_some.mp h
  obtain ⟨count, s₃, hcount, h⟩ := Decoder.bind_eq_some.mp h
  obtain ⟨tokens, s₄, htokens, h⟩ := Decoder.bind_eq_some.mp h
  obtain ⟨rfl, rfl⟩ := Decoder.pure_eq_some.mp h
  obtain ⟨hlen, hs₃⟩ := exact_deserializeDt.replicate htokens
  show s = (serializeDr { id, flags, tokens }).buffer ++ s₄
  rw [buffer_serializeDr, exact_readU64 hid, exact_readU32 hflags, exact_readU64 hcount, hs₃, hlen]
  simp only [List.append_assoc]

/-- **A page is written as the bytes it has been read from.** -/
theorem exact_deserializeDp (out : DataPage) :
    (deserializeDp out).Exact fun p => (serializeDp p).buffer := by
  intro s t page h
  obtain ⟨id, s₁, hid, h⟩ := Decoder.bind_eq_some.mp h
  obtain ⟨next, s₂, hnext, h⟩ := Decoder.bind_eq_some.mp h
  obtain ⟨tableId, s₃, htable, h⟩ := Decoder.bind_eq_some.mp h
  obtain ⟨minRid, s₄, hmin, h⟩ := Decoder.bind_eq_some.mp h
  obtain ⟨maxRid, s₅, hmax, h⟩ := Decoder.bind_eq_some.mp h
  obtain ⟨count, s₆, hcount, h⟩ := Decoder.bind_eq_some.mp h
  obtain ⟨lastLsn, s₇, hlsn, h⟩ := Decoder.bind_eq_some.mp h
  obtain ⟨rows, s₈, hrows, h⟩ := Decoder.bind_eq_some.mp h
  obtain ⟨hpage, rfl⟩ := Decoder.pure_eq_some.mp h
  obtain ⟨hlen, hs₇⟩ := exact_deserializeDr.replicate hrows
  show s = (serializeDp page).buffer ++ s₈
  rw [← hpage]
  rw [buffer_serializeDp, exact_readUuid hid, exact_readUuid hnext, exact_readUuid htable,
    exact_readU64 hmin, exact_readU64 hmax, exact_readU64 hcount, exact_readU64 hlsn, hs₇, hlen]
  simp only [List.append_assoc]

/-! ## What is read fits its type -/

/-- A number of `w` bytes is below `256 ^ w`. -/
theorem ensures_readLe (w : ℕ) :
    (ReadOnlyMemoryStream.readExact (zeros w) >>= fun bs => pure (leNat bs)).Ensures
      fun n => n < 256 ^ w := by
  have hbytes : (ReadOnlyMemoryStream.readExact (zeros w)).Ensures fun bs => bs.length = w := by
    intro s t bs h
    rw [(ReadOnlyMemoryStream.readExact_eq_some h).1, length_zeros]
  refine hbytes.bind fun bs hbs => Decoder.ensures_pure ?_
  rw [← hbs]
  exact leNat_lt bs

theorem ensures_readU64 : readU64.Ensures fun n => n < 256 ^ 8 := ensures_readLe 8

theorem ensures_readU32 : readU32.Ensures fun n => n < 256 ^ 4 := ensures_readLe 4

theorem ensures_readUuid : readUuid.Ensures fun id => id < 256 ^ 16 := by
  have hbytes : (ReadOnlyMemoryStream.readExact (zeros 16)).Ensures fun bs => bs.length = 16 := by
    intro s t bs h
    rw [(ReadOnlyMemoryStream.readExact_eq_some h).1, length_zeros]
  refine hbytes.bind fun bs hbs => Decoder.ensures_pure ?_
  rw [uuidOfBytes, ← hbs, ← List.length_reverse]
  exact leNat_lt bs.reverse

theorem ensures_deserializeDt : deserializeDt.Ensures DataToken.Fits := by
  have htype : readDataType.Ensures fun type => type.toNat < 256 ^ 8 := by
    refine ensures_readU64.bind fun n hn => Decoder.ensures_pure ?_
    rwa [DataType.toNat_ofNat]
  refine htype.bind fun type htype => ?_
  by_cases hnull : type = .null
  · rw [if_neg (not_not_intro hnull)]
    exact Decoder.ensures_pure ⟨htype, Nat.pow_pos (Nat.zero_lt_succ 255), fun _ => rfl⟩
  · rw [if_pos hnull]
    refine ensures_readU64.bind fun size hsize => ?_
    intro s t token h
    obtain ⟨bytes, u, hread, hp⟩ := Decoder.bind_eq_some.mp h
    obtain ⟨rfl, rfl⟩ := Decoder.pure_eq_some.mp hp
    have hlen := (ReadOnlyMemoryStream.readExact_eq_some hread).1
    rw [length_zeros] at hlen
    exact ⟨htype, hlen ▸ hsize, fun h => absurd h hnull⟩

theorem ensures_deserializeDr : deserializeDr.Ensures DataRow.Fits := by
  refine ensures_readU64.bind fun id hid => ensures_readU32.bind fun flags hflags => ?_
  refine ensures_readU64.bind fun count hcount => ?_
  refine (ensures_deserializeDt.replicate count).bind fun tokens htokens => ?_
  exact Decoder.ensures_pure ⟨hid, hflags, htokens.1 ▸ hcount, htokens.2⟩

/-- **A page that has been read fits its type**, whatever the file held. -/
theorem ensures_deserializeDp (out : DataPage) : (deserializeDp out).Ensures fun p =>
    p.Fits ∧ p.size = out.size ∧ p.path = out.path := by
  refine ensures_readUuid.bind fun id hid => ensures_readUuid.bind fun next hnext => ?_
  refine ensures_readUuid.bind fun tableId htable => ensures_readU64.bind fun minRid hmin => ?_
  refine ensures_readU64.bind fun maxRid hmax => ensures_readU64.bind fun count hcount => ?_
  refine ensures_readU64.bind fun lastLsn hlsn => ?_
  refine (ensures_deserializeDr.replicate count).bind fun rows hrows => ?_
  refine Decoder.ensures_pure ⟨?_, rfl, rfl⟩
  exact ⟨hid, hnext, htable, hmin, hmax, hlsn, hrows.1 ▸ hcount, hrows.2⟩

/-! ## The two directions together -/

/-- **What a page file is read as** is what the file manager makes of the page
that was written: only its size, which is that of the file, is not that of the
page the bytes are read into. -/
theorem deserializeDp_serializeDp {page : DataPage} (h : page.Fits) :
    deserializeDp { page with size := (serializeDp page).size } (serializeDp page).buffer
      = some (page.reread, []) :=
  (reads_deserializeDp { page with size := (serializeDp page).size } h).run

/-- **The storage format.** What is written is read back, whatever follows it,
and the stream is left at what follows; and rows and pages are written as the
bytes they have been read from. A page is read back with its rows counted and
with the size and the path of the page it is read into; a configuration must
have a name. -/
theorem serialize_deserialize (t : Bytes) (out : DataPage) :
    (∀ x : DataToken, x.Fits → deserializeDt ((serializeDt x).buffer ++ t) = some (x, t))
      ∧ (∀ x : DataRow, x.Fits → deserializeDr ((serializeDr x).buffer ++ t) = some (x, t))
      ∧ (∀ x : DataPage, x.Fits → deserializeDp out ((serializeDp x).buffer ++ t)
          = some ({ x with rowsCount := x.rows.length, size := out.size, path := out.path }, t))
      ∧ (∀ x : MetaColumn, x.Fits → deserializeMc ((serializeMc x).buffer ++ t) = some (x, t))
      ∧ (∀ x : MetaIndex, x.Fits → deserializeMi ((serializeMi x).buffer ++ t) = some (x, t))
      ∧ (∀ x : MetaTable, x.Fits → deserializeMt ((serializeMt x).buffer ++ t) = some (x, t))
      ∧ (∀ x : MetaSchema, x.Fits → deserializeMs ((serializeMs x).buffer ++ t) = some (x, t))
      ∧ (∀ x : Config, x.Fits → x.dbName.isSome →
          deserializeCfg ((serializeCfg x).buffer ++ t) = some (x, t))
      ∧ (∀ (s : Bytes) (x : DataRow), deserializeDr s = some (x, t) →
          s = (serializeDr x).buffer ++ t)
      ∧ ∀ (s : Bytes) (x : DataPage), deserializeDp out s = some (x, t) →
          s = (serializeDp x).buffer ++ t := by
  refine ⟨fun _ h => reads_deserializeDt h t, fun _ h => reads_deserializeDr h t,
    fun _ h => reads_deserializeDp out h t, fun _ h => reads_deserializeMc h t,
    fun _ h => reads_deserializeMi h t, fun _ h => reads_deserializeMt h t,
    fun _ h => reads_deserializeMs h t, fun _ h hname => reads_deserializeCfg h hname t,
    fun _ _ h => exact_deserializeDr h, fun _ _ h => exact_deserializeDp out h⟩

/-- A page with a row of two tokens, one of them `NULL`. -/
def smallPage : DataPage :=
  { id := 7, tableId := 3, minRid := 1, maxRid := 1, lastLsn := 9, size := 0, path := ([115], [116])
    rows := [{ id := 1, tokens := [⟨[5, 0, 0, 0], .integer⟩, ⟨[], .null⟩] }] }

/-- A page of its own is read back, and the row it holds. -/
theorem serialize_deserialize_smallPage :
    deserializeDp smallPage ((serializeDp smallPage).buffer ++ [1, 2])
        = some ({ smallPage with rowsCount := 1 }, [1, 2])
      ∧ ∀ r ∈ smallPage.rows,
        deserializeDr ((serializeDr r).buffer ++ [1, 2]) = some (r, [1, 2]) := by
  have h := serialize_deserialize [1, 2] smallPage
  refine ⟨h.2.2.1 smallPage (by decide), fun r hr => h.2.1 r ?_⟩
  have hfits : ∀ r ∈ smallPage.rows, r.Fits := by decide
  exact hfits r hr

end StdStorageSerializer
