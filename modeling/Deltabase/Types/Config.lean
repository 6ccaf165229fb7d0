import Deltabase.Lib.Codec

/-!
# The configuration of a database

`types::Config` is written to the database's meta file and read when the
database is opened. Its three enumerations have the underlying type `int`; the
last constructor of each holds the values of the 32 bits that no enumerator
names, which a read from a file can produce.
-/

namespace Config

/-- `Config::IoType`. -/
inductive IoType where
  | file
  | detachedFile
  | other (raw : ℕ) (h : raw ≠ 1 ∧ raw ≠ 2)
  deriving DecidableEq

/-- `Config::PlannerType`. -/
inductive PlannerType where
  | std
  | other (raw : ℕ) (h : raw ≠ 1)
  deriving DecidableEq

/-- `Config::SerializerType`. -/
inductive SerializerType where
  | std
  | other (raw : ℕ) (h : raw ≠ 1)
  deriving DecidableEq

namespace IoType

/-- The underlying integer. -/
def toNat : IoType → ℕ
  | file => 1
  | detachedFile => 2
  | other raw _ => raw

/-- The enumerator with a given underlying integer. -/
def ofNat (n : ℕ) : IoType :=
  if h₁ : n = 1 then file else if h₂ : n = 2 then detachedFile else other n ⟨h₁, h₂⟩

@[simp] theorem ofNat_toNat (t : IoType) : ofNat t.toNat = t := by
  cases t with
  | file => rfl
  | detachedFile => rfl
  | other raw h => rw [toNat, ofNat, dif_neg h.1, dif_neg h.2]

end IoType

namespace PlannerType

/-- The underlying integer. -/
def toNat : PlannerType → ℕ
  | std => 1
  | other raw _ => raw

/-- The enumerator with a given underlying integer. -/
def ofNat (n : ℕ) : PlannerType := if h : n = 1 then std else other n h

@[simp] theorem ofNat_toNat (t : PlannerType) : ofNat t.toNat = t := by
  cases t with
  | std => rfl
  | other raw h => rw [toNat, ofNat, dif_neg h]

end PlannerType

namespace SerializerType

/-- The underlying integer. -/
def toNat : SerializerType → ℕ
  | std => 1
  | other raw _ => raw

/-- The enumerator with a given underlying integer. -/
def ofNat (n : ℕ) : SerializerType := if h : n = 1 then std else other n h

@[simp] theorem ofNat_toNat (t : SerializerType) : ofNat t.toNat = t := by
  cases t with
  | std => rfl
  | other raw h => rw [toNat, ofNat, dif_neg h]

end SerializerType

end Config

/-- `types::Config`. -/
structure Config where
  dbName : Option Bytes := none
  defaultSchema : Bytes := "common".toUTF8.toList
  dbPath : Bytes := []
  ioType : Config.IoType
  plannerType : Config.PlannerType
  serializerType : Config.SerializerType
  lastCheckpointLsn : ℕ := 0
  deriving DecidableEq
