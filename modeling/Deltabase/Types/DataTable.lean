import Deltabase.Types.DataPage

/-!
# Tables of results

A query answers with rows and the names and types of their columns. The server
sends them in chunks, each a `types::DataTable`.
-/

/-- `types::OutputSchema`, with `types::OutputColumn` as a name and a type. -/
abbrev OutputSchema := List (Bytes × DataType)

/-- `types::DataTable`. Its name is not used. -/
structure DataTable where
  outputSchema : OutputSchema
  rows : List DataRow
  deriving DecidableEq
