/-
# TOML values

What a document holds once it has been read: texts, integers of any size, numbers with a
point, booleans, dates and times, arrays and tables.  A table keeps its entries in the order
of the document, and no key occurs twice.
-/

namespace DeployWatch.Toml

/-- A value of a document. -/
inductive Value where
  | text (content : String)
  | integer (number : Int)
  /-- A number with a point or an exponent, as it is written. -/
  | float (literal : String)
  | boolean (holds : Bool)
  /-- A date, a time, or both, as it is written. -/
  | moment (literal : String)
  | array (items : List Value)
  | table (entries : List (String × Value))
  deriving Repr, Inhabited

/-- A table's entries. -/
abbrev Table := List (String × Value)

/-- The value under a key. -/
def Table.get? (t : Table) (key : String) : Option Value := List.lookup key t

end DeployWatch.Toml
