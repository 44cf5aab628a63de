/-
  This file defines data trees: what a script is written in,
  what it can quote, and what its values are pictured as.

  Key definitions include:
    * `Datum`
    * `Datum.field?`
    * `Datum.marked`
-/

namespace Resumption

------------------------------------------------------------
-- Data Trees
------------------------------------------------------------

/- Null, truth values, integers, texts, lists and records. -/
inductive Datum where
  | null
  | bool (b : Bool)
  | int (n : Int)
  | str (s : String)
  | list (items : List Datum)
  | record (fields : List (String × Datum))
  deriving Inhabited

namespace Datum

/- A field of a record. -/
def field?
    (d : Datum)
    (key : String) : Option Datum :=
  match d with
  | .record fields => fields.lookup key
  | _ => none

/-
  A picture of something that is not plain data: its kind
  under the key of a dollar sign, and further fields.
-/
def marked
    (kind : String)
    (fields : List (String × Datum)) : Datum :=
  .record (("$", .str kind) :: fields)

end Datum

end Resumption
