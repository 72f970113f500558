import Intake.Table
import Intake.Toml.Node

/-! # Adding to a table

A document grows by its entries (`assign`) and its headers (`openTable`, `addTable`).
Nothing is ever defined twice: each of the three fails instead.

* A dotted key passes through tables that dotted keys made, and through tables that lie
  on the path of a header as long as another dotted table comes after them.
* A header passes through every table that is not written between braces.
* Both pass into the last one of several tables of one name. -/

namespace Intake.Toml

/-- Give the value of a dotted key; the entry goes into a table that only dotted keys have
    made, or right into these fields. -/
def assign (v : Node) : List String → Fields → Option Fields
  | [], _ => none
  | [k], fs =>
    match Table.lookup k fs with
    | none => some (fs ++ [(k, v)])
    | some _ => none
  | k :: next :: ks, fs =>
    match Table.lookup k fs with
    | none => (assign v (next :: ks) []).map fun g => fs ++ [(k, .table .dotted g)]
    | some (.table .dotted g) =>
      (assign v (next :: ks) g).map fun g => Table.put k (.table .dotted g) fs
    | some (.table .path g) =>
      if ks.isEmpty then none
      else (assign v (next :: ks) g).map fun g => Table.put k (.table .path g) fs
    | some (.tables gs) =>
      if ks.isEmpty then none
      else gs.getLast?.bind fun g =>
        (assign v (next :: ks) g).map fun g => Table.put k (.tables (gs.dropLast ++ [g])) fs
    | some _ => none

/-- Change the table at the end of a header's path, making the tables that are missing on
    the way. -/
def within (f : Fields → Option Fields) : List String → Fields → Option Fields
  | [], fs => f fs
  | k :: ks, fs =>
    match Table.lookup k fs with
    | none => (within f ks []).map fun g => fs ++ [(k, .table .path g)]
    | some (.table .inline _) => none
    | some (.table o g) => (within f ks g).map fun g => Table.put k (.table o g) fs
    | some (.tables gs) =>
      gs.getLast?.bind fun g =>
        (within f ks g).map fun g => Table.put k (.tables (gs.dropLast ++ [g])) fs
    | some _ => none

/-- Open a table: it is new, or it was only passed through so far. -/
def openTable (k : String) (fs : Fields) : Option Fields :=
  match Table.lookup k fs with
  | none => some (fs ++ [(k, .table .header [])])
  | some (.table .path g) => some (Table.put k (.table .header g) fs)
  | some _ => none

/-- Add another table to those of one name. -/
def addTable (k : String) (fs : Fields) : Option Fields :=
  match Table.lookup k fs with
  | none => some (fs ++ [(k, .tables [[]])])
  | some (.tables gs) => some (Table.put k (.tables (gs ++ [[]])) fs)
  | some _ => none

end Intake.Toml
