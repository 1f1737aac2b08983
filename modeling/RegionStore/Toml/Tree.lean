import RegionStore.Toml.Value

/-!
The tables of a document while it is being read. A table may be opened once by a header, or else
grow through dotted keys; what one of the two has made is closed to the other.
-/
namespace RegionStore.Toml

/-- How a table came about. -/
inductive Origin where
  | header
  /-- Named on the way to another header; a header of its own may still follow. -/
  | implied
  | dotted
  deriving DecidableEq, Repr

inductive Node where
  | leaf (v : Value)
  | table (origin : Origin) (fields : List (String × Node))
  /-- An array of tables, the latest first. -/
  | tables (latest : List (String × Node)) (earlier : List (List (String × Node)))

abbrev Fields := List (String × Node)

namespace Fields

def replace (key : String) (node : Node) : Fields → Fields
  | [] => [(key, node)]
  | (other, old) :: rest =>
    if other = key then (key, node) :: rest else (other, old) :: replace key node rest

/-- Changes the table that a path leads to, and makes the missing tables on the way there. -/
def within (made : Origin) (change : Origin → Fields → Option Fields) :
    (path : List String) → Origin → Fields → Option Fields
  | [], origin, fields => change origin fields
  | key :: path, _, fields =>
    match fields.lookup key with
    | none => (within made change path made []).map fun inner =>
        fields.replace key (.table made inner)
    | some (.leaf _) => none
    | some (.table origin inner) =>
      if made = .dotted ∧ origin = .header then none
      else (within made change path origin inner).map fun inner =>
        fields.replace key (.table origin inner)
    | some (.tables latest earlier) => (within made change path .header latest).map fun latest =>
        fields.replace key (.tables latest earlier)

/-- Sets a dotted key. Its last table has to be one that dotted keys have made. -/
def put (path : List String) (key : String) (v : Value) (origin : Origin) (fields : Fields) :
    Option Fields :=
  within .dotted (fun reached fields =>
    if path.isEmpty == (reached == .dotted) then none
    else match fields.lookup key with
      | some _ => none
      | none => some (fields.replace key (.leaf v))) path origin fields

/-- Opens the table of a header. -/
def openTable (key : String) (_ : Origin) (fields : Fields) : Option Fields :=
  match fields.lookup key with
  | none => some (fields.replace key (.table .header []))
  | some (.table .implied inner) => some (fields.replace key (.table .header inner))
  | some _ => none

/-- Opens one more table of an array of tables. -/
def openItem (key : String) (_ : Origin) (fields : Fields) : Option Fields :=
  match fields.lookup key with
  | none => some (fields.replace key (.tables [] []))
  | some (.tables latest earlier) => some (fields.replace key (.tables [] (latest :: earlier)))
  | some _ => none

end Fields

mutual

def Node.toValue : Node → Value
  | .leaf v => v
  | .table _ fields => .table (fieldValues fields)
  | .tables latest earlier => .array (itemValues earlier ++ [.table (fieldValues latest)])

def fieldValues : List (String × Node) → List (String × Value)
  | [] => []
  | (key, node) :: rest => (key, node.toValue) :: fieldValues rest

/-- Tables that are listed latest first, in their order in the document. -/
def itemValues : List (List (String × Node)) → List Value
  | [] => []
  | fields :: earlier => itemValues earlier ++ [.table (fieldValues fields)]

end

end RegionStore.Toml
