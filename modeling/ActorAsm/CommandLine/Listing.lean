import ActorAsm.Document.Basic

/-!
The listing of a document: one definition to a row, in columns.
-/

namespace ActorAsm.CommandLine.Listing

/-- The four cells of a definition. -/
structure Row where
  label : String
  kind : String
  arrow : String
  summary : String

def Row.ofDefinition (label : String) (node : Node) : Row :=
  ⟨label ++ ":", node.kind, "=>", node.summary⟩

/-- A cell filled with spaces to a width. -/
def pad (width : Nat) (cell : String) : String :=
  cell ++ String.ofList (List.replicate (width - cell.length) ' ')

/-- The width of the widest cell of a column. -/
def widest (column : Row → String) (rows : List Row) : Nat :=
  rows.foldl (fun width row => max width (column row).length) 0

/-- A row, with the last cell as it is. -/
def render (rows : List Row) (row : Row) : String :=
  pad (widest Row.label rows) row.label ++ " " ++ pad (widest Row.kind rows) row.kind ++ " " ++
    pad (widest Row.arrow rows) row.arrow ++ " " ++ row.summary ++ "\n"

/-- All rows, and an empty line behind them. -/
def ofDocument (d : Document) : String :=
  let rows := d.define.map fun (label, node) => Row.ofDefinition label node
  String.join (rows.map (render rows)) ++ "\n"

end ActorAsm.CommandLine.Listing
