import Dataflow.Toml.Basic
/-!
# Documents in TOML

A document is a list of statements.  Each of them adds something to the document so far, or
contradicts it: nothing may be said twice, and a table that was closed stays closed.
-/
namespace Dataflow.Toml

/-- A key with dots: the tables it leads through, and the name in the last of them. -/
structure Path where
  parents : List String
  name : String

structure Entry where
  path : Path
  value : Toml

/-- What a line of a document says. -/
inductive Statement where
  | entry (e : Entry)
  /-- A header: the entries that follow belong to this table. -/
  | table (path : Path)
  /-- A header: the entries that follow belong to a new table at the end of this array. -/
  | element (path : Path)

/-- Where a table comes from. -/
inductive Origin where
  /-- It has a header. -/
  | header
  /-- A header leads through it. -/
  | throughHeader
  /-- The key of an entry leads through it. -/
  | throughKey
  deriving DecidableEq

inductive Item where
  | value (v : Toml)
  | table (origin : Origin) (members : List (String × Item))
  /-- An array of tables that have headers: the last one, and those before it, the last of these
  first. -/
  | tables (last : List (String × Item)) (earlier : List (List (String × Item)))

abbrev Members := List (String × Item)

namespace Members

def get? (ms : Members) (key : String) : Option Item := (ms.find? fun m => m.1 = key).map Prod.snd

/-- Puts a member in the place of the one with its key, or at the end. -/
def put (ms : Members) (key : String) (item : Item) : Members :=
  match ms with
  | [] => [(key, item)]
  | m :: rest => if m.1 = key then (key, item) :: rest else m :: put rest key item

/-- Changes the table at the end of a way that leads from table to table, and makes the tables that
are not there.  Of an array of tables the last one is meant.  A key cannot lead through a table that
has a header. -/
def reach (made : Origin) (change : Origin → Members → Option Members) :
    List String → Origin → Members → Option Members
  | [], origin, ms => change origin ms
  | key :: way, _, ms =>
    match ms.get? key with
    | none => (reach made change way made []).map fun inner => ms.put key (.table made inner)
    | some (.table origin inner) =>
      if made = .throughKey && origin = .header then none
      else (reach made change way origin inner).map fun inner => ms.put key (.table origin inner)
    | some (.tables last earlier) =>
      (reach made change way .header last).map fun last => ms.put key (.tables last earlier)
    | some (.value _) => none

/-- Adds a member with a new key. -/
def addNew (ms : Members) (key : String) (item : Item) : Option Members :=
  match ms.get? key with
  | none => some (ms.put key item)
  | some _ => none

/-- Adds an entry to a table that its header opened, or to the whole document.  If its key leads
through tables, the last of them was made by such a key. -/
def addEntry (e : Entry) (ms : Members) : Option Members :=
  let add (origin : Origin) (ms : Members) : Option Members :=
    if e.path.parents.isEmpty || origin = .throughKey then ms.addNew e.path.name (.value e.value)
    else none
  ms.reach .throughKey add e.path.parents .header

/-- Opens a table for its header.  It must not be there, unless other headers lead through it. -/
def openTable (key : String) (ms : Members) : Option Members :=
  match ms.get? key with
  | none => some (ms.put key (.table .header []))
  | some (.table .throughHeader inner) => some (ms.put key (.table .header inner))
  | some _ => none

/-- Opens a new table at the end of an array of tables. -/
def openElement (key : String) (ms : Members) : Option Members :=
  match ms.get? key with
  | none => some (ms.put key (.tables [] []))
  | some (.tables last earlier) => some (ms.put key (.tables [] (last :: earlier)))
  | some _ => none

end Members

mutual

/-- The value that a part of a document stands for. -/
def Item.toValue : Item → Toml
  | .value v => v
  | .table _ members => .table (membersToValues members)
  | .tables last earlier => .array (.table (membersToValues last) :: tablesToValues earlier).reverse

def membersToValues : List (String × Item) → List (String × Toml)
  | [] => []
  | (key, item) :: rest => (key, item.toValue) :: membersToValues rest

def tablesToValues : List (List (String × Item)) → List Toml
  | [] => []
  | members :: rest => .table (membersToValues members) :: tablesToValues rest

end

/-- A document so far: its members, and the way to the table that is open. -/
structure Document where
  members : Members
  current : List String

namespace Document

def empty : Document := ⟨[], []⟩

/-- Changes the table that a header names, or one on the way to it. -/
def change (d : Document) (way : List String) (f : Members → Option Members) : Option Members :=
  d.members.reach .throughHeader (fun _ => f) way .header

def add (d : Document) : Statement → Option Document
  | .entry e => (d.change d.current (Members.addEntry e)).map fun members => { d with members }
  | .table p =>
    (d.change p.parents (Members.openTable p.name)).map fun members =>
      ⟨members, p.parents ++ [p.name]⟩
  | .element p =>
    (d.change p.parents (Members.openElement p.name)).map fun members =>
      ⟨members, p.parents ++ [p.name]⟩

/-- The document that some statements make. -/
def ofStatements (ss : List Statement) : Option Document := ss.foldlM add empty

def toTable (d : Document) : List (String × Toml) := membersToValues d.members

end Document

/-- The table that the entries between two braces make. -/
def tableOfEntries (es : List Entry) : Option Toml :=
  (es.foldlM (fun ms e => Members.addEntry e ms) []).map fun ms => .table (membersToValues ms)

end Dataflow.Toml
