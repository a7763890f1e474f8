import ScriptTags.Text.Quoted
import ScriptTags.Toml.Binary64
import ScriptTags.Toml.Fault

/-!
# TOML values

A document is a table of keys and values in the order in which the keys first appear. How a table
came about, its **origin**, decides what later lines may still add to it:

* a `literal` one, written as a value, is closed;
* one with a `header` of its own may get subtables, but no second header and no dotted keys from
  outside;
* an `implied` one, a step on the way of some header, may still get a header;
* a `dotted` one, a step on the way of some dotted key, grows by dotted keys only.

Arrays are of two kinds: those written as values, which are closed, and **arrays of tables**, which
every header of theirs gives one more element. Adding to a table follows a path of keys, and a step
through an array of tables leads to its latest element.
-/

namespace ScriptTags.Toml

/-- How a table came about. -/
inductive Origin where
  | literal
  | header
  | implied
  | dotted
  deriving DecidableEq, Repr

/-- A **value**. -/
inductive Value where
  | string (s : String)
  | integer (i : Int)
  | float (x : Binary64)
  | boolean (b : Bool)
  /-- A date, a time, or both. What it says is not kept. -/
  | datetime
  | array (items : List Value)
  /-- An array of tables, the latest first. -/
  | tables (latestFirst : List Value)
  | table (origin : Origin) (entries : List (String × Value))
  deriving Repr

/-- The items of an array of either kind, in order. -/
def Value.items? : Value → Option (List Value)
  | array items => some items
  | tables latestFirst => some latestFirst.reverse
  | _ => none

/-- The kind of a value. -/
def Value.kind : Value → Kind
  | string _ => .string
  | integer _ => .integer
  | float _ => .float
  | boolean _ => .boolean
  | datetime => .datetime
  | array _ | tables _ => .array
  | table _ _ => .inlineTable

/-- A character of a bare key. -/
def isBareChar (c : Char) : Bool :=
  c.isAlphanum || c == '-' || c == '_'

/-- A key as a header writes it: in quotation marks unless it can be bare. -/
def keyText (key : String) : String :=
  if key != "" && key.toList.all isBareChar then key else Text.quote key

/-- How a path of keys is **written**: in a header, with dots, or with dots inside of braces. -/
inductive Route where
  | header
  | dots
  | braces
  deriving DecidableEq, Repr

/-- The origin of a table that is made on the way. -/
def Route.origin : Route → Origin
  | header => .implied
  | dots | braces => .dotted

/-- The entries of a table, in order. -/
abbrev Entries := List (String × Value)

/-- A **table** with its origin. -/
structure Table where
  origin : Origin
  entries : Entries := []
  deriving Repr

namespace Table

/-- The table as a value. -/
def toValue (t : Table) : Value :=
  .table t.origin t.entries

/-- The table with one more entry at the end. -/
def push (t : Table) (key : String) (value : Value) : Table :=
  { t with entries := t.entries ++ [(key, value)] }

/-- The table with another value for a key that it has. -/
def replace (t : Table) (key : String) (value : Value) : Table :=
  { t with entries := t.entries.map fun e => if e.1 == key then (key, value) else e }

/-- The table without a key. -/
def erase (t : Table) (key : String) : Table :=
  { t with entries := t.entries.filter fun e => e.1 != key }

/-- Changes the table at the end of a path. Missing tables on the way are made; `walked` are the
names that have led to `t`. -/
def update (route : Route) (walked : List String) :
    List String → (Table → Except Fault Table) → Table → Except Fault Table
  | [], change, t => change t
  | key :: path, change, t =>
    let walked := walked ++ [key]
    match t.entries.lookup key with
    | none => do
      return t.push key (← update route walked path change ⟨route.origin, []⟩).toValue
    | some (.table origin entries) => do
      if route = .braces ∧ origin = .literal ∨ route = .dots ∧ origin = .header then
        throw (.duplicateKey key none)
      if origin = .literal then throw (.notTable walked .inlineTable)
      return t.replace key (← update route walked path change ⟨origin, entries⟩).toValue
    | some (.tables (.table origin entries :: earlier)) => do
      let child ← update route walked path change ⟨origin, entries⟩
      return t.replace key (.tables (child.toValue :: earlier))
    | some value => throw (.notTable walked value.kind)

/-- Adds `key = value` at the end of a path of dots. The last table on a path of dots has to be one
that dotted keys made. A key that is there already is told with the table `names`. -/
def insert (route : Route) (names : Option (List String)) (path : List String) (key : String)
    (value : Value) (t : Table) : Except Fault Table :=
  t.update route [] path fun last =>
    if !path.isEmpty && last.origin != .dotted then .error (.duplicateKey key none)
    else if (last.entries.lookup key).isSome then .error (.duplicateKey key names)
    else .ok (last.push key value)

/-- Makes the table of a header. An implied table gets its header and moves to the end. -/
def openTable (path : List String) (key : String) (t : Table) : Except Fault Table :=
  t.update .header [] path fun last =>
    match last.entries.lookup key with
    | none => .ok (last.push key (.table .header []))
    | some (.table .implied entries) => .ok ((last.erase key).push key (.table .header entries))
    | some _ => .error (.duplicateKey (keyText key) (some path))

/-- Adds an element to the array of tables of a header. -/
def openElement (path : List String) (key : String) (t : Table) : Except Fault Table :=
  t.update .header [] path fun last =>
    let element := Value.table .header []
    match last.entries.lookup key with
    | none => .ok (last.push key (.tables [element]))
    | some (.tables latestFirst) => .ok (last.replace key (.tables (element :: latestFirst)))
    | some _ => .error (.duplicateKey (keyText key) (some path))

end Table

/-- A **key**: a path of dots, and the name at its end. -/
structure Key where
  path : List String
  name : String
  deriving DecidableEq, Repr

/-- All names of a key in order. -/
def Key.names (k : Key) : List String :=
  k.path ++ [k.name]

/-- The table that literal entries in braces make. -/
def inlineTable (entries : List (Key × Value)) : Except Fault Table :=
  entries.foldlM (fun t e => t.insert .braces none e.1.path e.1.name e.2) ⟨.literal, []⟩

/-- A **statement** of a document. -/
inductive Statement where
  | entry (key : Key) (value : Value)
  | table (key : Key)
  | element (key : Key)
  deriving Repr

/-- A document while its statements are carried out: all of its tables, and the path of the one that
entries go to. -/
structure Draft where
  root : Table := ⟨.header, []⟩
  path : List String := []
  deriving Repr

/-- Carries out a statement. -/
def Draft.run (d : Draft) : Statement → Except Fault Draft
  | .entry key value => do
    let insert := Table.insert .dots (some d.path) key.path key.name value
    return { d with root := ← d.root.update .header [] d.path insert }
  | .table key => do
    return ⟨← d.root.openTable key.path key.name, key.names⟩
  | .element key => do
    return ⟨← d.root.openElement key.path key.name, key.names⟩

end ScriptTags.Toml
