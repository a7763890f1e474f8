import ScriptTags.Text.Bytes

/-!
# Directory trees

A **listing** is what a directory holds, in the order in which the directory is read: files with
their contents, and directories with listings of their own. A **node** is one of the two. Symbolic
links and permissions are left out.

Names inside a tree are followed one by one (`Node.get?`), and a tree changes when a node is **put**
at a list of names, where the directories on the way are made as needed.
-/

namespace ScriptTags

/-- A **listing** of a directory. -/
inductive Listing where
  | nil
  | file (name content : Bytes) (rest : Listing)
  | dir (name : Bytes) (inner rest : Listing)
  deriving DecidableEq, Repr

/-- A **node** of a tree. -/
inductive Node where
  | file (content : Bytes)
  | dir (inner : Listing)
  deriving DecidableEq, Repr

namespace Listing

/-- The node with this name. -/
def find? (name : Bytes) : Listing → Option Node
  | nil => none
  | file n content rest => if n = name then some (.file content) else rest.find? name
  | dir n inner rest => if n = name then some (.dir inner) else rest.find? name

/-- The node in front of a listing. -/
def cons (name : Bytes) (node : Node) (rest : Listing) : Listing :=
  match node with
  | .file content => file name content rest
  | .dir inner => dir name inner rest

/-- The listing with this node under this name: in place of the one it has, or at the end. -/
def set (name : Bytes) (node : Node) : Listing → Listing
  | nil => cons name node nil
  | file n content rest =>
    if n = name then cons name node rest else file n content (rest.set name node)
  | dir n inner rest => if n = name then cons name node rest else dir n inner (rest.set name node)

@[simp]
theorem find?_cons_self (name : Bytes) (node : Node) (rest : Listing) :
    (cons name node rest).find? name = some node := by
  cases node <;> simp [cons, find?]

theorem find?_cons_of_ne {name other : Bytes} (h : name ≠ other) (node : Node) (rest : Listing) :
    (cons name node rest).find? other = rest.find? other := by
  cases node <;> simp [cons, find?, h]

/-- A name that is set is found. -/
@[simp]
theorem find?_set_self (name : Bytes) (node : Node) (l : Listing) :
    (l.set name node).find? name = some node := by
  induction l with
  | nil => exact find?_cons_self name node .nil
  | file n content rest ih =>
    rw [set]
    split
    · exact find?_cons_self name node rest
    · next h => simp [find?, h, ih]
  | dir n inner rest _ ih =>
    rw [set]
    split
    · exact find?_cons_self name node rest
    · next h => simp [find?, h, ih]

/-- Setting a name leaves every other name as it is. -/
theorem find?_set_of_ne {name other : Bytes} (h : name ≠ other) (node : Node) (l : Listing) :
    (l.set name node).find? other = l.find? other := by
  induction l with
  | nil => exact find?_cons_of_ne h node .nil
  | file n content rest ih =>
    rw [set]
    split
    · next hn => rw [find?_cons_of_ne h]; simp [find?, hn, h]
    · simp [find?, ih]
  | dir n inner rest _ ih =>
    rw [set]
    split
    · next hn => rw [find?_cons_of_ne h]; simp [find?, hn, h]
    · simp [find?, ih]

/-- The listing of the directory with this name, empty if there is none. -/
def inside (l : Listing) (name : Bytes) : Listing :=
  match l.find? name with
  | some (.dir inner) => inner
  | _ => nil

/-- **Puts** a node at the end of a list of names. -/
def put (node : Node) : List Bytes → Listing → Listing
  | [], l => l
  | [name], l => l.set name node
  | name :: names, l => l.set name (.dir (put node names (l.inside name)))

end Listing

/-- The node that a list of names leads to. -/
def Node.get? : Node → List Bytes → Option Node
  | node, [] => some node
  | .file _, _ :: _ => none
  | .dir inner, name :: names => (inner.find? name).bind fun node => node.get? names

end ScriptTags
