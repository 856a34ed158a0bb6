import Mathlib

/-!
# YAML nodes

A document as a tree, with scalars as keys. `none` stands for the exception that the
library throws.
-/

namespace Lib

namespace Yaml

inductive Node
  | null
  | scalar (text : List UInt8)
  | seq (items : List Node)
  | map (entries : List (List UInt8 × Node))

namespace Node

/-- `node[key]` for a string: what is no map is made one, except for a scalar. The inner
`none` is a node that is not defined. -/
def get (key : List UInt8) : Node → Option (Option Node)
  | scalar _ => none
  | map entries => some (entries.lookup key)
  | _ => some none

/-- `node[0]` to `node[node.size() - 1]`; a map has other keys. -/
def items : Node → Option (List Node)
  | seq items => some items
  | map _ => none
  | _ => some []

/-- `as<std::string>()`. -/
def asString : Node → Option (List UInt8)
  | scalar text => some text
  | _ => none

/-- A node that was filled key by key, starting from null. -/
def ofEntries : List (List UInt8 × Node) → Node
  | [] => null
  | entries => map entries

/-- A node that was filled by `push_back`, starting from null. -/
def ofItems : List Node → Node
  | [] => null
  | items => seq items

theorem get_ofEntries (key : List UInt8) (entries : List (List UInt8 × Node)) :
    (ofEntries entries).get key = some (entries.lookup key) := by
  cases entries with
  | nil => rfl
  | cons e entries => rfl

theorem items_ofItems (l : List Node) : (ofItems l).items = some l := by
  cases l with
  | nil => rfl
  | cons n l => rfl

/-! ## Paths -/

section Paths

variable (join : List UInt8 → List UInt8 → List UInt8)

mutual

/-- A node and what is reached from it through maps, in document order, each with its path;
`join` adds a key to a path. -/
def members (path : List UInt8) : Node → List (List UInt8 × Node)
  | null => [(path, null)]
  | scalar text => [(path, scalar text)]
  | seq items => [(path, seq items)]
  | map entries => (path, map entries) :: entriesMembers path entries

def entriesMembers (path : List UInt8) :
    List (List UInt8 × Node) → List (List UInt8 × Node)
  | [] => []
  | (key, n) :: entries => members (join path key) n ++ entriesMembers path entries

end

/-- What is reached from a node through at least one map. -/
def reached (path : List UInt8) : Node → List (List UInt8 × Node)
  | map entries => entriesMembers join path entries
  | _ => []

theorem members_eq_cons (path : List UInt8) (n : Node) :
    n.members join path = (path, n) :: n.reached join path := by
  cases n with
  | map entries => rw [members, reached]
  | _ => rfl

end Paths

end Node

end Yaml

end Lib
