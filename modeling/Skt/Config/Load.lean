import Skt.Lib.CString
import Skt.Lib.Loops
import Skt.Lib.Yaml

/-!
# `Config::LoadFromYaml`

`ListAllMember` lists the nodes of a document with their dotted paths, and gives up below a
path that is no valid name; `LoadFromYaml` lowercases the paths that are left and hands each
node to the variable of that name.
-/

namespace Skt

namespace Config

open Lib Lib.CString

abbrev Name := List UInt8

/-- The characters of `"abcdefghijklmnopqrstuvwxyz._012345678"`. -/
def allowed (c : UInt8) : Bool :=
  (97 ≤ c && c ≤ 122) || c = 46 || c = 95 || (48 ≤ c && c ≤ 56)

/-- `find_first_not_of` finds nothing. -/
def valid (name : Name) : Bool := name.all allowed

/-- The names in `GetDatas()`, all of which have passed the check in `Lookup`. -/
structure Registry where
  has : Name → Bool
  checked : ∀ name, has name = true → valid name = true

namespace Registry

def empty : Registry := ⟨fun _ => false, fun _ h => by cases h⟩

/-- `Lookup(name, default_value, description)`, which throws for an invalid name. -/
def lookup (r : Registry) (name : Name) : Option Registry :=
  if r.has name then some r
  else if h : valid name = true then
    some
      { has := Function.update r.has name true
        checked := by
          intro n hn
          rw [Function.update_apply] at hn
          split_ifs at hn with heq
          · rw [heq]
            exact h
          · exact r.checked n hn }
  else none

end Registry

/-- The path of the entry `key` of a map. -/
def join (path key : List UInt8) : List UInt8 :=
  if path.isEmpty then key else path ++ 46 :: key

mutual

/-- `ListAllMember`. -/
def listAllMember (path : List UInt8) : Yaml.Node → List (List UInt8 × Yaml.Node)
  | .null => if valid path then [(path, .null)] else []
  | .scalar text => if valid path then [(path, .scalar text)] else []
  | .seq items => if valid path then [(path, .seq items)] else []
  | .map entries =>
      if valid path then (path, .map entries) :: listEntries path entries else []

/-- Its loop over the entries of a map. -/
def listEntries (path : List UInt8) :
    List (List UInt8 × Yaml.Node) → List (List UInt8 × Yaml.Node)
  | [] => []
  | (key, n) :: entries => listAllMember (join path key) n ++ listEntries path entries

end

/-- `std::transform(.., ::tolower)`. -/
def lower (key : List UInt8) : Name := key.map toLower

section Load

variable (emit : Yaml.Node → List UInt8)

/-- What `fromString` is called with. -/
def argument : Yaml.Node → List UInt8
  | .scalar text => text
  | n => emit n

/-- The call for a node, if its path is the name of a variable. -/
def callFor (r : Registry) (x : List UInt8 × Yaml.Node) : Option (Name × List UInt8) :=
  if r.has (lower x.1) then some (lower x.1, argument emit x.2) else none

/-- `Config::LoadFromYaml`: the variables on which `fromString` is called, with its
argument. -/
def loadFromYaml (r : Registry) (root : Yaml.Node) : List (Name × List UInt8) :=
  (listAllMember [] root).filterMap fun x => if x.1.isEmpty then none else callFor emit r x

end Load

/-! ## What is listed -/

theorem valid_of_join {path key : List UInt8} (h : valid (join path key) = true) :
    valid path = true := by
  rw [join] at h
  split_ifs at h with hnil
  · rw [List.isEmpty_iff.mp hnil]
    rfl
  · rw [valid, List.all_append, Bool.and_eq_true] at h
    exact h.1

mutual

/-- Below an invalid path there are only invalid ones. -/
theorem valid_of_mem_members {x : List UInt8 × Yaml.Node} : ∀ (n : Yaml.Node) {path : List UInt8},
    x ∈ n.members join path → valid x.1 = true → valid path = true
  | .null, path, hx, hvalid => by
      rw [Yaml.Node.members, List.mem_singleton] at hx
      rw [hx] at hvalid
      exact hvalid
  | .scalar text, path, hx, hvalid => by
      rw [Yaml.Node.members, List.mem_singleton] at hx
      rw [hx] at hvalid
      exact hvalid
  | .seq items, path, hx, hvalid => by
      rw [Yaml.Node.members, List.mem_singleton] at hx
      rw [hx] at hvalid
      exact hvalid
  | .map entries, path, hx, hvalid => by
      rw [Yaml.Node.members, List.mem_cons] at hx
      rcases hx with hx | hx
      · rw [hx] at hvalid
        exact hvalid
      · exact valid_of_mem_entries entries hx hvalid

theorem valid_of_mem_entries {x : List UInt8 × Yaml.Node} :
    ∀ (entries : List (List UInt8 × Yaml.Node)) {path : List UInt8},
      x ∈ Yaml.Node.entriesMembers join path entries → valid x.1 = true → valid path = true
  | [], path, hx, _ => by
      rw [Yaml.Node.entriesMembers] at hx
      cases hx
  | (key, n) :: entries, path, hx, hvalid => by
      rw [Yaml.Node.entriesMembers, List.mem_append] at hx
      rcases hx with hx | hx
      · exact valid_of_join (valid_of_mem_members n hx hvalid)
      · exact valid_of_mem_entries entries hx hvalid

end

theorem filter_members_of_invalid {path : List UInt8} (n : Yaml.Node) (h : ¬valid path = true) :
    (n.members join path).filter (fun x => valid x.1) = [] :=
  List.filter_eq_nil_iff.mpr fun _ hx hvalid => h (valid_of_mem_members n hx hvalid)

mutual

/-- Giving up below an invalid path loses exactly the invalid paths. -/
theorem listAllMember_eq : ∀ (n : Yaml.Node) (path : List UInt8),
    listAllMember path n = (n.members join path).filter fun x => valid x.1
  | .null, path => by
      rw [listAllMember, Yaml.Node.members, List.filter_singleton, Bool.cond_eq_ite]
  | .scalar text, path => by
      rw [listAllMember, Yaml.Node.members, List.filter_singleton, Bool.cond_eq_ite]
  | .seq items, path => by
      rw [listAllMember, Yaml.Node.members, List.filter_singleton, Bool.cond_eq_ite]
  | .map entries, path => by
      by_cases hvalid : valid path = true
      · rw [listAllMember, Yaml.Node.members, List.filter_cons, if_pos hvalid, if_pos hvalid,
          listEntries_eq entries path]
      · rw [listAllMember, if_neg hvalid, filter_members_of_invalid (.map entries) hvalid]

theorem listEntries_eq : ∀ (entries : List (List UInt8 × Yaml.Node)) (path : List UInt8),
    listEntries path entries =
      (Yaml.Node.entriesMembers join path entries).filter fun x => valid x.1
  | [], path => by rw [listEntries, Yaml.Node.entriesMembers, List.filter_nil]
  | (key, n) :: entries, path => by
      rw [listEntries, Yaml.Node.entriesMembers, List.filter_append, listAllMember_eq n,
        listEntries_eq entries]

end

/-! ## What is loaded -/

/-- The root has no path, and is skipped. -/
theorem loadFromYaml_eq (emit : Yaml.Node → List UInt8) (r : Registry) (root : Yaml.Node) :
    loadFromYaml emit r root =
      ((root.reached join []).filter fun x => valid x.1 && !x.1.isEmpty).filterMap
        (callFor emit r) := by
  have hroot : valid [] = true := rfl
  rw [loadFromYaml, listAllMember_eq, Yaml.Node.members_eq_cons, List.filter_cons, if_pos hroot,
    List.filterMap_cons_none rfl, List.filterMap_filter, List.filterMap_filter]
  refine List.filterMap_congr fun x _ => ?_
  cases valid x.1 <;> cases x.1.isEmpty <;> rfl

theorem allowed_iff_toLower_eq {c : UInt8} (h : allowed (toLower c) = true) :
    allowed c = true ↔ toLower c = c := by
  rw [toLower] at h ⊢
  split_ifs at h ⊢ with hc
  · obtain ⟨hlow, hhigh⟩ := hc
    rw [UInt8.le_iff_toNat_le] at hlow hhigh
    refine iff_of_false (fun hallowed => ?_) (fun heq => ?_)
    · simp [allowed, UInt8.le_iff_toNat_le, ← UInt8.toNat_inj] at hallowed hlow hhigh
      omega
    · simp [← UInt8.toNat_inj] at heq
  · exact iff_of_true h rfl

/-- A name is valid if the path it was lowercased from has no capital letter, and only
then. -/
theorem valid_iff_lower_eq {path : List UInt8} (h : valid (lower path) = true) :
    valid path = true ↔ lower path = path := by
  rw [valid, lower, List.all_map, List.all_eq_true] at h
  rw [valid, lower, List.all_eq_true, map_eq_self_iff]
  exact forall₂_congr fun c hc => allowed_iff_toLower_eq (h c hc)

/-- **Loading.** `LoadFromYaml` calls `fromString` for the nodes that are reached through
maps, in document order and on the variables that their lowercased paths name, if and only
if no path with a capital letter names a variable (and no empty one, which takes an empty
key). -/
theorem loadFromYaml_iff (emit : Yaml.Node → List UInt8) (r : Registry) (root : Yaml.Node) :
    loadFromYaml emit r root = (root.reached join []).filterMap (callFor emit r) ↔
      ∀ x ∈ root.reached join [], r.has (lower x.1) = true → lower x.1 = x.1 ∧ x.1 ≠ [] := by
  rw [loadFromYaml_eq, filterMap_filter_eq_iff]
  refine forall₂_congr fun x _ => ?_
  by_cases hhas : r.has (lower x.1) = true
  · have hcall : callFor emit r x ≠ none := by
      rw [callFor, if_pos hhas]
      exact Option.some_ne_none _
    rw [← valid_iff_lower_eq (r.checked _ hhas)]
    simp [hcall, hhas]
  · have hcall : callFor emit r x = none := if_neg hhas
    simp [hcall, hhas]

/-- A registry with the one variable `port`. -/
def onlyPort : Registry where
  has name := name = bytes "port"
  checked name h := by
    rw [decide_eq_true_eq] at h
    rw [h]
    decide

/-- The document `Port: 80`. -/
def capital : Yaml.Node := .map [(bytes "Port", .scalar (bytes "80"))]

/-- The variable `port` is named by a lowercased path, but is not loaded. -/
theorem loadFromYaml_capital : loadFromYaml (fun _ => bytes "Port: 80") onlyPort capital = [] ∧
    (capital.reached join []).filterMap (callFor (fun _ => bytes "Port: 80") onlyPort) =
      [(bytes "port", bytes "80")] := by
  constructor <;> decide

end Config

end Skt
