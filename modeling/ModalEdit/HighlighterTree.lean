import ModalEdit.Entries
import ModalEdit.RegistryError
import ModalEdit.Text.Bytes
import ModalEdit.Text.Split

/-!
# Highlighter trees

The highlighters of a scope form a tree of named groups. A path such as
`code/strings` names a nested group; the empty path is the group itself, and one
slash at the end of a path means nothing.
-/

namespace ModalEdit

/-- A member of a group. -/
inductive HighlighterNode (H : Type) where
  | leaf (highlighter : H)
  | group (children : List (String × HighlighterNode H))
  deriving Repr

/-- Named highlighters and groups in order. -/
abbrev HighlighterGroup (H : Type) := Entries (HighlighterNode H)

/-- Whether a node is a group. -/
def HighlighterNode.isGroup {H : Type} : HighlighterNode H → Bool
  | .leaf _ => false
  | .group _ => true

namespace HighlighterGroup

variable {H : Type}

/-- Adds a member at the end. -/
def add (group : HighlighterGroup H) (name : String) (node : HighlighterNode H) :
    Except RegistryError (HighlighterGroup H) :=
  if group.contains name then .error (.duplicateName "highlighter" name)
  else .ok (group.append name node)

/-- Removes a member and returns it. -/
def remove (group : HighlighterGroup H) (name : String) :
    Except RegistryError (HighlighterNode H × HighlighterGroup H) :=
  match group.get? name with
  | some node => .ok (node, group.erase name)
  | none => .error (.notFound "highlighter" name)

/-! ## Paths -/

/-- The group names of a path. -/
def segments (path : String) : List String :=
  if path.isEmpty then []
  else
    let parts := (Text.splitAll '/' path.toList).map String.ofList
    if parts.getLast? = some "" then parts.dropLast else parts

/-- The group that is a child with that name. -/
def subgroup? (group : HighlighterGroup H) (name : String) : Option (HighlighterGroup H) :=
  match group.get? name with
  | some (.group children) => some children
  | _ => none

/-- The group reached through the given names. -/
def descend (group : HighlighterGroup H) : List String → Except RegistryError (HighlighterGroup H)
  | [] => .ok group
  | name :: rest =>
    match group.subgroup? name with
    | some child => descend child rest
    | none => .error (.notFound "highlighter group" name)

/-- The group at a path. -/
def getGroup (group : HighlighterGroup H) (path : String) :
    Except RegistryError (HighlighterGroup H) :=
  group.descend (segments path)

/-- Changes the group reached through the given names. -/
def updateAt {α : Type}
    (f : HighlighterGroup H → Except RegistryError (α × HighlighterGroup H))
    (group : HighlighterGroup H) :
    List String → Except RegistryError (α × HighlighterGroup H)
  | [] => f group
  | name :: rest =>
    match group.subgroup? name with
    | some child =>
      (updateAt f child rest).map fun (result, child) =>
        (result, group.put name (.group child))
    | none => .error (.notFound "highlighter group" name)

/-- Changes the group at a path. -/
def updateGroup {α : Type} (group : HighlighterGroup H) (path : String)
    (f : HighlighterGroup H → Except RegistryError (α × HighlighterGroup H)) :
    Except RegistryError (α × HighlighterGroup H) :=
  updateAt f group (segments path)

/-! ## Completion -/

/-- Completes the names of child groups. -/
def completeChildren (group : HighlighterGroup H) (query : List Char) (cursor : Nat) :
    Completions :=
  group.completeIf (·.isGroup) (String.ofList query) cursor

/-- The completions of a group for the whole path, `head` being the name of the group. -/
def rooted (head : List Char) (offset : Nat) (c : Completions) : Completions :=
  ⟨c.candidates.map fun candidate => String.ofList head ++ "/" ++ candidate, 0, c.stop + offset⟩

/-- Completes a group path. As long as the first name before a slash is that of a group, the rest
is completed in there; `cursor` is a character boundary of `query`. -/
def completePath (group : HighlighterGroup H) (query : List Char) (cursor : Nat) : Completions :=
  match _h : Text.splitFirst '/' (Text.takeBytes query cursor) with
  | some (head, _) =>
    match group.subgroup? (String.ofList head) with
    | some child =>
      let offset := Text.byteLength head + 1
      rooted head offset (completePath child (query.drop (head.length + 1)) (cursor - offset))
    | none => group.completeChildren query cursor
  | none => group.completeChildren query cursor
  termination_by query.length
  decreasing_by
    have hq := congrArg List.length (Text.takeBytes_append_dropBytes query cursor)
    have hs := congrArg List.length (Text.splitFirst_eq _h)
    simp only [List.length_append, List.length_cons, List.length_drop] at *
    omega

/-- Completes a group path before the cursor. -/
def complete (group : HighlighterGroup H) (query : String) (cursor : Nat) : Completions :=
  group.completePath query.toList (Text.floorBoundary query.toList cursor)

end HighlighterGroup

/-! ## Visiting -/

mutual

/-- The highlighters of a node, depth first. -/
def HighlighterNode.leaves {H : Type} : HighlighterNode H → List H
  | .leaf highlighter => [highlighter]
  | .group children => leavesOf children

/-- The highlighters of the members of a group, depth first and in order. -/
def HighlighterNode.leavesOf {H : Type} : List (String × HighlighterNode H) → List H
  | [] => []
  | (_, node) :: rest => node.leaves ++ leavesOf rest

end

/-- The highlighters of a group, depth first and in order. -/
def HighlighterGroup.leaves {H : Type} (group : HighlighterGroup H) : List H :=
  HighlighterNode.leavesOf group

end ModalEdit
