import ModalEdit.HighlighterTree
import ModalEdit.Proofs.NamedEntries

/-!
# Paths of highlighter groups

A tree of highlighters, and the paths by which its groups are completed and looked up. `Reaches`
goes down the tree name by name and knows no paths; `pathOf` writes the names with slashes between
them. Which tree there is does not matter as long as no group has two members with one name, and
that holds of all that calls make (`Built.distinct`).

A path is taken apart at its slashes, so it tells its names only if there is none in them, and a
slash at its end means nothing, so it does not tell an empty name there (`segments_pathOf_iff`).
Nothing keeps such names out of a tree. Their groups are offered and not found
(`slashed_group_is_lost`); all others are (`groups_are_addressed`).
-/

namespace ModalEdit.HighlighterGroup

variable {H α : Type}

/-! ## Trees that are built -/

/-- A call on a group. -/
inductive Call (H : Type) where
  | append (name : String) (highlighter : H)
  | addGroup (name : String)
  | addNode (name : String) (node : HighlighterNode H)
  | remove (name : String)

/-- The group after a call, with the member that it takes out. -/
def Call.act : Call H → HighlighterGroup H →
    Except RegistryError (Option (HighlighterNode H) × HighlighterGroup H)
  | .append name highlighter, group => (group.add name (.leaf highlighter)).map (none, ·)
  | .addGroup name, group => (group.add name (.group [])).map (none, ·)
  | .addNode name node, group => (group.add name node).map (none, ·)
  | .remove name, group => (group.remove name).map fun (node, rest) => (some node, rest)

/-- The trees that calls on the groups at any paths make of the empty one, the groups that are
added being built in the same way. -/
inductive Built : HighlighterGroup H → Prop where
  | new : Built []
  | step {tree tree' path call answer} (hbuilt : Built tree)
    (hnode : ∀ name children, call = .addNode name (.group children) → Built children)
    (hcall : tree.updateGroup path (Call.act call) = .ok (answer, tree')) : Built tree'

/-- No group has two members with one name. -/
inductive Distinct : HighlighterGroup H → Prop where
  | intro {group} (hnames : group.names.Nodup)
    (hchildren : ∀ name children, (name, .group children) ∈ group → Distinct children) :
    Distinct group

/-- `Reaches tree names sub`: the names, each that of a group in the one before, lead to `sub`. -/
inductive Reaches : HighlighterGroup H → List String → HighlighterGroup H → Prop where
  | here {group} : Reaches group [] group
  | inside {group name child names sub} (hmem : (name, .group child) ∈ group)
    (hrest : Reaches child names sub) : Reaches group (name :: names) sub

/-- `Replaced tree names new tree'`: `tree'` is `tree` with `new` for the group that the names lead
to. -/
inductive Replaced : HighlighterGroup H → List String → HighlighterGroup H → HighlighterGroup H →
    Prop where
  | here {group new} : Replaced group [] new new
  | inside {before name child after names new child'} (hrest : Replaced child names new child') :
    Replaced (before ++ (name, .group child) :: after) (name :: names) new
      (before ++ (name, .group child') :: after)

theorem Distinct.names_nodup {group : HighlighterGroup H} (h : group.Distinct) :
    group.names.Nodup := by
  cases h with
  | intro hnames => exact hnames

theorem Distinct.child {group child : HighlighterGroup H} {name : String} (h : group.Distinct)
    (hmem : (name, .group child) ∈ group) : child.Distinct := by
  cases h with
  | intro _ hchildren => exact hchildren _ _ hmem

theorem Distinct.subgroup?_eq_some_iff {group child : HighlighterGroup H} {name : String}
    (h : group.Distinct) : group.subgroup? name = some child ↔ (name, .group child) ∈ group := by
  unfold subgroup?
  constructor
  · intro hsub
    split at hsub
    next children hget =>
      cases hsub
      exact Entries.mem_of_get? hget
    next => cases hsub
  · intro hmem
    rw [Entries.get?_of_mem h.names_nodup hmem]

theorem Distinct.reaches_cons_iff {group sub : HighlighterGroup H} {name : String}
    {names : List String} (h : group.Distinct) : Reaches group (name :: names) sub ↔
      ∃ child, group.subgroup? name = some child ∧ Reaches child names sub := by
  constructor
  · rintro (_ | ⟨hmem, hrest⟩)
    exact ⟨_, h.subgroup?_eq_some_iff.mpr hmem, hrest⟩
  · rintro ⟨child, hsub, hrest⟩
    exact .inside (h.subgroup?_eq_some_iff.mp hsub) hrest

theorem Reaches.descend_eq {tree sub : HighlighterGroup H} {names : List String}
    (h : Reaches tree names sub) (hdistinct : tree.Distinct) : tree.descend names = .ok sub := by
  induction h with
  | here => rfl
  | inside hmem _ ih =>
    rw [descend, hdistinct.subgroup?_eq_some_iff.mpr hmem]
    exact ih (hdistinct.child hmem)

/-! ## Changing a group of a tree -/

/-- The same members with another group in the place of one. -/
theorem Distinct.replace {before after : HighlighterGroup H} {name : String}
    {child child' : HighlighterGroup H}
    (h : Distinct (before ++ (name, .group child) :: after)) (hnew : child'.Distinct) :
    Distinct (before ++ (name, .group child') :: after) := by
  refine .intro (by simpa [Entries.names] using h.names_nodup) fun other children hmem => ?_
  rcases List.mem_append.mp hmem with hbefore | hrest
  · exact h.child (List.mem_append_left _ hbefore)
  rcases List.mem_cons.mp hrest with heq | hafter
  · cases heq
    exact hnew
  · exact h.child (List.mem_append_right _ (List.mem_cons_of_mem _ hafter))

theorem exists_of_map_eq_ok {ε β : Type} {x : Except ε α} {g : α → β} {b : β}
    (h : x.map g = .ok b) : ∃ a, x = .ok a ∧ g a = b := by
  cases x with
  | error => cases h
  | ok a => exact ⟨a, rfl, Except.ok.inj h⟩

section Updating

variable {f : HighlighterGroup H → Except RegistryError (α × HighlighterGroup H)}
  {tree tree' sub new : HighlighterGroup H} {name : String} {names : List String} {a : α}

theorem Reaches.updateAt_error {e : RegistryError} (h : Reaches tree names sub)
    (hdistinct : tree.Distinct) (hf : f sub = .error e) : updateAt f tree names = .error e := by
  induction h with
  | here => exact hf
  | inside hmem _ ih =>
    rw [updateAt, hdistinct.subgroup?_eq_some_iff.mpr hmem]
    dsimp only
    rw [ih (hdistinct.child hmem) hf]
    rfl

theorem Reaches.updateAt_ok (h : Reaches tree names sub) (hdistinct : tree.Distinct)
    (hf : f sub = .ok (a, new)) :
    ∃ tree', updateAt f tree names = .ok (a, tree') ∧ Replaced tree names new tree' := by
  induction h with
  | here => exact ⟨_, hf, .here⟩
  | @inside group name child names sub hmem _ ih =>
    obtain ⟨child', hchild', hreplaced⟩ := ih (hdistinct.child hmem) hf
    obtain ⟨before, after, rfl⟩ := List.append_of_mem hmem
    refine ⟨before ++ (name, .group child') :: after, ?_, .inside hreplaced⟩
    -- no other member has the name, so only this one is written
    have hput := Entries.put_append_cons hdistinct.names_nodup (.group child')
    rw [updateAt, hdistinct.subgroup?_eq_some_iff.mpr hmem]
    dsimp only
    rw [hchild', Except.map, hput]

/-- Names stay distinct if they do in the group that is changed. -/
theorem Distinct.updateAt (hdistinct : tree.Distinct)
    (hf : ∀ {sub a new}, sub.Distinct → f sub = .ok (a, new) → new.Distinct)
    (h : updateAt f tree names = .ok (a, tree')) : tree'.Distinct := by
  induction names generalizing a tree tree' with
  | nil => exact hf hdistinct h
  | cons name names ih =>
    rw [HighlighterGroup.updateAt] at h
    split at h
    next child hsub =>
      obtain ⟨⟨_, child'⟩, hchild', heq⟩ := exists_of_map_eq_ok h
      obtain ⟨-, rfl⟩ := Prod.mk.inj heq
      have hmem := hdistinct.subgroup?_eq_some_iff.mp hsub
      have hnew : child'.Distinct := ih (hdistinct.child hmem) hchild'
      obtain ⟨before, after, rfl⟩ := List.append_of_mem hmem
      rw [Entries.put_append_cons hdistinct.names_nodup]
      exact hdistinct.replace hnew
    next => cases h

end Updating

/-! ## What is built is distinct -/

theorem distinct_nil : Distinct ([] : HighlighterGroup H) :=
  .intro List.nodup_nil fun _ _ hmem => nomatch hmem

theorem Distinct.append {group : HighlighterGroup H} {name : String} {node : HighlighterNode H}
    (h : group.Distinct) (hfree : name ∉ group.names)
    (hnode : ∀ children, node = .group children → Distinct children) :
    Distinct (group.append name node) := by
  refine .intro (Entries.nodup_names_append h.names_nodup hfree) fun other children hmem => ?_
  rcases List.mem_append.mp hmem with hold | hnew
  · exact h.child hold
  · exact hnode children (Prod.mk.inj (List.mem_singleton.mp hnew)).2.symm

theorem Distinct.erase {group : HighlighterGroup H} (h : group.Distinct) (name : String) :
    Distinct (group.erase name) :=
  .intro (h.names_nodup.sublist (List.filter_sublist.map _)) fun _ _ hmem =>
    h.child (List.mem_of_mem_filter hmem)

theorem add_eq_ok {group group' : HighlighterGroup H} {name : String} {node : HighlighterNode H}
    (h : group.add name node = .ok group') :
    name ∉ group.names ∧ group' = group.append name node := by
  rw [add, Entries.contains_eq] at h
  split at h
  · cases h
  next hfree => exact ⟨by simpa using hfree, (Except.ok.inj h).symm⟩

theorem remove_eq_ok {group rest : HighlighterGroup H} {name : String} {node : HighlighterNode H}
    (h : group.remove name = .ok (node, rest)) : rest = group.erase name := by
  unfold remove at h
  split at h
  · exact (Prod.mk.inj (Except.ok.inj h)).2.symm
  · cases h

/-- Adding a member whose own members are distinct. -/
theorem Distinct.add {group new : HighlighterGroup H} {name : String} {node : HighlighterNode H}
    {removed : Option (HighlighterNode H)} (h : group.Distinct)
    (hnode : ∀ children, node = .group children → Distinct children)
    (hadd : (group.add name node).map (none, ·) = .ok (removed, new)) : new.Distinct := by
  obtain ⟨group', hgroup', heq⟩ := exists_of_map_eq_ok hadd
  obtain ⟨-, rfl⟩ := Prod.mk.inj heq
  obtain ⟨hfree, rfl⟩ := add_eq_ok hgroup'
  exact h.append hfree hnode

theorem Distinct.act {group new : HighlighterGroup H} {call : Call H}
    {removed : Option (HighlighterNode H)} (h : group.Distinct)
    (hnode : ∀ name children, call = .addNode name (.group children) → Distinct children)
    (hact : call.act group = .ok (removed, new)) : new.Distinct := by
  cases call with
  | append name highlighter =>
    refine h.add (fun children hleaf => ?_) hact
    cases hleaf
  | addGroup name =>
    refine h.add (fun children hempty => ?_) hact
    cases hempty
    exact distinct_nil
  | addNode name node =>
    refine h.add (fun children hgroup => ?_) hact
    exact hnode name children (by rw [hgroup])
  | remove name =>
    obtain ⟨⟨node, rest⟩, hrest, heq⟩ := exists_of_map_eq_ok hact
    obtain ⟨-, rfl⟩ := Prod.mk.inj heq
    rw [remove_eq_ok hrest]
    exact h.erase name

theorem Built.distinct {tree : HighlighterGroup H} (h : tree.Built) : tree.Distinct := by
  induction h with
  | new => exact distinct_nil
  | step _ _ hcall ih hnode =>
    exact ih.updateAt (fun hsub hact => hsub.act hnode hact) hcall

/-! ## Paths that are read back -/

/-- The names with slashes between them. -/
def pathText (names : List String) : List Char :=
  Text.joinWith '/' (names.map String.toList)

/-- The path that the names make. -/
def pathOf (names : List String) : String := String.ofList (pathText names)

theorem pathText_cons {name : String} {names : List String} (h : names ≠ []) :
    pathText (name :: names) = name.toList ++ '/' :: pathText names :=
  Text.joinWith_cons (by simpa using h)

theorem pathOf_singleton (name : String) : pathOf [name] = name := String.ofList_toList

theorem pathOf_cons {name : String} {names : List String} (h : names ≠ []) :
    pathOf (name :: names) = name ++ "/" ++ pathOf names := by
  refine String.ext ?_
  simp [pathOf, pathText_cons h]

theorem splitAll_pathText {names : List String} (hsome : names ≠ [])
    (hslash : ∀ name ∈ names, '/' ∉ name.toList) :
    (Text.splitAll '/' (pathText names)).map String.ofList = names := by
  rw [pathText, Text.splitAll_joinWith (by simpa using hsome) (by simpa using hslash)]
  simp

/-- One empty name at the end is not read. -/
theorem segments_pathOf {names : List String} (hslash : ∀ name ∈ names, '/' ∉ name.toList) :
    segments (pathOf names) = if names.getLast? = some "" then names.dropLast else names := by
  by_cases hnil : names = []
  · subst hnil
    rfl
  have hparts := splitAll_pathText hnil hslash
  unfold segments
  split
  next hempty =>
    -- the empty path is that of one empty name
    have htext : pathText names = [] := by simpa [pathOf] using hempty
    rw [htext] at hparts
    subst hparts
    rfl
  next => simp only [pathOf, String.toList_ofList, hparts]

theorem notMem_of_mem_segments {path name : String} (h : name ∈ segments path) :
    '/' ∉ name.toList := by
  have hpart : name ∈ (Text.splitAll '/' path.toList).map String.ofList := by
    unfold segments at h
    split at h
    · cases h
    dsimp only at h
    split at h
    · exact (List.dropLast_sublist _).subset h
    · exact h
  obtain ⟨part, hmem, rfl⟩ := List.mem_map.mp hpart
  rw [String.toList_ofList]
  exact Text.notMem_of_mem_splitAll hmem

/-- A path tells the names that it is made of if there is no slash in them and the last one is not
empty. -/
theorem segments_pathOf_iff {names : List String} : segments (pathOf names) = names ↔
    (∀ name ∈ names, '/' ∉ name.toList) ∧ names.getLast? ≠ some "" := by
  constructor
  · intro h
    have hslash : ∀ name ∈ names, '/' ∉ name.toList := fun name hmem =>
      notMem_of_mem_segments (h.symm ▸ hmem)
    refine ⟨hslash, fun hlast => ?_⟩
    rw [segments_pathOf hslash, if_pos hlast] at h
    have hlength := congrArg List.length h
    have hsome : names ≠ [] := by
      rintro rfl
      cases hlast
    have := List.length_pos_of_ne_nil hsome
    rw [List.length_dropLast] at hlength
    omega
  · rintro ⟨hslash, hlast⟩
    rw [segments_pathOf hslash, if_neg hlast]

/-! ## Completions of paths -/

/-- The names of the groups in a group. -/
def groupNames (group : HighlighterGroup H) : List String :=
  Entries.names (group.filter fun entry => entry.2.isGroup)

theorem mem_groupNames {group : HighlighterGroup H} {name : String} :
    name ∈ group.groupNames ↔ ∃ child, (name, .group child) ∈ group := by
  constructor
  · intro h
    obtain ⟨⟨_, node⟩, hentry, rfl⟩ := List.mem_map.mp h
    obtain ⟨hmem, hgroup⟩ := List.mem_filter.mp hentry
    cases node with
    | leaf highlighter => cases hgroup
    | group child => exact ⟨child, hmem⟩
  · rintro ⟨child, hmem⟩
    exact List.mem_map.mpr ⟨_, List.mem_filter.mpr ⟨hmem, rfl⟩, rfl⟩

/-- The completions of a query with the cursor behind `typed`. -/
def completeTyped (group : HighlighterGroup H) (typed rest : List Char) : Completions :=
  group.completePath (typed ++ rest) (Text.byteLength typed)

/-- The groups in a group whose names start with what is typed. -/
def matching (group : HighlighterGroup H) (typed : List Char) : Completions :=
  ⟨group.groupNames.filter fun name => typed.isPrefixOf name.toList, 0, Text.byteLength typed⟩

theorem completeChildren_append (group : HighlighterGroup H) (typed rest : List Char) :
    group.completeChildren (typed ++ rest) (Text.byteLength typed) = group.matching typed := by
  rw [completeChildren, Entries.completeIf, Entries.complete, Completions.ofNames,
    Completions.typed, Completions.floor, String.toList_ofList, Text.takeBytes_append,
    Text.floorBoundary_append]
  rfl

theorem completeTyped_last (group : HighlighterGroup H) {last : List Char} (hlast : '/' ∉ last)
    (rest : List Char) : group.completeTyped last rest = group.matching last := by
  rw [completeTyped, ← completeChildren_append group last rest]
  unfold completePath
  split
  next hsplit =>
    rw [Text.takeBytes_append, Text.splitFirst_of_notMem hlast] at hsplit
    cases hsplit
  next => rfl

/-- The first name before a slash is gone into if it is that of a group. -/
theorem completeTyped_slash (group : HighlighterGroup H) {dir : List Char} (hdir : '/' ∉ dir)
    (typed rest : List Char) : group.completeTyped (dir ++ '/' :: typed) rest =
      match group.subgroup? (String.ofList dir) with
      | some child => rooted dir (Text.byteLength dir + 1) (child.completeTyped typed rest)
      | none => group.matching (dir ++ '/' :: typed) := by
  rw [← completeChildren_append group _ rest, completeTyped, completePath]
  split
  next head tail hsplit =>
    rw [Text.takeBytes_append, Text.splitFirst_append hdir] at hsplit
    obtain ⟨rfl, rfl⟩ := Prod.mk.inj (Option.some.inj hsplit)
    cases group.subgroup? (String.ofList dir) with
    | none => rfl
    | some child =>
      have hslash : ('/' : Char).utf8Size = 1 := by decide
      have hcursor : Text.byteLength (dir ++ '/' :: typed) - (Text.byteLength dir + 1) =
          Text.byteLength typed := by
        rw [Text.byteLength_append, Text.byteLength_cons, hslash]
        omega
      have hdrop : (dir ++ '/' :: typed ++ rest).drop (dir.length + 1) = typed ++ rest := by
        simp
      dsimp only
      rw [hcursor, hdrop, completeTyped]
  next hsplit =>
    rw [Text.takeBytes_append, Text.splitFirst_append hdir] at hsplit
    cases hsplit

theorem pathText_append_cons {dir last : String} {dirs : List String} :
    pathText (dir :: dirs ++ [last]) = dir.toList ++ '/' :: pathText (dirs ++ [last]) :=
  pathText_cons (by simp)

theorem pathText_singleton (name : String) : pathText [name] = name.toList := rfl

/-- Every text is made of names without a slash. -/
theorem exists_pathText (text : List Char) : ∃ dirs last,
    text = pathText (dirs ++ [last]) ∧ ∀ name ∈ dirs ++ [last], '/' ∉ name.toList := by
  have hsome : (Text.splitAll '/' text).map String.ofList ≠ [] := by
    simpa using Text.splitAll_ne_nil '/' text
  obtain ⟨dirs, last, heq⟩ := (List.eq_nil_or_concat' _).resolve_left hsome
  refine ⟨dirs, last, ?_, fun name hmem => ?_⟩
  · have hparts : ((Text.splitAll '/' text).map String.ofList).map String.toList =
        Text.splitAll '/' text := by
      simp
    rw [← heq, pathText, hparts, Text.joinWith_splitAll]
  · rw [← heq] at hmem
    obtain ⟨part, hpart, rfl⟩ := List.mem_map.mp hmem
    rw [String.toList_ofList]
    exact Text.notMem_of_mem_splitAll hpart

/-- All that is typed is replaced. -/
theorem completeTyped_range (group : HighlighterGroup H) {dirs : List String} {last : String}
    (hslash : ∀ name ∈ dirs ++ [last], '/' ∉ name.toList) (rest : List Char) :
    (group.completeTyped (pathText (dirs ++ [last])) rest).start = 0 ∧
      (group.completeTyped (pathText (dirs ++ [last])) rest).stop =
        Text.byteLength (pathText (dirs ++ [last])) := by
  induction dirs generalizing group with
  | nil =>
    rw [List.nil_append, pathText_singleton, completeTyped_last group (hslash last (by simp))]
    exact ⟨rfl, rfl⟩
  | cons dir dirs ih =>
    obtain ⟨hdir, hdirs⟩ := List.forall_mem_cons.mp hslash
    rw [pathText_append_cons, completeTyped_slash group hdir]
    split
    next child _ =>
      refine ⟨rfl, ?_⟩
      have hslash : ('/' : Char).utf8Size = 1 := by decide
      rw [Text.byteLength_append, Text.byteLength_cons, hslash]
      simp only [rooted, (ih child hdirs).2]
      omega
    next => exact ⟨rfl, rfl⟩

/-- No group has a slash in its name. -/
def SlashFree (tree : HighlighterGroup H) : Prop :=
  ∀ names sub, Reaches tree names sub → ∀ name ∈ names, '/' ∉ name.toList

theorem SlashFree.child {group child : HighlighterGroup H} {name : String} (h : group.SlashFree)
    (hmem : (name, .group child) ∈ group) : child.SlashFree := fun names sub hreaches other hother =>
  h (name :: names) sub (.inside hmem hreaches) other (List.mem_cons_of_mem _ hother)

theorem slashFree_of_children {group : HighlighterGroup H}
    (h : ∀ name child, (name, .group child) ∈ group → '/' ∉ name.toList ∧ SlashFree child) :
    group.SlashFree := by
  intro names sub hreaches name hname
  cases hreaches with
  | here => cases hname
  | inside hmem hrest =>
    obtain ⟨hslash, hchild⟩ := h _ _ hmem
    rcases List.mem_cons.mp hname with rfl | hname
    · exact hslash
    · exact hchild _ _ hrest name hname

theorem mem_matching_iff {group : HighlighterGroup H} {typed : List Char} {candidate : String} :
    candidate ∈ (group.matching typed).candidates ↔
      (∃ child, (candidate, .group child) ∈ group) ∧ typed <+: candidate.toList := by
  rw [matching, List.mem_filter, mem_groupNames, List.isPrefixOf_iff_prefix]

theorem mem_completeTyped_iff {tree : HighlighterGroup H} (hdistinct : tree.Distinct)
    (hfree : tree.SlashFree) {dirs : List String} {last : String}
    (hslash : ∀ name ∈ dirs ++ [last], '/' ∉ name.toList) (rest : List Char) (candidate : String) :
    candidate ∈ (tree.completeTyped (pathText (dirs ++ [last])) rest).candidates ↔
      ∃ name sub, Reaches tree (dirs ++ [name]) sub ∧ last.toList <+: name.toList ∧
        candidate = pathOf (dirs ++ [name]) := by
  induction dirs generalizing tree candidate with
  | nil =>
    rw [List.nil_append, pathText_singleton, completeTyped_last tree (hslash last (by simp)),
      mem_matching_iff]
    constructor
    · rintro ⟨⟨child, hmem⟩, hprefix⟩
      exact ⟨candidate, child, .inside hmem .here, hprefix, (pathOf_singleton candidate).symm⟩
    · rintro ⟨name, sub, hreaches, hprefix, rfl⟩
      rw [List.nil_append, pathOf_singleton]
      obtain _ | ⟨hmem, _⟩ := hreaches
      exact ⟨⟨_, hmem⟩, hprefix⟩
  | cons dir dirs ih =>
    obtain ⟨hdir, hdirs⟩ := List.forall_mem_cons.mp hslash
    simp only [List.cons_append, hdistinct.reaches_cons_iff]
    rw [← List.cons_append, pathText_append_cons, completeTyped_slash tree hdir,
      String.ofList_toList]
    split
    next child hchild =>
      have hmem := hdistinct.subgroup?_eq_some_iff.mp hchild
      simp only [rooted, List.mem_map, ih (hdistinct.child hmem) (hfree.child hmem) hdirs]
      constructor
      · rintro ⟨_, ⟨name, sub, hreaches, hprefix, rfl⟩, rfl⟩
        refine ⟨name, sub, ⟨child, hchild, hreaches⟩, hprefix, ?_⟩
        rw [pathOf_cons (by simp), String.ofList_toList]
      · rintro ⟨name, sub, ⟨_, hother, hreaches⟩, hprefix, rfl⟩
        cases hchild.symm.trans hother
        refine ⟨_, ⟨name, sub, hreaches, hprefix, rfl⟩, ?_⟩
        rw [pathOf_cons (by simp), String.ofList_toList]
    next hnone =>
      rw [mem_matching_iff]
      constructor
      · rintro ⟨⟨child, hmem⟩, hprefix⟩
        -- a group with what is typed at the start of its name has a slash in it
        have hin : '/' ∈ candidate.toList := hprefix.subset (by simp)
        exact absurd hin (hfree [candidate] child (.inside hmem .here) _ (by simp))
      · rintro ⟨name, sub, ⟨child, hchild, -⟩, -, -⟩
        cases hnone.symm.trans hchild

/-! ## The groups of a tree and their paths -/

/-- **A group is addressed by its path.** All that is typed is replaced, whatever the names are. In
a tree without slashes in the names of groups the candidates are the paths that go on from what is
typed to a group. And a path with no slash in its names and no empty name at its end leads to the
group that it is the path of, to read it and to change it. -/
theorem groups_are_addressed {tree : HighlighterGroup H} (hbuilt : tree.Built) :
    (∀ query cursor, ∃ dirs last,
      Text.IsCut query.toList cursor (pathText (dirs ++ [last])) ∧
      (∀ name ∈ dirs ++ [last], '/' ∉ name.toList) ∧
      (tree.complete query cursor).start = 0 ∧
      (tree.complete query cursor).stop = Text.byteLength (pathText (dirs ++ [last])) ∧
      (tree.SlashFree → ∀ candidate, candidate ∈ (tree.complete query cursor).candidates ↔
        ∃ name sub, Reaches tree (dirs ++ [name]) sub ∧ last.toList <+: name.toList ∧
          candidate = pathOf (dirs ++ [name]))) ∧
    ∀ names sub, Reaches tree names sub → (∀ name ∈ names, '/' ∉ name.toList) →
      names.getLast? ≠ some "" →
      tree.getGroup (pathOf names) = .ok sub ∧
      ∀ (α : Type) (f : HighlighterGroup H → Except RegistryError (α × HighlighterGroup H)),
        (∀ e, f sub = .error e → tree.updateGroup (pathOf names) f = .error e) ∧
        ∀ a new, f sub = .ok (a, new) → ∃ tree',
          tree.updateGroup (pathOf names) f = .ok (a, tree') ∧ Replaced tree names new tree' := by
  have hdistinct := hbuilt.distinct
  constructor
  · intro query cursor
    have hcut := Text.isCut_takeBytes query.toList cursor
    obtain ⟨dirs, last, htyped, hslash⟩ := exists_pathText (Text.takeBytes query.toList cursor)
    obtain ⟨rest, hquery⟩ := hcut.starts
    have hcomplete : tree.complete query cursor =
        tree.completeTyped (pathText (dirs ++ [last])) rest := by
      rw [complete, completeTyped, ← htyped, hquery, Text.byteLength_takeBytes]
    rw [hcomplete]
    obtain ⟨hstart, hstop⟩ := completeTyped_range tree hslash rest
    exact ⟨dirs, last, htyped ▸ hcut, hslash, hstart, hstop, fun hfree candidate =>
      mem_completeTyped_iff hdistinct hfree hslash rest candidate⟩
  · intro names sub hreaches hslash hlast
    have hnames := segments_pathOf_iff.mpr ⟨hslash, hlast⟩
    simp only [getGroup, updateGroup, hnames]
    exact ⟨hreaches.descend_eq hdistinct, fun α f =>
      ⟨fun e hf => hreaches.updateAt_error hdistinct hf,
        fun a new hf => hreaches.updateAt_ok hdistinct hf⟩⟩

/-- A group in a group, made by three calls. -/
def nested : HighlighterGroup Nat :=
  [("numbers", .leaf 1), ("code", .group [("comments", .group [])])]

theorem built_nested : nested.Built := by
  have hleaf : updateGroup [] "" (Call.act (.append "numbers" 1)) =
      .ok (none, [("numbers", .leaf 1)]) := rfl
  have hcode : updateGroup [("numbers", .leaf 1)] "" (Call.act (.addGroup "code")) =
      .ok (none, [("numbers", .leaf 1), ("code", .group [])]) := rfl
  have hcomments : updateGroup [("numbers", .leaf 1), ("code", .group [])] "code"
      (Call.act (.addGroup "comments")) = .ok (none, nested) := rfl
  refine .step (.step (.step .new ?_ hleaf) ?_ hcode) ?_ hcomments <;>
  · intro name children hcall
    cases hcall

theorem slashFree_nested : nested.SlashFree := by
  refine slashFree_of_children fun name child hmem => ?_
  obtain ⟨rfl, rfl⟩ : name = "code" ∧ child = [("comments", .group [])] := by
    simpa [nested] using hmem
  refine ⟨by decide, slashFree_of_children fun name child hmem => ?_⟩
  obtain ⟨rfl, rfl⟩ : name = "comments" ∧ child = [] := by simpa using hmem
  exact ⟨by decide, slashFree_of_children fun _ _ hmem => nomatch hmem⟩

theorem groups_are_addressed_in_groups : nested.Built ∧ nested.SlashFree ∧
    "code/comments" ∈ (nested.complete "code/c" 6).candidates ∧
    nested.getGroup "code/comments" = .ok [] ∧
    ∃ tree', nested.updateGroup "code/comments" (Call.act (.append "todo" 3)) = .ok (none, tree') ∧
      Replaced nested ["code", "comments"] [("todo", .leaf 3)] tree' := by
  have hreaches : Reaches nested ["code", "comments"] [] :=
    .inside (List.mem_cons_of_mem _ List.mem_cons_self) (.inside List.mem_cons_self .here)
  have hpath : pathOf ["code", "comments"] = "code/comments" := by decide
  obtain ⟨hcomplete, haddress⟩ := groups_are_addressed built_nested
  obtain ⟨dirs, last, hcut, hslash, -, -, hcandidates⟩ := hcomplete "code/c" 6
  have hnames : dirs ++ [last] = ["code"] ++ ["c"] := by
    rw [← splitAll_pathText (by simp) hslash, hcut.eq_takeBytes]
    decide
  obtain ⟨rfl, hlast⟩ := List.append_inj' hnames rfl
  obtain rfl : last = "c" := List.singleton_inj.mp hlast
  obtain ⟨hget, hupdate⟩ := haddress _ [] hreaches (by decide) (by decide)
  rw [hpath] at hget hupdate
  exact ⟨built_nested, slashFree_nested, (hcandidates slashFree_nested "code/comments").mpr
    ⟨"comments", [], hreaches, by decide, by decide⟩, hget, (hupdate _ _).2 none _ rfl⟩

/-- Nothing keeps a slash out of a name: the group is offered, and its path leads nowhere. -/
theorem slashed_group_is_lost : ∃ tree : HighlighterGroup Nat, tree.Built ∧
    Reaches tree ["a/b"] [] ∧ (tree.complete "a" 1).candidates = ["a/b"] ∧
    tree.getGroup "a/b" = .error (.notFound "highlighter group" "a") := by
  have hcall : updateGroup [] "" (Call.act (.addGroup "a/b")) =
      .ok (none, [("a/b", .group ([] : HighlighterGroup Nat))]) := rfl
  have hbuilt : Built [("a/b", .group ([] : HighlighterGroup Nat))] := by
    refine .step .new ?_ hcall
    intro name children haction
    cases haction
  exact ⟨_, hbuilt, .inside List.mem_cons_self .here, by decide +kernel, rfl⟩

end ModalEdit.HighlighterGroup
