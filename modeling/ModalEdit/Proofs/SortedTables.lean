import Mathlib.Data.String.Basic
import ModalEdit.Config
import ModalEdit.Proofs.NamedEntries

/-!
# Tables are sorted by key

A reader of documents that keeps tables by key (`KeepsSorted`) gives configs whose options are in
the order of their names (`sorted_options_of_parseWith`), and those of two configs in one are, too
(`sorted_options_merge`). The reader of this library is one: the tables of a document are sorted
when it has been read, whether they were made by headers, by dotted keys or in braces
(`keepsSorted_parse?`).
-/

namespace ModalEdit

namespace Toml

/-- **`table.IsSorted`** — the keys of the table are in order. -/
def Table.IsSorted (table : Table) : Prop := (Entries.names table).Pairwise (· ≤ ·)

/-- **`value.IsOrdered`** — the value is a sorted table, or no table. -/
def Value.IsOrdered (value : Value) : Prop := ∀ table, value = .table table → Table.IsSorted table

/-- **`KeepsSorted read?`** — the tables that the reader gives are sorted: that of a document, and
those that are values in it. -/
def KeepsSorted (read? : String → Option Table) : Prop :=
  ∀ text table, read? text = some table → table.IsSorted ∧ ∀ entry ∈ table, entry.2.IsOrdered

theorem Table.isSorted_sorted (table : Table) : Table.IsSorted (Table.sorted table) := by
  have hsorted : (Table.sorted table).Pairwise fun a b => decide (a.1 ≤ b.1) = true :=
    List.pairwise_mergeSort (by simpa using fun _ _ _ _ _ _ => le_trans)
      (by simpa using fun _ _ _ _ => le_total _ _) _
  exact List.pairwise_map.mpr (hsorted.imp fun h => of_decide_eq_true h)

theorem Table.isSorted_of_ofStatements? {statements : List Statement} {table : Table}
    (h : Table.ofStatements? statements = some table) : table.IsSorted := by
  obtain ⟨draft, -, rfl⟩ := Option.map_eq_some_iff.mp h
  exact Table.isSorted_sorted _

/-! ## Values that are read -/

theorem isOrdered_of_inlineTable? {assignments : List (DottedKey × Value)} {value : Value}
    (h : inlineTable? assignments = some value) : value.IsOrdered := by
  obtain ⟨table, htable, rfl⟩ := Option.map_eq_some_iff.mp h
  intro other heq
  obtain rfl := Value.table.inj heq
  exact Table.isSorted_of_ofStatements? htable

theorem isOrdered_of_scalar? {text : List Char} {value : Value} (h : scalar? text = some value) :
    value.IsOrdered := by
  rintro table rfl
  unfold scalar? at h
  split at h
  · cases h
  split at h
  · cases h
  split at h
  · cases h
  split at h
  · cases h
  split at h <;> cases h

theorem isOrdered_of_readValue? {depth : Nat} {text : List Char} {found : Lexeme Value text}
    (h : readValue? depth text = some found) : found.value.IsOrdered := by
  unfold readValue? at h
  split at h
  · -- an array
    obtain ⟨items, -, rfl⟩ := Option.map_eq_some_iff.mp h
    exact nofun
  · -- a table in braces
    obtain ⟨assignments, -, hread⟩ := Option.bind_eq_some_iff.mp h
    obtain ⟨inner, hinner, rfl⟩ := Option.map_eq_some_iff.mp hread
    obtain ⟨value, hvalue, rfl⟩ := Option.map_eq_some_iff.mp hinner
    exact isOrdered_of_inlineTable? hvalue
  · split at h
    · obtain rfl := Option.some.inj h
      exact nofun
    · obtain ⟨bare, -, hscalar⟩ := Option.bind_eq_some_iff.mp h
      obtain ⟨value, hvalue, rfl⟩ := Option.map_eq_some_iff.mp hscalar
      exact isOrdered_of_scalar? hvalue

/-- **`statement.IsOrdered`** — the value that the statement assigns, if it assigns one, is
ordered. -/
def Statement.IsOrdered (statement : Statement) : Prop :=
  ∀ key value, statement = .assignment key value → value.IsOrdered

theorem isOrdered_of_readStatement? {text : List Char} {found : Lexeme Statement text}
    (h : readStatement? text = some found) : found.value.IsOrdered := by
  unfold readStatement? at h
  split at h
  · obtain ⟨header, -, rfl⟩ := Option.map_eq_some_iff.mp h
    exact nofun
  · obtain ⟨header, -, rfl⟩ := Option.map_eq_some_iff.mp h
    exact nofun
  · obtain ⟨assignment, hassignment, rfl⟩ := Option.map_eq_some_iff.mp h
    intro key value heq
    unfold readAssignment? at hassignment
    split at hassignment
    · cases hassignment
    split at hassignment
    · obtain ⟨read, hread, rfl⟩ := Option.map_eq_some_iff.mp hassignment
      obtain ⟨-, rfl⟩ := Statement.assignment.inj heq
      exact isOrdered_of_readValue? hread
    · cases hassignment

theorem isOrdered_of_readStatements? {text : List Char} {statements : List Statement}
    (h : readStatements? text = some statements) : ∀ s ∈ statements, s.IsOrdered := by
  fun_induction readStatements? text generalizing statements with
  | case1 => cases h
  | case2 =>
    obtain rfl := Option.some.inj h
    exact nofun
  | case3 => cases h
  | case4 => cases h
  | case5 text c start _ statement hread rest _ ih =>
    obtain ⟨more, hmore, rfl⟩ := Option.map_eq_some_iff.mp h
    intro s hs
    rcases List.mem_cons.mp hs with rfl | hs
    · exact isOrdered_of_readStatement? hread
    · exact ih hmore s hs

/-! ## Tables that are being read -/

/-- **`draft.IsOrdered`** — the values that the keys of the draft hold are ordered. -/
def Draft.IsOrdered (draft : Draft) : Prop :=
  ∀ key value, (key, Item.value value) ∈ draft → value.IsOrdered

namespace Draft

variable {draft result : Draft} {key : String}

theorem isOrdered_nil : Draft.IsOrdered [] := fun _ _ hmem => absurd hmem List.not_mem_nil

theorem IsOrdered.put (h : draft.IsOrdered) {item : Item} (hitem : ∀ value, item ≠ .value value) :
    IsOrdered (Entries.put draft key item) := by
  intro other value hmem
  rcases Entries.mem_put hmem with heq | hold
  · exact absurd heq.symm (hitem value)
  · exact h other value hold

theorem IsOrdered.define? (h : draft.IsOrdered) (hdefine : draft.define? key = some result) :
    result.IsOrdered := by
  unfold Draft.define? at hdefine
  split at hdefine
  · obtain rfl := Option.some.inj hdefine
    exact h.put nofun
  · obtain rfl := Option.some.inj hdefine
    exact h.put nofun
  · cases hdefine

theorem IsOrdered.extend? (h : draft.IsOrdered) (hextend : draft.extend? key = some result) :
    result.IsOrdered := by
  unfold Draft.extend? at hextend
  split at hextend
  · obtain rfl := Option.some.inj hextend
    exact h.put nofun
  · obtain rfl := Option.some.inj hextend
    exact h.put nofun
  · cases hextend

theorem IsOrdered.assign? (h : draft.IsOrdered) {value : Value} (hvalue : value.IsOrdered)
    {path : List String} (hassign : draft.assign? value key path = some result) :
    result.IsOrdered := by
  cases path with
  | nil =>
    unfold Draft.assign? at hassign
    split at hassign
    · cases hassign
    · obtain rfl := Option.some.inj hassign
      intro other found hmem
      rcases List.mem_append.mp hmem with hold | hnew
      · exact h other found hold
      · obtain ⟨-, heq⟩ := Prod.mk.inj (List.mem_singleton.mp hnew)
        exact Item.value.inj heq ▸ hvalue
  | cons step path =>
    -- what dotted keys lead to is a table, whatever is assigned in it
    have hadd : ∀ inner origin, (if path.isEmpty ∧ origin ≠ TableOrigin.dotted then none
        else (Draft.assign? value key path inner).map fun inner =>
          Entries.put draft step (.table origin inner)) = some result → result.IsOrdered := by
      intro inner origin hsome
      split at hsome
      · cases hsome
      · obtain ⟨inner, -, rfl⟩ := Option.map_eq_some_iff.mp hsome
        exact h.put nofun
    unfold Draft.assign? at hassign
    dsimp only at hassign
    split at hassign
    · exact hadd _ _ hassign
    · cases hassign
    · exact hadd _ _ hassign
    · cases hassign

theorem IsOrdered.within? (h : draft.IsOrdered) {f : Draft → Option Draft}
    (hf : ∀ result, f draft = some result → result.IsOrdered) {path : List String}
    (hwithin : draft.within? f path = some result) : result.IsOrdered := by
  cases path with
  | nil => exact hf result hwithin
  | cons step path =>
    unfold Draft.within? at hwithin
    split at hwithin
    · obtain ⟨inner, -, rfl⟩ := Option.map_eq_some_iff.mp hwithin
      exact h.put nofun
    · obtain ⟨inner, -, rfl⟩ := Option.map_eq_some_iff.mp hwithin
      exact h.put nofun
    · obtain ⟨last, -, rfl⟩ := Option.map_eq_some_iff.mp hwithin
      exact h.put nofun
    · cases hwithin

/-- Statements keep what a draft holds ordered. -/
theorem IsOrdered.run? (h : draft.IsOrdered) {current : List String} {statements : List Statement}
    (hstatements : ∀ s ∈ statements, s.IsOrdered)
    (hrun : Draft.run? current statements draft = some result) : result.IsOrdered := by
  -- by induction on the statements, from every draft that the ones before may have led to
  induction statements generalizing draft current with
  | nil => exact Option.some.inj hrun ▸ h
  | cons statement statements ih =>
    obtain ⟨hstatement, hrest⟩ := List.forall_mem_cons.mp hstatements
    cases statement with
    | header k =>
      obtain ⟨next, hnext, hrun⟩ := Option.bind_eq_some_iff.mp hrun
      exact ih (h.within? (fun _ => h.define?) hnext) hrest hrun
    | element k =>
      obtain ⟨next, hnext, hrun⟩ := Option.bind_eq_some_iff.mp hrun
      exact ih (h.within? (fun _ => h.extend?) hnext) hrest hrun
    | assignment k value =>
      obtain ⟨next, hnext, hrun⟩ := Option.bind_eq_some_iff.mp hrun
      have hvalue : value.IsOrdered := hstatement k value rfl
      refine ih (h.within? ?_ hnext) hrest hrun
      intro result hassign
      exact h.assign? hvalue hassign

theorem IsOrdered.toValue (h : draft.IsOrdered) {value : Value}
    (hmem : (key, value) ∈ entryValues draft) : value.IsOrdered := by
  induction draft with
  | nil => cases hmem
  | cons entry draft ih =>
    obtain ⟨other, item⟩ := entry
    rcases List.mem_cons.mp hmem with heq | hmem
    · obtain ⟨-, rfl⟩ := Prod.mk.inj heq
      cases item with
      | value v => exact h other v List.mem_cons_self
      | table origin entries =>
        -- a table of a draft is sorted only now
        intro table heq
        obtain rfl := Value.table.inj heq
        exact Table.isSorted_sorted _
      | tables earlier last => exact nofun
    · exact ih (fun k v hv => h k v (List.mem_cons_of_mem _ hv)) hmem

end Draft

/-- **Tables are sorted** — however the document makes them. -/
theorem keepsSorted_parse? : KeepsSorted parse? := by
  intro text table h
  obtain ⟨statements, hread, htable⟩ := Option.bind_eq_some_iff.mp h
  refine ⟨Table.isSorted_of_ofStatements? htable, ?_⟩
  obtain ⟨draft, hrun, rfl⟩ := Option.map_eq_some_iff.mp htable
  have hdraft : draft.IsOrdered :=
    Draft.IsOrdered.run? Draft.isOrdered_nil (isOrdered_of_readStatements? hread) hrun
  intro entry hentry
  exact hdraft.toValue (List.mem_mergeSort.mp hentry)

end Toml

/-! ## Options of a config -/

namespace Config

open Toml

theorem sorted_options_of_ofTable? {table : Table} {config : Config}
    (hvalues : ∀ entry ∈ table, entry.2.IsOrdered) (h : ofTable? table = some config) :
    Table.IsSorted config.options := by
  unfold ofTable? at h
  split at h
  · obtain ⟨options, hoptions, h⟩ := Option.bind_eq_some_iff.mp h
    obtain ⟨hooks, -, h⟩ := Option.bind_eq_some_iff.mp h
    obtain ⟨keys, -, h⟩ := Option.bind_eq_some_iff.mp h
    obtain ⟨init, -, h⟩ := Option.bind_eq_some_iff.mp h
    obtain rfl := Option.some.inj h
    show Table.IsSorted options
    cases hget : table.get? "options" with
    | none =>
      rw [hget] at hoptions
      obtain rfl := Option.some.inj hoptions
      exact .nil
    | some value =>
      rw [hget] at hoptions
      have hordered := hvalues _ (Entries.mem_of_get? hget)
      have hentries : entries? value = some options := hoptions
      unfold entries? at hentries
      split at hentries
      · obtain rfl := Option.some.inj hentries
        exact hordered _ rfl
      · cases hentries
  · cases h

/-- The options of a config that is read are in the order of their names. -/
theorem sorted_options_of_parseWith {read? : String → Option Table} (hread : KeepsSorted read?)
    {text : String} {config : Config} (h : parseWith read? text = .ok config) :
    Table.IsSorted config.options := by
  unfold parseWith at h
  split at h
  next found hfound =>
    obtain rfl := Except.ok.inj h
    obtain ⟨table, htable, hconfig⟩ := Option.bind_eq_some_iff.mp hfound
    exact sorted_options_of_ofTable? (hread text table htable).2 hconfig
  · cases h

theorem sorted_options_merge (first second : Config) :
    Table.IsSorted (first.merge second).options :=
  Table.isSorted_sorted _

end Config

end ModalEdit
