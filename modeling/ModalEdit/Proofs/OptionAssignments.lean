import ModalEdit.Option.Store
import ModalEdit.Proofs.NamedEntries

/-!
# Assignments to options

What setting, adding and declaring do to the options of one scope. An assignment starts from a base,
the value that the store holds or else the inherited one (`assigned_eq_ok`), and writes a value of
the same type (`Becomes.type_eq`); it changes the option of that name and no other (`get?_set`). A
declaration adds an option that the store did not hold (`get?_of_declare`).
-/

namespace ModalEdit

/-! ## Values that are read -/

namespace OptionValue

variable {name text : String} {type : OptionType} {value addend sum base : OptionValue}

/-- What is read as a value of a type is one. -/
theorem type_of_read? (h : read? type text = some value) : value.type = type := by
  cases type with
  | str => exact Option.some.inj h ▸ rfl
  | strList => exact Option.some.inj h ▸ rfl
  | int | bool | regex | intList | lineFlagList =>
    obtain ⟨_, -, rfl⟩ := Option.map_eq_some_iff.mp h
    rfl

theorem parse_eq_ok : parse name type text = .ok value ↔ read? type text = some value := by
  unfold parse
  cases read? type text with
  | none => simp
  | some found => simp

theorem type_of_add? (h : value.add? addend = some sum) : sum.type = value.type := by
  cases value <;> cases addend <;> cases h <;> rfl

/-- Adding a text reads it as a value of the same type. -/
theorem added_eq_ok : value.added name text = .ok sum ↔
    ∃ addend, read? value.type text = some addend ∧ value.add? addend = some sum := by
  unfold added
  cases hparse : parse name value.type text with
  | error error =>
    have hnone : ∀ addend, read? value.type text ≠ some addend := by
      intro addend hread
      rw [parse_eq_ok.mpr hread] at hparse
      cases hparse
    simp [Except.bind, hnone]
  | ok addend =>
    rw [parse_eq_ok] at hparse
    simp only [Except.bind, hparse, Option.some.injEq, exists_eq_left']
    cases value.add? addend <;> simp

/-- **`base.Becomes adding text value`** — what a text makes of a value: the value that it is the text
of, or with `adding` the sum of both. -/
def Becomes (base : OptionValue) (adding : Bool) (text : String) (value : OptionValue) : Prop :=
  ∃ given, read? base.type text = some given ∧
    if adding then base.add? given = some value else value = given

/-- The value that an assignment writes, or why there is none. -/
theorem becomes_iff (name : String) {adding : Bool} :
    (if adding then base.added name text else parse name base.type text) = .ok value ↔
      base.Becomes adding text value := by
  cases adding with
  | true => exact added_eq_ok
  | false => exact parse_eq_ok.trans (by simp [Becomes])

theorem Becomes.type_eq {adding : Bool} (h : base.Becomes adding text value) :
    value.type = base.type := by
  obtain ⟨given, hread, hvalue⟩ := h
  cases adding with
  | true => exact type_of_add? hvalue
  | false =>
    obtain rfl : value = given := hvalue
    exact type_of_read? hread

end OptionValue

/-! ## Stores -/

namespace OptionStore

variable {store store' : OptionStore} {name other text : String} {value : OptionValue}
  {inherited : Option OptionValue}

theorem contains_eq (store : OptionStore) (name : String) :
    store.contains name = (store.get? name).isSome := by
  rw [contains, get?, Option.isSome_map]
  rfl

/-- Setting an option changes no other one. -/
theorem get?_set : (store.set name value).get? other =
    if other = name then some value else store.get? other := by
  unfold set
  split
  next entry hentry =>
    unfold get?
    dsimp only
    rw [Entries.get?_put]
    split <;> rfl
  next hnone =>
    unfold get?
    dsimp only
    rw [Entries.get?_append hnone]
    split <;> rfl

/-- An option is declared where there is none of its name, and no other one changes. -/
theorem get?_of_declare {hidden : Bool} (h : store.declare name value hidden = .ok store') :
    store.get? name = none ∧
      ∀ other, store'.get? other = if other = name then some value else store.get? other := by
  unfold declare at h
  split at h
  · cases h
  next hfree =>
    obtain rfl := Except.ok.inj h
    have hnone : store.entries.get? name = none := by
      simpa [contains, Entries.contains] using hfree
    refine ⟨by rw [get?, hnone]; rfl, fun other => ?_⟩
    unfold get?
    dsimp only
    rw [Entries.get?_append hnone]
    split <;> rfl

theorem base_eq_ok {base : OptionValue} :
    store.base name inherited = .ok base ↔ (store.get? name).or inherited = some base := by
  unfold OptionStore.base
  cases (store.get? name).or inherited <;> simp

/-- **One assignment** — it starts from the value in effect and writes what the text makes of it. -/
theorem assigned_eq_ok (adding : Bool) :
    (if adding then store.addText name text inherited else store.setText name text inherited) =
        .ok (value, store') ↔
      ∃ base, store.base name inherited = .ok base ∧ base.Becomes adding text value ∧
        store' = store.set name value := by
  have hsteps : (if adding then store.addText name text inherited
      else store.setText name text inherited) =
      (store.base name inherited).bind fun base =>
        (if adding then base.added name text else OptionValue.parse name base.type text).map
          fun value => (value, store.set name value) := by
    cases adding <;> rfl
  -- one sequence of steps for both ways, so the failures are told apart once
  rw [hsteps]
  cases store.base name inherited with
  | error error => simp [Except.bind]
  | ok base =>
    simp only [Except.bind, Except.ok.injEq, exists_eq_left', ← OptionValue.becomes_iff name]
    cases (if adding then base.added name text else OptionValue.parse name base.type text) with
    | error error => simp [Except.map]
    | ok found =>
      simp only [Except.map, Except.ok.injEq, Prod.mk.injEq]
      constructor
      · rintro ⟨rfl, rfl⟩
        exact ⟨rfl, rfl⟩
      · rintro ⟨rfl, rfl⟩
        exact ⟨rfl, rfl⟩

theorem setText_eq_ok : store.setText name text inherited = .ok (value, store') ↔
    ∃ base, store.base name inherited = .ok base ∧ base.Becomes false text value ∧
      store' = store.set name value :=
  assigned_eq_ok false

end OptionStore

end ModalEdit
