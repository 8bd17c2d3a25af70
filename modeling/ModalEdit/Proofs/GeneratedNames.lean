import Mathlib.Data.Set.Card
import Mathlib.Order.Interval.Finset.Nat
import ModalEdit.Clients
import ModalEdit.Proofs.NamedEntries
import ModalEdit.Proofs.OptionTexts

/-!
# Generated names are fresh

A name for a client is found by trying one number after the other until its name is free. `Search`
says so, pass by pass. The search ends, since each pass that does not end it meets another client
with a name of that form (`search_freeNumber`, `passes_le`), and its end is the number that is used.

The number to try first moves past every number that was tried, whatever else becomes of the table
of clients. So later names have higher numbers, and no name is generated twice
(`generated_names_are_fresh`).
-/

namespace ModalEdit.Clients

/-! ## Names with a number -/

theorem toList_numberedName (n : Nat) :
    (numberedName n).toList = "client".toList ++ Text.decimal n := by
  show ("client" ++ toString n).toList = _
  have hdigits : (toString n).toList = Text.decimal n := Nat.toList_repr
  rw [String.toList_append, hdigits]

theorem numberedName_injective : Function.Injective numberedName := by
  intro m n heq
  have hlist := congrArg String.toList heq
  rw [toList_numberedName, toList_numberedName] at hlist
  have hdecimal := List.append_cancel_left hlist
  -- both numbers are what is read from the same digits
  have hread := congrArg Text.digits? hdecimal
  rw [Text.digits?_decimal, Text.digits?_decimal] at hread
  exact Option.some.inj hread

/-! ## The search -/

/-- **`c.Search n passes m`** — the search that tries `n` first makes that many passes, and ends at
the number `m`. -/
inductive Search (c : Clients) : Nat → Nat → Nat → Prop
  | free {n : Nat} (h : numberedName n ∉ c.slots.names) : Search c n 1 n
  | taken {n passes m : Nat} (h : numberedName n ∈ c.slots.names)
    (hrest : Search c (n + 1) passes m) : Search c n (passes + 1) m

/-- The names that the search for the next name can meet. -/
def takenNames (c : Clients) : Set String :=
  {name | name ∈ c.slots.names ∧ ∃ n, c.nextNumber ≤ n ∧ numberedName n = name}

variable {c c' : Clients} {n m m' passes passes' : Nat}

theorem Search.unique (h : c.Search n passes m) (h' : c.Search n passes' m') :
    passes' = passes ∧ m' = m := by
  induction h generalizing passes' with
  | free hfree =>
    cases h' with
    | free => exact ⟨rfl, rfl⟩
    | taken htaken => exact absurd htaken hfree
  | taken htaken hrest ih =>
    cases h' with
    | free hfree => exact absurd htaken hfree
    | taken _ hrest' =>
      obtain ⟨rfl, rfl⟩ := ih hrest'
      exact ⟨rfl, rfl⟩

/-- The search goes past all numbers whose names are taken. -/
theorem search_of_taken (hfree : numberedName m ∉ c.slots.names) (hle : n ≤ m)
    (htaken : ∀ k, n ≤ k → k < m → numberedName k ∈ c.slots.names) :
    c.Search n (m - n + 1) m := by
  obtain ⟨d, rfl⟩ := Nat.exists_eq_add_of_le hle
  rw [Nat.add_sub_cancel_left]
  induction d generalizing n with
  | zero => exact .free hfree
  | succ d ih =>
    refine .taken (htaken n (Nat.le_refl n) (by omega)) ?_
    have hshift : n + (d + 1) = n + 1 + d := by omega
    rw [hshift] at hfree htaken ⊢
    exact ih hfree (by omega) fun k hk => htaken k (by omega)

/-- Among more numbers than there are clients, one has a name that is free. -/
theorem exists_free (c : Clients) (n : Nat) :
    ∃ k ∈ List.range' n (c.slots.size + 1), numberedName k ∉ c.slots.names := by
  by_contra hnone
  push Not at hnone
  have hsubset : (List.range' n (c.slots.size + 1)).map numberedName ⊆ c.slots.names := by
    intro name hname
    obtain ⟨k, hk, rfl⟩ := List.mem_map.mp hname
    exact hnone k hk
  have hnodup := (List.nodup_range' (s := n) (n := c.slots.size + 1)).map numberedName_injective
  have hlength := (List.subperm_of_subset hnodup hsubset).length_le
  have hsize : c.slots.names.length = c.slots.size := List.length_map _
  rw [List.length_map, List.length_range', hsize] at hlength
  omega

theorem contains_numberedName (c : Clients) (n : Nat) :
    c.slots.contains (numberedName n) = decide (numberedName n ∈ c.slots.names) :=
  c.slots.entries.contains_eq _

/-- The number that is used is the first one whose name is free. -/
theorem freeNumber_spec (c : Clients) :
    c.nextNumber ≤ c.freeNumber ∧ numberedName c.freeNumber ∉ c.slots.names ∧
      ∀ k, c.nextNumber ≤ k → k < c.freeNumber → numberedName k ∈ c.slots.names := by
  unfold freeNumber
  cases hfind : (List.range' c.nextNumber (c.slots.size + 1)).find? fun n =>
      !c.slots.contains (numberedName n) with
  | none =>
    obtain ⟨k, hk, hfree⟩ := c.exists_free c.nextNumber
    have htaken := List.find?_eq_none.mp hfind k hk
    simp [contains_numberedName, hfree] at htaken
  | some m =>
    obtain ⟨hfree, hmem, hbefore⟩ := List.find?_range'_eq_some.mp hfind
    refine ⟨(List.mem_range'_1.mp hmem).1, ?_, ?_⟩
    · simpa [contains_numberedName] using hfree
    · intro k hk hlt
      simpa [contains_numberedName] using hbefore k hk hlt

/-- The search from the next number on ends at the number that is used, and nowhere else. -/
theorem search_freeNumber (c : Clients) :
    c.Search c.nextNumber (c.freeNumber - c.nextNumber + 1) c.freeNumber := by
  obtain ⟨hle, hfree, htaken⟩ := c.freeNumber_spec
  exact search_of_taken hfree hle htaken

/-- Each pass but the last meets another name. -/
theorem passes_le (c : Clients) : c.freeNumber - c.nextNumber + 1 ≤ c.takenNames.ncard + 1 := by
  obtain ⟨-, -, htaken⟩ := c.freeNumber_spec
  have hfinite : c.takenNames.Finite := by
    refine c.slots.names.finite_toSet.subset ?_
    intro name hname
    exact hname.1
  have hmet : numberedName '' (Finset.Ico c.nextNumber c.freeNumber : Set Nat) ⊆ c.takenNames := by
    rintro name ⟨k, hk, rfl⟩
    obtain ⟨hk, hlt⟩ := Finset.mem_Ico.mp hk
    exact ⟨htaken k hk hlt, k, hk, rfl⟩
  have hcard := Set.ncard_le_ncard hmet hfinite
  rw [Set.ncard_image_of_injective _ numberedName_injective, Set.ncard_coe_finset, Nat.card_Ico]
    at hcard
  omega

/-! ## Calls -/

/-- A call that generates a name, or changes the table of clients. -/
inductive Call where
  | generate
  | add (ctx : Context)
  | remove (name : String)
  | rename (source target : String)
  | checkout (name : String)
  | checkin (name : String) (ctx : Context)

/-- Carries a call out, and gives the name that it generates. A call that fails changes nothing. -/
def perform (c : Clients) : Call → Option String × Clients
  | .generate => (some c.generateName.1, c.generateName.2)
  | .add ctx => (none, (c.add ctx).toOption.getD c)
  | .remove name => (none, c.remove name)
  | .rename source target => (none, (c.rename source target).toOption.getD c)
  | .checkout name => (none, ((c.checkout name).map (·.2)).toOption.getD c)
  | .checkin name ctx => (none, (c.checkin name ctx).2)

/-- Carries calls out one after the other, and gives the names that they generate. -/
def run (c : Clients) : List Call → List String × Clients
  | [] => ([], c)
  | call :: calls =>
    let (name, next) := c.perform call
    let (names, last) := next.run calls
    (name.toList ++ names, last)

theorem run_append (c : Clients) (before after : List Call) :
    c.run (before ++ after) =
      ((c.run before).1 ++ ((c.run before).2.run after).1, ((c.run before).2.run after).2) := by
  induction before generalizing c with
  | nil => rfl
  | cons call before ih =>
    show ((c.perform call).1.toList ++ ((c.perform call).2.run (before ++ after)).1,
      ((c.perform call).2.run (before ++ after)).2) = _
    rw [ih, ← List.append_assoc]
    rfl

/-- **`Issued c names c'`** — between the two tables, names were generated with rising numbers from
the next number of the one up to that of the other. -/
def Issued (c : Clients) (names : List String) (c' : Clients) : Prop :=
  c.nextNumber ≤ c'.nextNumber ∧ ∃ numbers : List Nat, names = numbers.map numberedName ∧
    numbers.Pairwise (· < ·) ∧ ∀ n ∈ numbers, c.nextNumber ≤ n ∧ n < c'.nextNumber

theorem issued_nil (h : c'.nextNumber = c.nextNumber) : Issued c [] c' :=
  ⟨h.ge, [], rfl, .nil, nofun⟩

theorem Issued.append {c'' : Clients} {names names' : List String} (h : Issued c names c')
    (h' : Issued c' names' c'') : Issued c (names ++ names') c'' := by
  obtain ⟨hle, numbers, rfl, hrising, hbounds⟩ := h
  obtain ⟨hle', numbers', rfl, hrising', hbounds'⟩ := h'
  refine ⟨hle.trans hle', numbers ++ numbers', List.map_append.symm, ?_, ?_⟩
  · refine List.pairwise_append.mpr ⟨hrising, hrising', ?_⟩
    intro m hm n hn
    have hm := hbounds m hm
    have hn := hbounds' n hn
    omega
  · intro n hn
    rcases List.mem_append.mp hn with hn | hn
    · have hn := hbounds n hn
      omega
    · have hn := hbounds' n hn
      omega

theorem Issued.nodup {names : List String} (h : Issued c names c') : names.Nodup := by
  obtain ⟨-, numbers, rfl, hrising, -⟩ := h
  refine List.Nodup.map numberedName_injective ?_
  exact hrising.imp fun hlt => Nat.ne_of_lt hlt

theorem issued_generateName (c : Clients) : Issued c [c.generateName.1] c.generateName.2 := by
  have hle := c.freeNumber_spec.1
  refine ⟨hle.trans (Nat.le_succ _), [c.freeNumber], rfl, List.pairwise_singleton _ _, ?_⟩
  intro n hn
  obtain rfl := List.mem_singleton.mp hn
  exact ⟨hle, Nat.lt_succ_self _⟩

/-- What else is done to the table leaves the next number as it is. -/
theorem issued_perform (c : Clients) (call : Call) :
    Issued c (c.perform call).1.toList (c.perform call).2 := by
  cases call with
  | generate => exact c.issued_generateName
  | add ctx =>
    refine issued_nil ?_
    show ((c.add ctx).toOption.getD c).nextNumber = _
    unfold add
    cases c.slots.insert ctx.name (some ctx) <;> rfl
  | remove name => exact issued_nil rfl
  | rename source target =>
    refine issued_nil ?_
    show ((c.rename source target).toOption.getD c).nextNumber = _
    unfold rename
    split
    · rfl
    · cases c.slots.rename source target <;> rfl
  | checkout name =>
    refine issued_nil ?_
    show (((c.checkout name).map (·.2)).toOption.getD c).nextNumber = _
    unfold checkout
    split <;> rfl
  | checkin name ctx =>
    refine issued_nil ?_
    show (c.checkin name ctx).2.nextNumber = _
    unfold checkin
    dsimp only
    split <;> rfl

theorem issued_run (c : Clients) (calls : List Call) :
    Issued c (c.run calls).1 (c.run calls).2 := by
  induction calls generalizing c with
  | nil => exact issued_nil rfl
  | cons call calls ih => exact (c.issued_perform call).append (ih (c.perform call).2)

/-- No name before was that of the number that comes next. -/
theorem Issued.generateName_notMem {names : List String} (h : Issued c names c') :
    c'.generateName.1 ∉ names := by
  obtain ⟨-, numbers, rfl, -, hbounds⟩ := h
  intro hmem
  obtain ⟨n, hn, heq⟩ := List.mem_map.mp hmem
  have hused : n = c'.freeNumber := numberedName_injective heq
  have hlt := (hbounds n hn).2
  have hle := c'.freeNumber_spec.1
  omega

/-- **Generated names are fresh** — whatever clients there are, and whatever is done to them in
between: the names that are generated are all different, and each call gives a name that no client
has then and that no call gave before. It gives it after a search that ends, after at most one pass
more than there are clients with names of that form and a number that is still to be tried; and it
moves the next number on by one for each pass. -/
theorem generated_names_are_fresh (c : Clients) (calls : List Call) :
    (c.run calls).1.Nodup ∧
      ∀ before after, calls = before ++ .generate :: after →
        let now := (c.run before).2
        (c.run calls).1 =
            (c.run before).1 ++ now.generateName.1 :: (now.generateName.2.run after).1 ∧
          now.generateName.1 ∉ now.slots.names ∧ now.generateName.1 ∉ (c.run before).1 ∧
          ∃ passes number,
            (∀ p n, now.Search now.nextNumber p n ↔ p = passes ∧ n = number) ∧
              now.generateName =
                (numberedName number, { now with nextNumber := now.nextNumber + passes }) ∧
              passes ≤ now.takenNames.ncard + 1 := by
  refine ⟨(c.issued_run calls).nodup, ?_⟩
  rintro before after rfl now
  obtain ⟨hle, hfree, -⟩ := now.freeNumber_spec
  refine ⟨?_, hfree, (c.issued_run before).generateName_notMem,
    now.freeNumber - now.nextNumber + 1, now.freeNumber, ?_, ?_, now.passes_le⟩
  · rw [run_append]
    rfl
  · intro p n
    constructor
    · exact now.search_freeNumber.unique
    · rintro ⟨rfl, rfl⟩
      exact now.search_freeNumber
  · have hnext : now.nextNumber + (now.freeNumber - now.nextNumber + 1) = now.freeNumber + 1 := by
      omega
    rw [hnext]
    rfl

/-- Two names are skipped that clients have, and one that a client had. -/
theorem generated_names_are_fresh_among_renamed :
    let c : Clients :=
      { slots := { kind := "client", entries := [("client0", none), ("client2", none)] } }
    let before : List Call := [.generate, .rename "client0" "client3", .remove "client2"]
    let now := (c.run before).2
    (c.run (before ++ [.generate, .generate])).1 = ["client1", "client2", "client4"] ∧
      (c.run (before ++ [.generate, .generate])).1.Nodup ∧
      now.slots.names = ["client3"] ∧ now.generateName.1 ∉ now.slots.names ∧
      now.generateName.1 ∉ ["client1"] := by
  intro c before now
  have hnames : (c.run (before ++ [.generate, .generate])).1 =
      ["client1", "client2", "client4"] := by decide +kernel
  have hbefore : (c.run before).1 = ["client1"] := by decide +kernel
  obtain ⟨hnodup, hcalls⟩ := generated_names_are_fresh c (before ++ [.generate, .generate])
  obtain ⟨-, hfree, hnew, -⟩ := hcalls before [.generate] rfl
  exact ⟨hnames, hnodup, by decide +kernel, hfree, hbefore ▸ hnew⟩

end ModalEdit.Clients
