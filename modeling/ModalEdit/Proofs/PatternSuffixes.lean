import ModalEdit.Proofs.LocalReading

/-!
# Reading a pattern before more text

Each reader of a part of a pattern is `Local`: escapes, classes, the openings of groups and
repetitions. So is what reads one construct of a pattern, whatever it is (`local_readConstruct`).
The readers that go on until something ends, those of the items of a class and of flags, are so by
induction on what is left of the text.
-/

namespace ModalEdit.Pattern

open Text

/-! ## Escapes -/

section Escapes

variable {text rest more : List Char}

theorem local_hexEscape (width limit : Nat) : Local (hexEscape width limit) := by
  intro text more hmore
  unfold hexEscape
  rw [hmore.isPrefixOf?_append (by decide)]
  cases hopen : ['{'].isPrefixOf? text with
  | some rest =>
    refine Agree.of_suffix (Agree.bind (local_readTo '}' rest more hmore) hmore fun digits => ?_)
      (suffix_of_isPrefixOf? hopen)
    exact local_value ((hexValue digits).bind (codeAtom 0x10FFFF))
  | none =>
    show Agree text more (if text.length < width then _ else _)
      (if (text ++ more).length < width then _ else _)
    by_cases hshort : text.length < width
    · rw [if_pos hshort]
      refine .beyond fun a left hy => ?_
      split at hy
      next => cases hy
      next hlong =>
        -- the digits reach into what follows
        rw [List.length_append] at hlong
        rw [eq_of_value hy, List.length_drop, List.length_append]
        omega
    · have hlong : ¬ (text ++ more).length < width := by
        rw [List.length_append]
        omega
      rw [if_neg hshort, if_neg hlong, List.take_append_of_le_length (by omega),
        List.drop_append_of_le_length (by omega)]
      exact .value (text.drop_suffix width) _

theorem local_propertyEscape (flags : Flags) (negated : Bool) :
    Local (propertyEscape flags negated) := by
  refine local_head ?_
  intro c text more hmore
  dsimp only
  split
  · exact (local_readTo '}' text more hmore).bind hmore fun name =>
      local_value (propertyAtom flags negated name)
  · exact .value text.suffix_refl _

theorem local_namedEdgeEscape (flags : Flags) : Local (namedEdgeEscape flags) := by
  intro text more hmore
  unfold namedEdgeEscape
  rw [hmore.dropWhile_append (by decide), hmore.takeWhile_append (by decide),
    hmore.isPrefixOf?_append (by decide)]
  cases hclose : ['}'].isPrefixOf? (text.dropWhile isEdgeNameChar) with
  | some rest => exact .value ((suffix_of_isPrefixOf? hclose).trans (text.dropWhile_suffix _)) _
  | none => exact .error

theorem local_edgeEscape (flags : Flags) : Local (edgeEscape flags) := by
  intro text more hmore
  unfold edgeEscape
  rw [hmore.isPrefixOf?_append (by decide)]
  cases hopen : ['{'].isPrefixOf? text with
  | some rest =>
    dsimp only [Option.map_some]
    rw [hmore.head?_any (by decide)]
    split
    · exact (local_namedEdgeEscape flags rest more hmore).of_suffix (suffix_of_isPrefixOf? hopen)
    · exact .ok text.suffix_refl _
  | none => exact .ok text.suffix_refl _

theorem local_readEscape (flags : Flags) : Local (readEscape flags) := by
  refine local_head ?_
  intro c text more hmore
  dsimp only
  split
  · exact .error
  split
  · exact .ok text.suffix_refl _
  split
  · exact local_hexEscape _ _ text more hmore
  · exact local_hexEscape _ _ text more hmore
  · exact local_hexEscape _ _ text more hmore
  · exact local_propertyEscape _ _ text more hmore
  · exact local_propertyEscape _ _ text more hmore
  · exact local_edgeEscape _ text more hmore
  · exact .value text.suffix_refl _

end Escapes

/-! ## Classes -/

section Classes

variable {text rest more : List Char} {flags : Flags}

theorem notMem_of_asciiClass? {name : List Char} {set : CharSet}
    (h : CharSet.asciiClass? name = some set) : ')' ∉ name := by
  unfold CharSet.asciiClass? at h
  split at h
  case h_15 => cases h
  all_goals
    next heq =>
      rw [← String.toList_ofList (l := name), heq]
      decide

theorem namedClass?_append (hmore : Stops more) (negated : Bool) (text : List Char) :
    namedClass? negated (text ++ more) =
      (namedClass? negated text).map fun read => (read.1, read.2 ++ more) := by
  unfold namedClass?
  rw [splitFirst_append_more]
  cases hsplit : splitFirst ':' text with
  | some parts =>
    obtain ⟨name, rest⟩ := parts
    simp only [Option.map_some, Option.some_or, Option.bind_eq_bind, Option.bind_some]
    rw [hmore.isPrefixOf?_append (by decide)]
    cases [']'].isPrefixOf? rest <;> cases CharSet.asciiClass? name <;> rfl
  | none =>
    cases hlater : splitFirst ':' more with
    | none => rfl
    | some parts =>
      -- a name that reaches into what follows is none
      obtain ⟨name, rest⟩ := parts
      have hname : CharSet.asciiClass? (text ++ name) = none := by
        obtain ⟨tail, rfl⟩ := hmore.begins
        obtain ⟨name', rfl⟩ : ∃ name', name = ')' :: name' := by
          cases name with
          | nil => simpa using splitFirst_eq hlater
          | cons d name' => exact ⟨name', by rw [(List.cons.inj (splitFirst_eq hlater)).1]⟩
        by_contra hsome
        obtain ⟨set, hset⟩ := Option.ne_none_iff_exists'.mp hsome
        exact notMem_of_asciiClass? hset (by simp)
      simp only [Option.map_none, Option.none_or, Option.map_some, Option.bind_eq_bind,
        Option.bind_some, Option.bind_none, hname]
      cases [']'].isPrefixOf? rest <;> rfl

theorem suffix_of_namedClass? {negated : Bool} {set : CharSet}
    (h : namedClass? negated text = some (set, rest)) : rest <:+ text := by
  unfold namedClass? at h
  cases hsplit : splitFirst ':' text with
  | none => simp [hsplit] at h
  | some parts =>
    obtain ⟨name, after⟩ := parts
    have hafter : after <:+ text := ⟨name ++ [':'], by rw [splitFirst_eq hsplit]; simp⟩
    cases hclose : [']'].isPrefixOf? after with
    | none => simp [hsplit, hclose] at h
    | some left =>
      cases hset : CharSet.asciiClass? name with
      | none => simp [hsplit, hclose, hset] at h
      | some named =>
        obtain ⟨-, rfl⟩ : _ ∧ left = rest := by simpa [hsplit, hclose, hset] using h
        exact (suffix_of_isPrefixOf? hclose).trans hafter

theorem asciiClass?_append (hmore : Stops more) (text : List Char) :
    asciiClass? (text ++ more) =
      (asciiClass? text).map fun read => (read.1, read.2 ++ more) := by
  unfold asciiClass?
  rw [hmore.isPrefixOf?_append (by decide)]
  cases [':'].isPrefixOf? text with
  | none => rfl
  | some rest =>
    dsimp only [Option.map_some]
    rw [hmore.isPrefixOf?_append (by decide)]
    cases ['^'].isPrefixOf? rest with
    | none => exact namedClass?_append hmore false rest
    | some rest => exact namedClass?_append hmore true rest

theorem suffix_of_asciiClass? {set : CharSet} (h : asciiClass? text = some (set, rest)) :
    rest <:+ text := by
  unfold asciiClass? at h
  split at h
  next hcolon =>
    split at h
    next hcaret =>
      exact (suffix_of_namedClass? h).trans
        ((suffix_of_isPrefixOf? hcaret).trans (suffix_of_isPrefixOf? hcolon))
    next => exact (suffix_of_namedClass? h).trans (suffix_of_isPrefixOf? hcolon)
  next => cases h

theorem setOp?_append (hmore : Stops more) (c : Char) (text : List Char) :
    setOp? c (text ++ more) = (setOp? c text).map fun read => (read.1, read.2 ++ more) := by
  unfold setOp?
  by_cases hc : c = ')'
  · subst hc
    cases [_].isPrefixOf? (text ++ more) <;> cases [_].isPrefixOf? text <;> rfl
  · rw [hmore.isPrefixOf?_append (by simpa using Ne.symm hc)]
    cases [c].isPrefixOf? text with
    | none => rfl
    | some rest =>
      simp only [Option.map_some, Option.bind_eq_bind, Option.bind_some]
      split <;> rfl

theorem suffix_of_setOp? {c : Char} {op : SetOp} (h : setOp? c text = some (op, rest)) :
    rest <:+ text := by
  unfold setOp? at h
  cases hmark : [c].isPrefixOf? text with
  | none => simp [hmark] at h
  | some after =>
    obtain rfl : after = rest := by
      simp only [hmark, Option.bind_eq_bind, Option.bind_some] at h
      split at h <;> cases h <;> rfl
    exact suffix_of_isPrefixOf? hmark

theorem rangeEnd?_append (hmore : Stops more) (text : List Char) :
    rangeEnd? flags (text ++ more) = (rangeEnd? flags text).map (· ++ more) := by
  unfold rangeEnd?
  rw [flags.view_skip.isPrefixOf?_append hmore (by decide) (by decide)]
  cases ['-'].isPrefixOf? (flags.skip false text) with
  | none => rfl
  | some after =>
    have hhead : ∀ c, c ≠ ')' →
        ((flags.skip false (after ++ more)).head? = some c ↔
          (flags.skip false after).head? = some c) := by
      intro c hc
      rcases flags.view_skip.extend after more hmore with hview | ⟨hview, hview'⟩
      · rw [hview, hmore.head?_eq_some hc]
      · rw [hview, hview']
    simp only [Option.map_some, hhead ']' (by decide), hhead '-' (by decide)]
    split <;> rfl

theorem suffix_of_rangeEnd? (h : rangeEnd? flags text = some rest) : rest <:+ text := by
  unfold rangeEnd? at h
  split at h
  next after hdash =>
    obtain rfl : after = rest := by
      dsimp only at h
      split at h <;> cases h
      rfl
    exact flags.view_skip.suffix_of_isPrefixOf? hdash
  next => cases h

theorem local_skipInClass (flags : Flags) : Local (skipInClass flags) := by
  intro text more hmore
  have hhead := local_head (e := .unclosedClass) (f := fun c rest => .ok (c, rest))
    fun c text more _ => .ok text.suffix_refl c
  exact flags.view_skip.agree hhead (by rintro _ ⟨⟩) hmore

theorem local_classAtom (flags : Flags) (c : Char) : Local (classAtom flags c) := by
  intro text more hmore
  unfold classAtom
  split
  · exact local_readEscape flags text more hmore
  split
  · exact .error
  · exact .ok text.suffix_refl _

theorem local_classRange (flags : Flags) (c : Char) : Local (classRange flags c) := by
  intro text more hmore
  refine Agree.bind (local_classAtom flags c text more hmore) hmore fun first => ?_
  intro text more hmore
  dsimp only
  rw [rangeEnd?_append hmore]
  cases hrange : rangeEnd? flags text with
  | none => exact .value text.suffix_refl _
  | some after =>
    refine Agree.of_suffix ?_ (suffix_of_rangeEnd? hrange)
    refine Agree.bind (local_skipInClass flags after more hmore) hmore fun d => ?_
    intro text more hmore
    refine Agree.bind (local_classAtom flags d text more hmore) hmore fun last => ?_
    exact local_value (rangeSet flags first last)

theorem firstItems_of_nil {items : ClassItems} (h : flags.skip false text = []) :
    firstItems flags items text = (items, text) := by
  rw [firstItems]
  split
  next => rfl
  next hskip =>
    rw [h] at hskip
    cases hskip

theorem firstItems_of_cons {items : ClassItems} {c : Char} (h : flags.skip false text = c :: rest) :
    firstItems flags items text =
      if c = '-' then firstItems flags (items.add ⟨.single '-', 0⟩) rest
      else if c = ']' ∧ items.count = 0 then (⟨.single ']', 1, 0⟩, rest)
      else (items, text) := by
  rw [firstItems]
  split
  next hskip =>
    rw [h] at hskip
    cases hskip
  next hskip =>
    rw [h] at hskip
    cases hskip
    rfl

/-- By induction on the length of the text: each dash that is taken leaves less of it. -/
theorem firstItems_append (hmore : Stops more) (flags : Flags) (items : ClassItems)
    (text : List Char) :
    (firstItems flags items text).2 <:+ text ∧
      firstItems flags items (text ++ more) =
        ((firstItems flags items text).1, (firstItems flags items text).2 ++ more) := by
  induction hlength : text.length using Nat.strongRecOn generalizing items text with
  | _ length ih =>
    have hview := flags.view_skip.extend text more hmore
    cases hskip : flags.skip false text with
    | nil =>
      rw [firstItems_of_nil hskip]
      refine ⟨text.suffix_refl, ?_⟩
      rcases hview with hview | ⟨-, hview⟩
      · obtain ⟨tail, rfl⟩ := hmore.begins
        rw [hskip, List.nil_append] at hview
        rw [firstItems_of_cons hview]
        rfl
      · exact firstItems_of_nil hview
    | cons c rest =>
      have hcons := Flags.suffix_of_skip_eq_cons hskip
      have hrest : rest <:+ text := (List.suffix_cons c rest).trans hcons
      have hshorter : rest.length < length := by
        have hle := hcons.length_le
        rw [List.length_cons] at hle
        omega
      rw [firstItems_of_cons hskip, firstItems_of_cons (Flags.skip_append_of_cons hskip)]
      split
      · obtain ⟨hsuffix, heq⟩ := ih rest.length hshorter (items.add ⟨.single '-', 0⟩) rest rfl
        exact ⟨hsuffix.trans hrest, heq⟩
      split
      · exact ⟨hrest, rfl⟩
      · exact ⟨text.suffix_refl, rfl⟩

theorem local_startClass (flags : Flags) (negated : Bool) : Local (startClass flags negated) := by
  intro text more hmore
  obtain ⟨hsuffix, heq⟩ := firstItems_append hmore flags {} text
  unfold startClass
  split
  · exact .error
  · rw [heq]
    exact .ok hsuffix _

theorem local_openClass (flags : Flags) : Local (openClass flags) := by
  intro text more hmore
  unfold openClass
  rw [flags.view_skip.isPrefixOf?_append hmore (by decide) (by decide)]
  cases hcaret : ['^'].isPrefixOf? (flags.skip false text) with
  | some rest =>
    exact (local_startClass flags true rest more hmore).of_suffix
      (flags.view_skip.suffix_of_isPrefixOf? hcaret)
  | none => exact local_startClass flags false text more hmore

theorem local_classStep (flags : Flags) (items : ClassItems) (frames : List ClassFrame) (c : Char) :
    Local (classStep flags items frames c) := by
  intro text more hmore
  unfold classStep
  split
  · rw [asciiClass?_append hmore]
    cases hnamed : asciiClass? text with
    | some read => exact .ok (suffix_of_asciiClass? hnamed) _
    | none => exact (local_openClass flags text more hmore).map fun _ => ⟨_, fun _ => rfl⟩
  split
  · exact .ok text.suffix_refl _
  rw [setOp?_append hmore]
  cases hop : setOp? c text with
  | some read => exact .ok (suffix_of_setOp? hop) _
  | none => exact (local_classRange flags c text more hmore).map fun _ => ⟨_, fun _ => rfl⟩

/-- What one item leads to. -/
def afterItem (flags : Flags) : ClassStep × List Char →
    Except PatternError (Nested CharSet × List Char)
  | (.done whole, rest) => .ok (whole, rest)
  | (.more items frames, rest) => readItems flags items frames rest

theorem readItems_of_nil {items : ClassItems} {frames : List ClassFrame}
    (h : flags.skip false text = []) :
    readItems flags items frames text = .error .unclosedClass := by
  rw [readItems, h]

theorem readItems_of_cons {items : ClassItems} {frames : List ClassFrame} {c : Char}
    (h : flags.skip false text = c :: rest) :
    readItems flags items frames text =
      (classStep flags items frames c rest).bind (afterItem flags) := by
  rw [readItems, h]
  dsimp only
  cases hstep : classStep flags items frames c rest with
  | error e => rfl
  | ok read =>
    obtain ⟨next, left⟩ := read
    cases next with
    | done whole => rfl
    | more items frames =>
      have hle := ((local_classStep _ _ _ c).suffix hstep).length_le
      have hle' := (Flags.suffix_of_skip_eq_cons h).length_le
      rw [List.length_cons] at hle'
      exact if_pos (by omega)

/-- Reading items takes one at least, the bracket that closes the class. -/
theorem suffix_of_readItems {items : ClassItems} {frames : List ClassFrame} {whole : Nested CharSet}
    (h : readItems flags items frames text = .ok (whole, rest)) :
    ∃ c tail, flags.skip false text = c :: tail ∧ rest <:+ tail := by
  induction hlength : text.length using Nat.strongRecOn
    generalizing items frames text with
  | _ length ih =>
    cases hskip : flags.skip false text with
    | nil =>
      rw [readItems_of_nil hskip] at h
      cases h
    | cons c tail =>
      refine ⟨c, tail, rfl, ?_⟩
      rw [readItems_of_cons hskip] at h
      cases hstep : classStep flags items frames c tail with
      | error e =>
        rw [hstep] at h
        cases h
      | ok read =>
        obtain ⟨next, left⟩ := read
        rw [hstep] at h
        have hleft : left <:+ tail := (local_classStep _ _ _ c).suffix hstep
        cases next with
        | done whole' =>
          cases h
          exact hleft
        | more items frames =>
          have hle := (Flags.suffix_of_skip_eq_cons hskip).length_le
          have hle' := hleft.length_le
          rw [List.length_cons] at hle
          obtain ⟨d, after, hskip', hrest⟩ := ih left.length (by omega) h rfl
          have hafter := (Flags.suffix_of_skip_eq_cons hskip').trans hleft
          exact hrest.trans ((List.suffix_cons d after).trans hafter)

/-- By induction on the length of the text: each item leaves less of it. -/
theorem local_readItems (flags : Flags) (items : ClassItems) (frames : List ClassFrame) :
    Local (readItems flags items frames) := by
  intro text more hmore
  induction hlength : text.length using Nat.strongRecOn
    generalizing items frames text with
  | _ length ih =>
    cases hskip : flags.skip false text with
    | nil =>
      rw [readItems_of_nil hskip]
      refine .beyond fun whole rest hy => ?_
      obtain ⟨c, tail, htail, hrest⟩ := suffix_of_readItems hy
      have hle := hrest.length_le
      rcases flags.view_skip.extend text more hmore with hview | ⟨-, hview⟩
      · rw [htail, hskip, List.nil_append] at hview
        rw [← hview, List.length_cons]
        omega
      · rw [htail] at hview
        cases hview
    | cons c tail =>
      have htail := Flags.suffix_of_skip_eq_cons hskip
      have hstep := local_classStep flags items frames c tail more hmore
      rw [readItems_of_cons hskip, readItems_of_cons (Flags.skip_append_of_cons hskip)]
      refine Agree.of_suffix ?_ ((List.suffix_cons c tail).trans htail)
      cases hread : classStep flags items frames c tail with
      | ok read =>
        obtain ⟨next, left⟩ := read
        have hleft := hstep.suffix next left hread
        rw [hstep.extend next left hread]
        cases next with
        | done whole => exact .ok hleft whole
        | more items frames =>
          have hle := htail.length_le
          have hle' := hleft.length_le
          rw [List.length_cons] at hle
          exact (ih left.length (by omega) items frames left rfl).of_suffix hleft
      | error e =>
        refine .beyond fun whole rest hy => ?_
        cases hread' : classStep flags items frames c (tail ++ more) with
        | error e' =>
          rw [hread'] at hy
          cases hy
        | ok read =>
          obtain ⟨next, left⟩ := read
          have hlt := hstep.overrun e next left hread hread'
          rw [hread'] at hy
          cases next with
          | done whole' =>
            cases hy
            exact hlt
          | more items frames =>
            obtain ⟨d, after, hafter, hrest⟩ := suffix_of_readItems hy
            have hle := (Flags.suffix_of_skip_eq_cons hafter).length_le
            have hle' := hrest.length_le
            rw [List.length_cons] at hle
            omega

theorem local_readClass (flags : Flags) : Local (readClass flags) := by
  intro text more hmore
  exact Agree.bind (local_openClass flags text more hmore) hmore fun start =>
    local_readItems flags start.2 [.opened {} start.1]

end Classes

/-! ## Groups -/

section Groups

variable {text rest more : List Char}

theorem suffix_of_readFlags {flags : Flags} {seen : List Char} {value : Bool}
    {found : Flags × Bool × Char} (h : readFlags flags seen value text = .ok (found, rest)) :
    ∃ c tail, text = c :: tail ∧ rest <:+ tail := by
  induction text generalizing flags seen value with
  | nil => cases h
  | cons c tail ih =>
    refine ⟨c, tail, rfl, ?_⟩
    have hlater : ∀ {flags : Flags} {seen : List Char} {value : Bool},
        readFlags flags seen value tail = .ok (found, rest) → rest <:+ tail := by
      intro flags seen value hread
      obtain ⟨d, after, rfl, hrest⟩ := ih hread
      exact hrest.trans (List.suffix_cons d after)
    unfold readFlags at h
    split at h
    · split at h <;> cases h
      exact List.suffix_refl _
    split at h
    · cases h
    split at h
    · exact hlater h
    split at h
    · exact hlater h
    · cases h

theorem local_readFlags (flags : Flags) (seen : List Char) (value : Bool) :
    Local (readFlags flags seen value) := by
  intro text more hmore
  induction text generalizing flags seen value with
  | nil =>
    refine .beyond fun found rest hy => ?_
    obtain ⟨c, tail, hcons, hrest⟩ := suffix_of_readFlags hy
    rw [List.nil_append] at hcons
    rw [hcons]
    exact Nat.lt_succ_of_le hrest.length_le
  | cons c tail ih =>
    have htail := List.suffix_cons c tail
    rw [List.cons_append, readFlags, readFlags]
    split
    · split
      · exact .error
      · exact .ok htail _
    split
    · exact .error
    split
    · exact (ih flags (c :: seen) false).of_suffix htail
    split
    · exact (ih _ (c :: seen) value).of_suffix htail
    · exact .error

theorem local_readNamed (flags : Flags) : Local (readNamed flags) := by
  intro text more hmore
  exact Agree.bind (local_readTo '>' text more hmore) hmore fun name =>
    local_value (namedGroup flags name)

theorem local_readFlagged (flags : Flags) : Local (readFlagged flags) := by
  intro text more hmore
  exact Agree.bind (local_readFlags flags [] true text more hmore) hmore fun found =>
    local_value (ofFlags found)

theorem isLookAround_append (hmore : Stops more) (text : List Char) :
    isLookAround (text ++ more) = isLookAround text := by
  unfold isLookAround
  rw [decide_eq_decide.mpr (hmore.head?_eq_some (by decide) text),
    decide_eq_decide.mpr (hmore.head?_eq_some (by decide) text)]

theorem local_readSpecial (flags : Flags) : Local (readSpecial flags) := by
  intro text more hmore
  unfold readSpecial
  rw [hmore.isPrefixOf?_append (by decide), hmore.isPrefixOf?_append (by decide),
    isLookAround_append hmore]
  cases hangle : ['<'].isPrefixOf? text with
  | some rest =>
    dsimp only [Option.map_some]
    rw [isLookAround_append hmore]
    split
    · exact .error
    · exact (local_readNamed flags rest more hmore).of_suffix (suffix_of_isPrefixOf? hangle)
  | none =>
    cases hname : ['P', '<'].isPrefixOf? text with
    | some rest =>
      exact (local_readNamed flags rest more hmore).of_suffix (suffix_of_isPrefixOf? hname)
    | none =>
      dsimp only [Option.map_none]
      split
      · exact .error
      · exact local_readFlagged flags text more hmore

theorem local_readOpening (flags : Flags) : Local (readOpening flags) := by
  intro text more hmore
  unfold readOpening
  have hview := flags.view_skip
  rw [hview.isPrefixOf?_append hmore (by decide) (by decide)]
  cases hmark : ['?'].isPrefixOf? (flags.skip false text) with
  | some rest =>
    exact (local_readSpecial flags rest more hmore).of_suffix (hview.suffix_of_isPrefixOf? hmark)
  | none => exact .ok text.suffix_refl _

end Groups

/-! ## Repetitions -/

section Repetitions

variable {more : List Char}

theorem local_readGreed (flags : Flags) (bounds : Bool → Regex.Operator) (spaced : Bool) :
    Local (readGreed flags bounds spaced) := by
  intro text more hmore
  unfold readGreed
  have hview : View fun text => if spaced then flags.skip false text else text := by
    cases spaced with
    | true => exact flags.view_skip
    | false => exact .id
  rw [hview.isPrefixOf?_append hmore (by decide) (by decide)]
  cases hmark : ['?'].isPrefixOf? (if spaced then flags.skip false text else text) with
  | some rest => exact .ok (hview.suffix_of_isPrefixOf? hmark) _
  | none => exact .ok text.suffix_refl _

theorem local_readCount : Local readCount := by
  intro text more hmore
  unfold readCount
  dsimp only
  rw [hmore.dropWhile_append (by decide), hmore.takeWhile_append (by decide),
    hmore.dropWhile_append (by decide), hmore.dropWhile_append (by decide)]
  split
  · split
    · refine .ok ?_ _
      exact (List.dropWhile_suffix _).trans ((List.dropWhile_suffix _).trans
        (text.dropWhile_suffix _))
    · exact .error
  · exact .error

theorem agree_readCount_skip (hmore : Stops more) (flags : Flags) (text : List Char) :
    Agree text more (readCount (flags.skip false text))
      (readCount (flags.skip false (text ++ more))) :=
  flags.view_skip.agree local_readCount (by rintro _ ⟨⟩) hmore

theorem local_readRange (flags : Flags) (low : Nat) : Local (readRange flags low) := by
  intro text more hmore
  unfold readRange
  have hview := flags.view_skip
  rw [hview.isPrefixOf?_append hmore (by decide) (by decide)]
  cases hclose : ['}'].isPrefixOf? (flags.skip false text) with
  | some rest =>
    exact (local_readGreed flags _ true rest more hmore).of_suffix
      (hview.suffix_of_isPrefixOf? hclose)
  | none =>
    refine Agree.bind (agree_readCount_skip hmore flags text) hmore fun high => ?_
    intro text more hmore
    dsimp only
    rw [hmore.isPrefixOf?_append (by decide)]
    cases hclose : ['}'].isPrefixOf? text with
    | some rest =>
      dsimp only [Option.map_some]
      split
      · exact (local_readGreed flags _ true rest more hmore).of_suffix
          (suffix_of_isPrefixOf? hclose)
      · exact .error
    | none => exact .error

theorem local_readCounts (flags : Flags) : Local (readCounts flags) := by
  intro text more hmore
  refine Agree.bind (agree_readCount_skip hmore flags text) hmore fun low => ?_
  intro text more hmore
  dsimp only
  rw [hmore.isPrefixOf?_append (by decide), hmore.isPrefixOf?_append (by decide)]
  cases hclose : ['}'].isPrefixOf? text with
  | some rest =>
    exact (local_readGreed flags _ true rest more hmore).of_suffix (suffix_of_isPrefixOf? hclose)
  | none =>
    cases hcomma : [','].isPrefixOf? text with
    | some rest =>
      exact (local_readRange flags low rest more hmore).of_suffix (suffix_of_isPrefixOf? hcomma)
    | none => exact .error

end Repetitions

/-! ## One construct -/

/-- **One construct** — what it is and where it ends does not depend on what follows. -/
theorem local_readConstruct (flags : Flags) (c : Char) : Local (readConstruct flags c) := by
  intro text more hmore
  unfold readConstruct
  split
  · exact local_readOpening flags text more hmore
  · exact .ok text.suffix_refl _
  · exact .ok text.suffix_refl _
  · exact (local_readClass flags text more hmore).map fun _ => ⟨_, fun _ => rfl⟩
  · exact local_readGreed flags _ _ text more hmore
  · exact local_readGreed flags _ _ text more hmore
  · exact local_readGreed flags _ _ text more hmore
  · exact local_readCounts flags text more hmore
  · exact (local_readEscape flags text more hmore).map fun _ => ⟨_, fun _ => rfl⟩
  · split
    · exact .ok text.suffix_refl _
    · exact .error
  · exact .ok text.suffix_refl _
  · exact .ok text.suffix_refl _
  · exact .ok text.suffix_refl _

end ModalEdit.Pattern
