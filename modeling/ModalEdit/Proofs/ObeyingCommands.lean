import ModalEdit.Proofs.ObeyingActs
import ModalEdit.Proofs.OptionAssignments

/-!
# What every command line obeys

The built-in commands one by one, then command lines, by induction on how deep they nest
(`obeys_execute`): a relation that admits what acts do, and that replays of keys obey if the
command lines that hooks run do, is obeyed by all command lines.
-/

namespace ModalEdit.Scene

open Act Text

variable {R : Scene → Scene → Prop} [Admits R]

/-! ## Reading parameters and values -/

theorem obeys_positional (p : Parameters) (index : Nat) : Obeys R (positional p index) := by
  unfold positional
  split
  · exact obeys_pure _
  · exact obeys_throw _

theorem obeys_scopeAt (p : Parameters) (index : Nat) : Obeys R (scopeAt p index) :=
  (obeys_positional p index).bind fun _ => obeys_ofRegistry _

theorem obeys_scopeSwitch (p : Parameters) : Obeys R (scopeSwitch p) := by
  unfold scopeSwitch
  split
  · exact obeys_ofRegistry _
  · exact obeys_pure _

theorem obeys_readKeys (text : String) : Obeys R (readKeys text) := by
  unfold readKeys
  split
  · exact obeys_pure _
  · exact obeys_throw _

theorem obeys_contextFlags (p : Parameters) : Obeys R (contextFlags p) := by
  unfold contextFlags
  split
  · exact obeys_pure _
  · exact obeys_throw _

theorem obeys_readFile (path : String) : Obeys R (readFile path) := by
  refine obeys_get_bind ?_
  intro s
  have hread : R s { s with editor := (s.editor.readFile path).2 } :=
    Admits.note s.editor.registers s.editor.commands s.editor.definedHighlighters s.editor.status
      s.editor.shellCalls _
  dsimp only
  rw [perform_bind_ok (perform_set s _)]
  split
  · exact hread
  · exact hread

theorem obeys_runShell (script : String) (env : Environment) : Obeys R (runShell script env) := by
  refine obeys_get.bind ?_
  intro s
  dsimp only
  split
  · refine Obeys.bind (fun t => ?_) fun _ => obeys_ofExcept _
    exact Admits.note t.editor.registers t.editor.commands t.editor.definedHighlighters
      t.editor.status _ t.editor.fileReads
  · exact obeys_ofExcept _

theorem obeys_expandToken (env : Environment) (token : Token) :
    Obeys R (expandToken env token) := by
  refine obeys_get.bind ?_
  intro s
  dsimp only
  split
  · exact obeys_pure _
  · exact obeys_pure _
  · split
    · exact obeys_pure _
    · exact obeys_throw _
  · exact obeys_pure _
  · split
    · exact obeys_pure _
    · exact obeys_throw _
  · exact (obeys_ofExcept _).bind fun _ => obeys_pure _
  · exact (obeys_runShell _ _).bind fun _ => obeys_pure _

/-! ## Tables -/

theorem obeys_addHook (scope : Scope) (event id filter : String) (body : HookBody) :
    Obeys R (addHook scope event id filter body) :=
  obeys_updateTables fun tables _ hadd => by
    obtain ⟨_, -, rfl⟩ := map_eq_ok.mp hadd
    rfl

theorem obeys_hook (p : Parameters) : Obeys R (hook p) :=
  (obeys_scopeAt p 0).bind fun _ => (obeys_positional p 1).bind fun _ =>
    (obeys_positional p 2).bind fun _ => (obeys_positional p 3).bind fun _ =>
      obeys_addHook _ _ _ _ _

theorem obeys_removeHooks (scope : Scope) (idPattern : String) :
    Obeys R (removeHooks scope idPattern) :=
  obeys_updateTables fun tables _ hremove => by
    obtain ⟨_, -, rfl⟩ := map_eq_ok.mp hremove
    rfl

theorem obeys_rmhooks (p : Parameters) : Obeys R (rmhooks p) :=
  (obeys_scopeAt p 0).bind fun _ => (obeys_positional p 1).bind fun _ =>
    (obeys_removeHooks _ _).bind fun _ => obeys_pure _

theorem obeys_decl (p : Parameters) : Obeys R (decl p) := by
  refine (obeys_positional p 0).bind fun _ => (obeys_positional p 1).bind ?_
  intro name
  refine (obeys_ofRegistry _).bind fun value s => leads_updateTables ?_
  intro place found hplace hdeclared
  obtain rfl : Site.editor = place := Except.ok.inj hplace
  obtain ⟨options, hoptions, rfl⟩ := map_eq_ok.mp hdeclared
  exact .declare hoptions

theorem obeys_mapKey (scope : Scope) (mode : KeymapMode) (key : Key) (keys : List Key) :
    Obeys R (mapKey scope mode key keys) :=
  obeys_updateTables fun _ _ hmap => Except.ok.inj hmap ▸ rfl

theorem obeys_map (p : Parameters) : Obeys R (map p) := by
  refine (obeys_scopeAt p 0).bind ?_
  intro scope
  refine (obeys_positional p 1).bind fun mode => (obeys_ofRegistry _).bind ?_
  intro mode
  refine (obeys_positional p 2).bind fun text => (obeys_readKeys text).bind ?_
  intro keys
  split
  · exact (obeys_positional p 3).bind fun text => (obeys_readKeys text).bind fun keys =>
      obeys_mapKey _ _ _ _
  · exact obeys_throw _

theorem obeys_updateDefined
    (f : HighlighterGroup Highlighter → Except RegistryError (HighlighterGroup Highlighter)) :
    Obeys R (updateDefined f) :=
  obeys_get.bind fun _ => (obeys_ofRegistry _).bind fun groups s =>
    Admits.note s.editor.registers s.editor.commands groups s.editor.status s.editor.shellCalls
      s.editor.fileReads

theorem obeys_updateHighlighters (scope : Scope)
    (f : HighlighterGroup Highlighter → Except RegistryError (HighlighterGroup Highlighter)) :
    Obeys R (updateHighlighters scope f) :=
  obeys_updateTables fun tables _ hf => by
    obtain ⟨_, -, rfl⟩ := map_eq_ok.mp hf
    rfl

theorem obeys_addhl (p : Parameters) : Obeys R (addhl p) := by
  unfold addhl
  dsimp only
  split
  · -- the two switches exclude each other
    exact fun s => Admits.refl s
  · refine obeys_get.bind fun s => (obeys_positional p 0).bind ?_
    intro name
    refine (obeys_ofRegistry _).bind fun factory => (obeys_ofExcept _).bind ?_
    intro built
    split
    · exact obeys_updateDefined _
    · exact (obeys_scopeSwitch p).bind fun scope => obeys_updateHighlighters scope _

theorem obeys_rmhl (p : Parameters) : Obeys R (rmhl p) :=
  (obeys_scopeSwitch p).bind fun _ => (obeys_positional p 0).bind fun _ =>
    obeys_updateHighlighters _ _

theorem obeys_defhl (p : Parameters) : Obeys R (defhl p) :=
  (obeys_positional p 0).bind fun _ => obeys_updateDefined _

theorem obeys_define (p : Parameters) : Obeys R (define p) := by
  refine (obeys_positional p 0).bind fun name => (obeys_positional p 1).bind ?_
  intro line
  refine (obeys_ofExcept _).bind fun passing => obeys_get.bind ?_
  intro s
  have hset : ∀ commands, Obeys R (modifyEditor fun e => { e with commands }) := fun commands t =>
    Admits.note t.editor.registers commands t.editor.definedHighlighters t.editor.status
      t.editor.shellCalls t.editor.fileReads
  dsimp only
  split
  · exact (obeys_pure _).bind hset
  · exact (obeys_ofRegistry _).bind hset

/-! ## Names -/

theorem obeys_reg (p : Parameters) : Obeys R (reg p) :=
  (obeys_positional p 0).bind fun _ => (obeys_ofExcept _).bind fun _ => obeys_setRegister _ _

theorem obeys_nameclient (p : Parameters) : Obeys R (nameclient p) := by
  refine (obeys_positional p 0).bind fun name => obeys_get_bind ?_
  intro s
  rw [perform_bind, perform_ofExcept]
  cases hrename : s.editor.clients.rename s.context.name name with
  | error e => exact Admits.refl s
  | ok clients => exact Admits.rename hrename

theorem obeys_namebuf (p : Parameters) : Obeys R (namebuf p) := by
  refine (obeys_positional p 0).bind fun name => obeys_get_bind ?_
  intro s
  rw [perform_bind, perform_ofExcept]
  cases hrename : s.editor.renameDocument s.document.name name with
  | error e => exact Admits.refl s
  | ok editor => exact Admits.retitle hrename

theorem obeys_echo (p : Parameters) : Obeys R (echo p) := by
  unfold echo
  split
  · exact fun s => Admits.note s.editor.registers s.editor.commands s.editor.definedHighlighters _
      s.editor.shellCalls s.editor.fileReads
  · exact obeys_print _

/-! ## Commands that run command lines -/

theorem obeys_exec {run : Runner} (hreplay : ∀ keys, Obeys R (replayKeys run keys))
    (p : Parameters) : Obeys R (exec run p) :=
  (obeys_contextFlags p).bind fun flags => (obeys_mapM obeys_readKeys).bind fun _ =>
    obeys_route flags (hreplay _)

section Running

variable {run : Runner} (hrun : ∀ env line, Obeys R (run env line))
  (hreplay : ∀ keys, Obeys R (replayKeys run keys))

include hrun

theorem obeys_eval (env : Environment) (p : Parameters) : Obeys R (eval run env p) :=
  (obeys_contextFlags p).bind fun flags => obeys_route flags (hrun env _)

theorem obeys_tryLine (env : Environment) (p : Parameters) : Obeys R (tryLine run env p) := by
  refine (obeys_positional p 0).bind fun line => (obeys_ofExcept _).bind ?_
  intro other
  refine (hrun env line).attempt.bind ?_
  intro result
  split
  · exact obeys_pure _
  · exact hrun env _
  · exact obeys_pure _

theorem obeys_source (p : Parameters) : Obeys R (source run p) := by
  refine (obeys_positional p 0).bind ?_
  intro path
  have hlines : Obeys R (readFile path >>= run {}) := (obeys_readFile path).bind (hrun {})
  refine hlines.attempt.bind ?_
  intro result
  split
  · exact obeys_pure _
  · exact (obeys_writeDebug hrun _).bind fun _ => obeys_throw _

theorem obeys_setOption (p : Parameters) : Obeys R (setOption run p) := by
  refine (obeys_scopeAt p 0).bind fun scope => (obeys_positional p 1).bind ?_
  intro name
  refine (obeys_positional p 2).bind fun text => obeys_get_bind ?_
  intro s
  -- the value to inherit was read in the scene in which the option is set
  refine leads_bind (leads_updateTables ?_) fun value => obeys_runHook hrun _ _
  intro place found hplace hassigned
  obtain ⟨⟨value, options⟩, hoptions, rfl⟩ := map_eq_ok.mp hassigned
  obtain ⟨base, hbase, hvalue, rfl⟩ := (OptionStore.assigned_eq_ok _).mp hoptions
  exact .assign hplace hbase hvalue.type_eq

include hreplay in
/-- **One command** — every built-in command obeys, if the lines that it runs and the keys that it
replays do. -/
theorem obeys_performBuiltin (env : Environment) (p : Parameters) (b : Builtin) :
    Obeys R (performBuiltin run env p b) := by
  cases b with
  | nop => exact obeys_pure _
  | echo => exact obeys_echo p
  | debug => exact obeys_writeDebug hrun _
  | eval => exact obeys_eval hrun env p
  | exec => exact obeys_exec hreplay p
  | «try» => exact obeys_tryLine hrun env p
  | reg => exact obeys_reg p
  | nameclient => exact obeys_nameclient p
  | namebuf => exact obeys_namebuf p
  | source => exact obeys_source hrun p
  | hook => exact obeys_hook p
  | rmhooks => exact obeys_rmhooks p
  | set => exact obeys_setOption hrun p
  | decl => exact obeys_decl p
  | map => exact obeys_map p
  | addhl => exact obeys_addhl p
  | rmhl => exact obeys_rmhl p
  | defhl => exact obeys_defhl p
  | define => exact obeys_define p

include hreplay in
theorem obeys_runLine (env : Environment) (line : String) : Obeys R (runLine run env line) := by
  unfold runLine
  split
  · refine obeys_forM ?_
    intro i
    refine (obeys_expandToken env i.name).bind ?_
    intro name
    refine (obeys_mapM (obeys_expandToken env)).bind fun args => obeys_get.bind ?_
    intro s
    refine (obeys_ofRegistry _).bind ?_
    intro command
    split
    next p _ =>
      cases command.body with
      | builtin b => exact obeys_performBuiltin hrun hreplay env p b
      | script line passing => exact hrun _ line
    next => exact obeys_throw _
  · exact obeys_throw _

end Running

/-! ## Command lines -/

/-- **Command lines** — by induction on how deep lines may nest: the commands of a line run lines
that nest less. -/
theorem obeys_executeWithin
    (hreplay : ∀ run : Runner, (∀ env line, Obeys R (run env line)) →
      ∀ keys, Obeys R (replayKeys run keys))
    (depth : Nat) (env : Environment) (line : String) : Obeys R (executeWithin depth env line) := by
  induction depth generalizing env line with
  | zero => exact obeys_throw _
  | succ depth ih => exact obeys_runLine ih (hreplay _ ih) env line

/-- However deep the host lets lines nest. -/
theorem obeys_execute
    (hreplay : ∀ run : Runner, (∀ env line, Obeys R (run env line)) →
      ∀ keys, Obeys R (replayKeys run keys))
    (env : Environment) (line : String) : Obeys R (execute env line) :=
  obeys_get.bind fun s => obeys_executeWithin hreplay s.editor.host.lineDepth env line

end ModalEdit.Scene
