import SqlStubs.Proofs.Translator.Outcome
import SqlStubs.Proofs.TypeHint

/-!
# The types that aggregates show

`translate_aggregate_type`: the type in the stub of an aggregate is that of its last final function,
or else of its last other function, or else its last state type; and the type of a function is the
one with which it was last declared before the aggregate, or else the one that was known at the
start.

The first half is about the options of one aggregate: what decides among their suggestions is known
by the kinds that they come from (`TypeHint.decide_eq_lastFrom?`), and each comes from an option.
The second half is about the history of a run: what is known of a name after some statements is what
the last of them said that declares a function of that name (`get_learnedAll`).
-/

namespace SqlStubs

/-! ### The option that decides -/

namespace AggregateDeclaration

variable {types : ReturnTypes} {d : AggregateDeclaration}

/-- The last option of an aggregate that is of one of these kinds. -/
def lastOption? (d : AggregateDeclaration) (kinds : List OptionKind) : Option AggregateOption :=
  (d.options.filter (·.kind ∈ kinds)).getLast?

/-- The type of an aggregate if the return types of functions are these: that of its last final
function, or else of its last other function, or else its last state type. -/
def typeFrom (returnType : Text → Text) (d : AggregateDeclaration) : Text :=
  match d.lastOption? [.finalfunc] with
  | some f => returnType f.value
  | none =>
    match d.lastOption? [.sfunc, .prefunc] with
    | some f => returnType f.value
    | none =>
      match d.lastOption? [.stype] with
      | some state => state.value
      | none => []

theorem kind_mem_of_mem_lastOption? {kinds : List OptionKind} {option : AggregateOption}
    (h : option ∈ d.lastOption? kinds) : option.kind ∈ kinds := by
  simpa using (List.mem_filter.1 (List.mem_of_getLast? h)).2

/-- A function suggests its return type, and a state type itself. -/
theorem type_ofOption (types : ReturnTypes) (option : AggregateOption) :
    (TypeHint.ofOption types option).type =
      match option.kind with
      | .finalfunc | .sfunc | .prefunc => types.get option.value
      | .stype => option.value
      | .initcond => [] := by
  unfold TypeHint.ofOption
  cases option.kind <;> rfl

/-- Which options a suggestion of some kinds can come from: an initial condition suggests
nothing. -/
theorem comesFrom_ofOption (types : ReturnTypes) (kinds : List OptionKind)
    (option : AggregateOption) :
    (TypeHint.ofOption types option).comesFrom kinds = true ↔
      option.kind ∈ kinds ∧ option.kind ≠ .initcond := by
  unfold TypeHint.ofOption
  cases option.kind <;> simp [TypeHint.comesFrom]

/-- The last suggestion that comes from some kinds comes from the last option of these kinds. -/
theorem lastFrom?_ofOption {hinted : List OptionKind} (kinds : List OptionKind)
    (hkinds : ∀ kind, kind ∈ hinted ∧ kind ≠ .initcond ↔ kind ∈ kinds) :
    TypeHint.lastFrom? hinted (d.options.map (TypeHint.ofOption types)) =
      (d.lastOption? kinds).map (TypeHint.ofOption types) := by
  rw [TypeHint.lastFrom?, lastOption?, List.filter_map, List.getLast?_map]
  congr 3
  funext option
  rw [Bool.eq_iff_iff, Function.comp_apply, comesFrom_ofOption, hkinds, decide_eq_true_iff]

/-- The type of an aggregate is found by the kinds of its options. -/
theorem type_eq_typeFrom (types : ReturnTypes) (d : AggregateDeclaration) :
    d.type types = d.typeFrom types.get := by
  rw [AggregateDeclaration.type, TypeHint.decide_eq_lastFrom?,
    lastFrom?_ofOption [.finalfunc] fun kind => by cases kind <;> decide,
    lastFrom?_ofOption [.sfunc, .prefunc] fun kind => by cases kind <;> decide,
    lastFrom?_ofOption [.stype] fun kind => by cases kind <;> decide]
  unfold typeFrom
  -- the three kinds in the order in which they decide
  cases hfinal : d.lastOption? [.finalfunc] with
  | some f =>
    have hkind := List.mem_singleton.1 (kind_mem_of_mem_lastOption? hfinal)
    show (TypeHint.ofOption types f).type = types.get f.value
    rw [type_ofOption, hkind]
  | none =>
    cases hother : d.lastOption? [.sfunc, .prefunc] with
    | some f =>
      have hkind : f.kind = .sfunc ∨ f.kind = .prefunc := by
        simpa using kind_mem_of_mem_lastOption? hother
      show (TypeHint.ofOption types f).type = types.get f.value
      rw [type_ofOption]
      rcases hkind with hkind | hkind <;> rw [hkind]
    | none =>
      cases hstate : d.lastOption? [.stype] with
      | some state =>
        have hkind := List.mem_singleton.1 (kind_mem_of_mem_lastOption? hstate)
        show (TypeHint.ofOption types state).type = state.value
        rw [type_ofOption, hkind]
      | none => rfl

end AggregateDeclaration

/-! ### The history of a run -/

namespace Translator

variable {o : TranslatorOptions} {types : ReturnTypes}

/-- The function of a name that a statement declares, if it does. -/
def declared? (name : Text) (s : Statement) : Option FunctionDeclaration :=
  match s.body with
  | .function d => if d.name = name then some d else none
  | _ => none

/-- The return type of a function after some statements: as the last of them says that declares a
function of that name, or else as it was known before. -/
def lastReturnType (o : TranslatorOptions) (types : ReturnTypes) (statements : List Statement)
    (name : Text) : Text :=
  match (statements.filterMap (declared? name)).getLast? with
  | some d => o.returnType d
  | none => types.get name

/-- A statement changes what is known of the one name that it declares. -/
theorem get_learned (s : Statement) (name : Text) :
    (learned o types s).get name =
      match declared? name s with
      | some d => o.returnType d
      | none => types.get name := by
  unfold learned declared?
  cases s.body with
  | function d =>
    dsimp only
    rw [ReturnTypes.get_insert]
    by_cases hname : d.name = name
    · rw [if_pos hname.symm, if_pos hname]
    · rw [if_neg (Ne.symm hname), if_neg hname]
  | empty | comment | newline | aggregate => rfl

/-- What is known of a name after some statements is what the last of them said that declares it. -/
theorem get_learnedAll (statements : List Statement) (name : Text) :
    (learnedAll o types statements).get name = lastReturnType o types statements name := by
  unfold lastReturnType
  induction statements generalizing types with
  | nil => rfl
  | cons s rest ih =>
    rw [getLast?_filterMap_cons]
    refine (@ih (learned o types s)).trans ?_
    cases (rest.filterMap (declared? name)).getLast? with
    | some d => rfl
    | none => exact get_learned s name

/-- The type that the stub of an aggregate shows, in full: wherever an aggregate is applied, its
stub comes after what is written for the statements before it, and shows the type that follows from
its options and from the functions that these statements declare. -/
theorem translate_aggregate_type (o : TranslatorOptions) (types : ReturnTypes) (source : Text)
    (front rest : List Statement) (s : Statement) (d : AggregateDeclaration)
    (hsplit : applied o.lenient (Parser.items (Lexer.tokens source)) = front ++ s :: rest)
    (hbody : s.body = .aggregate d) :
    let type := d.typeFrom (lastReturnType o.withDefaults types front)
    let head := o.withDefaults.aggregateMarker ++ Text.utf8 " " ++ type
    ∃ blank after,
      ((Translator.new o {} types).translate source).1.flush.output =
        rendering o.withDefaults types [] front ++ List.replicate blank 0x0A
          ++ stub head d.name d.arguments ++ after := by
  intro type head
  have htype : type = d.type (learnedAll o.withDefaults types front) := by
    rw [AggregateDeclaration.type_eq_typeFrom]
    exact congrArg d.typeFrom (funext fun name => (get_learnedAll front name).symm)
  have hemitted : emitted o.withDefaults (learnedAll o.withDefaults types front) s =
      some (stub head d.name d.arguments) := by
    unfold emitted
    rw [hbody]
    simp only [head, htype]
  obtain ⟨after, hafter⟩ := exists_rendering_eq_append o.withDefaults
    (learned o.withDefaults (learnedAll o.withDefaults types front) s)
    (rendering o.withDefaults types [] front ++ written o.withDefaults
      (learnedAll o.withDefaults types front) (rendering o.withDefaults types [] front) s) rest
  refine ⟨s.location.line - (1 + Text.newlines (rendering o.withDefaults types [] front)), after,
    ?_⟩
  rw [output_flush_translate, hsplit, rendering_append, rendering, hafter, written, hemitted]
  simp only [List.append_assoc]

/-- The last declaration before an aggregate decides, under whatever schema and in whatever quotes:
not an earlier or a later one, and not the state type.  The statement that is left out changes
nothing. -/
theorem translate_aggregate_type_redeclared :
    let source := Text.utf8 "CREATE FUNCTION f() RETURNS int; x;\n"
      ++ Text.utf8 "CREATE FUNCTION s.\"f\"() RETURNS SETOF text;\n"
      ++ Text.utf8 "CREATE AGGREGATE g(*)(SFUNC=f, STYPE=int); CREATE FUNCTION f();"
    ∃ blank after,
      ((Translator.new { lenient := true } {} {}).translate source).1.flush.output =
        Text.utf8 "int f() \x7b \x7d;\nset<text> f() \x7b \x7d;\n" ++ List.replicate blank 0x0A
          ++ Text.utf8 "@aggregate set<text> g() \x7b \x7d;" ++ after := by
  intro source
  generalize hall : applied true (Parser.items (Lexer.tokens source)) = all
  let d : AggregateDeclaration :=
    { name := Text.utf8 "g", wildcard := true, arguments := [],
      options := [⟨⟨3, 23, 102⟩, .sfunc, Text.utf8 "f"⟩, ⟨⟨3, 32, 111⟩, .stype, Text.utf8 "int"⟩] }
  have hsplit : applied true (Parser.items (Lexer.tokens source)) =
      all.take 4 ++ ⟨⟨3, 1, 80⟩, .aggregate d⟩ :: all.drop 5 := by
    rw [← hall]
    decide +kernel
  have hfront : rendering (TranslatorOptions.withDefaults { lenient := true }) {} [] (all.take 4) =
      Text.utf8 "int f() \x7b \x7d;\nset<text> f() \x7b \x7d;\n" := by
    rw [← hall]
    decide +kernel
  have htype : d.typeFrom (lastReturnType (TranslatorOptions.withDefaults { lenient := true }) {}
      (all.take 4)) = Text.utf8 "set<text>" := by
    rw [← hall]
    decide +kernel
  obtain ⟨blank, after, houtput⟩ :=
    translate_aggregate_type { lenient := true } {} source _ _ _ d hsplit rfl
  rw [hfront, htype] at houtput
  exact ⟨blank, after, houtput⟩

end Translator

end SqlStubs
