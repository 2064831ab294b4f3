import ScriptOutline.Proofs.ArgumentTexts
import ScriptOutline.Proofs.Names

/-!
# Parameters as they are written

How a parameter is written, told by rules on the parse tree that do not mention how code is
made of it: which parts of a parameter are its binding and its default, how a binding is
named, and how a default is written. Each rule gives one text. Main statement:
`arguments_follow_parameters`.
-/

namespace ScriptOutline.ParseTree

/-! ## The rules -/

/-- The parameters of a function: the plain children of its list, or without a list the
single parameter, or none. -/
inductive HasParameters : ParseTree → List ParseTree → Prop where
  | list {t l : ParseTree} (hlist : t.field? .parameters = some l) :
      HasParameters t l.plainChildren
  | single {t p : ParseTree} (hlist : t.field? .parameters = none)
      (hsingle : t.field? .parameter = some p) : HasParameters t [p]
  | none {t : ParseTree} (hlist : t.field? .parameters = none)
      (hsingle : t.field? .parameter = none) : HasParameters t []

/-- The binding and the default of a parameter, each of which may be missing. -/
inductive Divides : ParseTree → Option ParseTree → Option ParseTree → Prop where
  | assigned {t : ParseTree} (hkind : t.kind = "assignment_pattern") :
      Divides t (t.field? .left) (t.field? .right)
  | typed {t : ParseTree} (hkind : t.kind = "required_parameter" ∨ t.kind = "optional_parameter") :
      Divides t (t.field? .pattern) (t.field? .value)
  | bare {t : ParseTree}
      (hkind : t.kind ∉ ["assignment_pattern", "required_parameter", "optional_parameter"]) :
      Divides t (some t) none

/-- The name of a binding. A rest pattern puts three dots before the name of its first
plain child. -/
inductive BindingWritten (source : ByteArray) : Option ParseTree → String → Prop where
  | absent : BindingWritten source none ""
  | plain {t : ParseTree} (hkind : t.kind = "identifier" ∨ t.kind = "this") :
      BindingWritten source (some t) (t.text source)
  | rest {t inner : ParseTree} {others : List ParseTree} {name : String}
      (hkind : t.kind = "rest_pattern") (hfirst : t.plainChildren = inner :: others)
      (hname : BindingWritten source (some inner) name) :
      BindingWritten source (some t) ("..." ++ name)
  | pattern {t : ParseTree} (hkind : t.kind ∉ ["identifier", "this"])
      (hrest : t.kind = "rest_pattern" → t.plainChildren = []) :
      BindingWritten source (some t) (String.ofList (Text.compact 60 (t.text source).toList))

/-- What is left of a node when its parentheses around a single plain child are taken
away, as often as there are any. -/
inductive Bares : ParseTree → ParseTree → Prop where
  | inside {t inner core : ParseTree} (hkind : t.kind = "parenthesized_expression")
      (honly : t.plainChildren = [inner]) (hcore : Bares inner core) : Bares t core
  | done {t : ParseTree}
      (hbare : t.kind = "parenthesized_expression" → ∀ inner, t.plainChildren ≠ [inner]) :
      Bares t t

def plainLiteralKinds : List String := ["number", "true", "false", "null", "undefined", "regex"]

/-- How a default is written. Parentheses are taken away to see whether it is a literal, but
stay in the source of what is none. -/
inductive DefaultWritten (source : ByteArray) (d : ParseTree) : String → Prop where
  | string {core : ParseTree} (hcore : d.Bares core) (hkind : core.kind = "string") :
      DefaultWritten source d (String.ofList (StringLiteral.value (core.text source).toList))
  | literal {core : ParseTree} (hcore : d.Bares core) (hkind : core.kind ∈ plainLiteralKinds) :
      DefaultWritten source d (core.text source)
  | source {core : ParseTree} (hcore : d.Bares core)
      (hkind : core.kind ∉ "string" :: plainLiteralKinds) :
      DefaultWritten source d (String.ofList (Text.compact 40 (d.text source).toList))

inductive ParameterWritten (source : ByteArray) (p : ParseTree) : String → Prop where
  | plain {b : Option ParseTree} {name : String} (hparts : p.Divides b none)
      (hname : BindingWritten source b name) : ParameterWritten source p name
  | withDefault {b : Option ParseTree} {d : ParseTree} {name value : String}
      (hparts : p.Divides b (some d)) (hname : BindingWritten source b name)
      (hvalue : d.DefaultWritten source value) :
      ParameterWritten source p (name ++ "=" ++ value)

/-! ## What the rules give -/

variable {source : ByteArray} {t : ParseTree}

theorem hasParameters_formalParameters (t : ParseTree) : t.HasParameters t.formalParameters := by
  unfold formalParameters
  cases hlist : t.field? .parameters with
  | some l => exact .list hlist
  | none =>
      cases hsingle : t.field? .parameter with
      | some p => exact .single hlist hsingle
      | none => exact .none hlist hsingle

theorem divides_iff {b d : Option ParseTree} :
    t.Divides b d ↔ t.binding? = b ∧ t.default? = d := by
  constructor
  · intro h
    cases h with
    | assigned hkind => simp [binding?, default?, hkind]
    | typed hkind => rcases hkind with hkind | hkind <;> simp [binding?, default?, hkind]
    | bare hkind =>
        simp only [List.mem_cons, List.not_mem_nil, or_false, not_or] at hkind
        simp [binding?, default?, hkind]
  · rintro ⟨rfl, rfl⟩
    by_cases hassigned : t.kind = "assignment_pattern"
    · rw [binding?, default?, if_pos hassigned, if_pos hassigned]
      exact .assigned hassigned
    · rw [binding?, default?, if_neg hassigned, if_neg hassigned]
      by_cases htyped : t.kind = "required_parameter" ∨ t.kind = "optional_parameter"
      · rw [if_pos htyped, if_pos htyped]
        exact .typed htyped
      · rw [if_neg htyped, if_neg htyped]
        refine .bare ?_
        simp only [List.mem_cons, List.not_mem_nil, or_false, not_or] at htyped ⊢
        exact ⟨hassigned, htyped⟩

/-- A binding is written as its name. -/
theorem bindingWritten_bindingName (source : ByteArray) (t : ParseTree) :
    BindingWritten source (some t) (Code.bindingName source t) := by
  fun_induction Code.bindingName source t with
  | case1 t hplain => exact .plain (by simpa [isPlainBinding] using hplain)
  | case2 t hplain hrest inner hinner ih =>
      obtain ⟨others, hchildren⟩ := List.head?_eq_some_iff.mp hinner
      exact .rest hrest hchildren ih
  | case3 t hplain hrest hnone =>
      exact .pattern (by simpa [isPlainBinding] using hplain) fun _ =>
        List.head?_eq_none_iff.mp hnone
  | case4 t hplain hrest =>
      exact .pattern (by simpa [isPlainBinding] using hplain) fun h => (hrest h).elim

/-- A binding is written in no other way. -/
theorem BindingWritten.eq {b : Option ParseTree} {name : String}
    (h : BindingWritten source b name) : (b.map (Code.bindingName source)).getD "" = name := by
  induction h with
  | absent => rfl
  | plain hkind =>
      rename_i t
      have hplain : t.isPlainBinding = true := by simpa [isPlainBinding] using hkind
      rw [Option.map_some, Option.getD_some, Code.bindingName, if_pos hplain]
  | rest hkind hfirst hname ih =>
      rename_i t inner others name
      have hplain : ¬ t.isPlainBinding = true := by simp [isPlainBinding, hkind]
      have hinner : t.firstPlain? = some inner := List.head?_eq_some_iff.mpr ⟨others, hfirst⟩
      rw [Option.map_some, Option.getD_some] at ih ⊢
      rw [Code.bindingName, if_neg hplain, if_pos hkind, hinner]
      exact congrArg ("..." ++ ·) ih
  | pattern hkind hrest =>
      rename_i t
      have hplain : ¬ t.isPlainBinding = true := by simpa [isPlainBinding] using hkind
      rw [Option.map_some, Option.getD_some, Code.bindingName, if_neg hplain]
      split
      · rename_i hkind
        have hnone : t.firstPlain? = none := List.head?_eq_none_iff.mpr (hrest hkind)
        rw [hnone]
        rfl
      · rfl

theorem enclosed?_eq_some_iff {inner : ParseTree} :
    t.enclosed? = some inner ↔
      t.kind = "parenthesized_expression" ∧ t.plainChildren = [inner] := by
  unfold enclosed? onlyPlain?
  split
  · rename_i hkind
    split
    · rename_i only heq
      simp [hkind, heq]
    · rename_i hmany
      exact iff_of_false (fun h => by cases h) fun h => hmany inner h.2
  · rename_i hkind
    simp [hkind]

/-- Away with all parentheses: what is left is one node. -/
theorem bares_iff {core : ParseTree} : t.Bares core ↔ t.unwrap = core := by
  constructor
  · intro h
    induction h with
    | inside hkind honly hcore ih =>
        rwa [unwrap_of_enclosed? (enclosed?_eq_some_iff.mpr ⟨hkind, honly⟩)]
    | done hbare =>
        refine unwrap_of_enclosed?_eq_none (Option.eq_none_iff_forall_ne_some.mpr ?_)
        intro inner henclosed
        obtain ⟨hkind, honly⟩ := enclosed?_eq_some_iff.mp henclosed
        exact hbare hkind inner honly
  · rintro rfl
    fun_induction unwrap t with
    | case1 t inner h ih =>
        obtain ⟨hkind, honly⟩ := enclosed?_eq_some_iff.mp h
        exact .inside hkind honly ih
    | case2 t h =>
        refine .done fun hkind inner honly => ?_
        rw [enclosed?_eq_some_iff.mpr ⟨hkind, honly⟩] at h
        cases h

theorem ofKind_eq_string_iff {kind : String} :
    Construct.ofKind kind = .string ↔ kind = "string" := by
  constructor
  · intro h
    unfold Construct.ofKind at h
    split at h
    all_goals first
      | rfl
      | cases h
  · rintro rfl
    rfl

theorem ofKind_eq_plainLiteral_iff {kind : String} :
    Construct.ofKind kind = .plainLiteral ↔ kind ∈ plainLiteralKinds := by
  constructor
  · intro h
    unfold Construct.ofKind at h
    split at h
    all_goals first
      | decide
      | cases h
  · intro h
    have hkinds : ∀ kind ∈ plainLiteralKinds, Construct.ofKind kind = .plainLiteral := by decide
    exact hkinds kind h

theorem literal?_eq (source : ByteArray) (t : ParseTree) :
    t.literal? source =
      if t.unwrap.kind = "string" then
        some (String.ofList (StringLiteral.value (t.unwrap.text source).toList))
      else if t.unwrap.kind ∈ plainLiteralKinds then some (t.unwrap.text source)
      else none := by
  rw [literal?]
  split
  · rename_i hconstruct
    rw [if_pos (ofKind_eq_string_iff.mp hconstruct)]
  · rename_i hconstruct
    have hstring : t.unwrap.kind ≠ "string" := fun h => by
      rw [ofKind_eq_string_iff.mpr h] at hconstruct
      cases hconstruct
    rw [if_neg hstring, if_pos (ofKind_eq_plainLiteral_iff.mp hconstruct)]
  · rename_i hstring hliteral
    rw [if_neg fun h => hstring (ofKind_eq_string_iff.mpr h),
      if_neg fun h => hliteral (ofKind_eq_plainLiteral_iff.mpr h)]

/-- A default is written in one way. -/
theorem defaultWritten_iff {value : String} :
    t.DefaultWritten source value ↔ t.defaultText source = value := by
  have hapart : "string" ∉ plainLiteralKinds := by decide
  rw [defaultText, literal?_eq]
  constructor
  · intro h
    cases h with
    | string hcore hkind =>
        obtain rfl := bares_iff.mp hcore
        rw [if_pos hkind]
        rfl
    | literal hcore hkind =>
        obtain rfl := bares_iff.mp hcore
        have hstring : t.unwrap.kind ≠ "string" := fun h => hapart (h ▸ hkind)
        rw [if_neg hstring, if_pos hkind]
        rfl
    | source hcore hkind =>
        obtain rfl := bares_iff.mp hcore
        obtain ⟨hstring, hliteral⟩ := not_or.mp (mt List.mem_cons.mpr hkind)
        rw [if_neg hstring, if_neg hliteral]
        rfl
  · rintro rfl
    have hcore : t.Bares t.unwrap := bares_iff.mpr rfl
    by_cases hstring : t.unwrap.kind = "string"
    · rw [if_pos hstring]
      exact .string hcore hstring
    · rw [if_neg hstring]
      by_cases hliteral : t.unwrap.kind ∈ plainLiteralKinds
      · rw [if_pos hliteral]
        exact .literal hcore hliteral
      · rw [if_neg hliteral]
        exact .source hcore fun h => (List.mem_cons.mp h).elim hstring hliteral

/-- A parameter is written in one way. -/
theorem parameterWritten_iff {argument : String} :
    t.ParameterWritten source argument ↔ t.argument source = argument := by
  rw [ParseTree.argument]
  constructor
  · intro h
    cases h with
    | plain hparts hname =>
        obtain ⟨hbinding, hdefault⟩ := divides_iff.mp hparts
        rw [hdefault, boundName, hbinding]
        exact hname.eq
    | withDefault hparts hname hvalue =>
        obtain ⟨hbinding, hdefault⟩ := divides_iff.mp hparts
        rw [hdefault, boundName, hbinding]
        simp only [hname.eq, defaultWritten_iff.mp hvalue]
  · rintro rfl
    have hname : BindingWritten source t.binding? (t.boundName source) := by
      rw [boundName]
      cases t.binding? with
      | none => exact .absent
      | some b => exact bindingWritten_bindingName source b
    cases hdefault : t.default? with
    | none => exact .plain (divides_iff.mpr ⟨rfl, hdefault⟩) hname
    | some d =>
        exact .withDefault (divides_iff.mpr ⟨rfl, hdefault⟩) hname (defaultWritten_iff.mpr rfl)

/-! ## Whole lists -/

theorem enclosed?_of_isFunction (h : t.isFunction = true) : t.enclosed? = none := by
  have hkind : t.kind ≠ "parenthesized_expression" := fun hkind => by
    rw [isFunction, hkind] at h
    revert h
    decide
  rw [enclosed?, if_neg hkind]

/-- The visit of a function gives an entry with the arguments of its parameters. -/
theorem visit_ofTree_of_isFunction (source : ByteArray) (h : t.isFunction = true)
    (hint : String) (level : Nat) :
    ∃ entry, (Code.ofTree source t).visit hint level = .declaration entry ∧
      entry.args = t.formalParameters.map (argument source) := by
  have hfunction : (Code.ofTree source t).function? =
      some ((Code.functionOf source t).map (Code.ofOperand source)) := by
    rw [Code.function?_ofTree (enclosed?_of_isFunction h), if_pos h]
  exact ⟨_, Code.visit_of_function? hfunction hint level,
    Code.arguments_map source t.formalParameters⟩

/-- The entry of a function has one argument for each of its parameters, and the argument
is the one text that the rules give for this parameter, whatever the others are. -/
theorem arguments_follow_parameters (source : ByteArray) (t : ParseTree)
    (hkind : t.kind ∈ functionKinds) (hint : String) (level : Nat) :
    ∃ entry parameters, (Code.ofTree source t).visit hint level = .declaration entry ∧
      t.HasParameters parameters ∧ entry.args.length = parameters.length ∧
        ∀ (i : Nat) (p : ParseTree), parameters[i]? = some p →
          ∀ argument, entry.args[i]? = some argument ↔ p.ParameterWritten source argument := by
  obtain ⟨entry, hvisit, hargs⟩ :=
    visit_ofTree_of_isFunction source (isFunction_iff.mpr hkind) hint level
  refine ⟨entry, t.formalParameters, hvisit, hasParameters_formalParameters t, ?_, ?_⟩
  · rw [hargs, List.length_map]
  · intro i p hp argument
    rw [hargs, List.getElem?_map, hp, Option.map_some, Option.some_inj, parameterWritten_iff]

def sampleParametersSource : ByteArray :=
  "(a, \x7bb\x7d = (1), d = ('x\\ty'), ...[c]) => 0".toUTF8

/-- An arrow function with a plain parameter, a pattern with a number in parentheses for its
default, a name with a string in parentheses and a rest pattern around a pattern. -/
def sampleParameters : ParseTree :=
  node ⟨"arrow_function", true, false, false, 0, 41, 0, []⟩
    [node ⟨"formal_parameters", true, false, false, 0, 36, 0, [.parameters]⟩
      [node ⟨"identifier", true, false, false, 1, 2, 0, []⟩ [],
        node ⟨"assignment_pattern", true, false, false, 4, 13, 0, []⟩
          [node ⟨"object_pattern", true, false, false, 4, 7, 0, [.left]⟩ [],
            node ⟨"parenthesized_expression", true, false, false, 10, 13, 0, [.right]⟩
              [node ⟨"number", true, false, false, 11, 12, 0, []⟩ []]],
        node ⟨"assignment_pattern", true, false, false, 15, 27, 0, []⟩
          [node ⟨"identifier", true, false, false, 15, 16, 0, [.left]⟩ [],
            node ⟨"parenthesized_expression", true, false, false, 19, 27, 0, [.right]⟩
              [node ⟨"string", true, false, false, 20, 26, 0, []⟩ []]],
        node ⟨"rest_pattern", true, false, false, 29, 35, 0, []⟩
          [node ⟨"array_pattern", true, false, false, 32, 35, 0, []⟩ []]],
      node ⟨"number", true, false, false, 40, 41, 0, [.body]⟩ []]

theorem arguments_of_sampleParameters :
    ∃ entry parameters,
      (Code.ofTree sampleParametersSource sampleParameters).visit "f" 0 = .declaration entry ∧
        sampleParameters.HasParameters parameters ∧ entry.args.length = parameters.length ∧
          ∀ (i : Nat) (p : ParseTree), parameters[i]? = some p →
            ∀ argument, entry.args[i]? = some argument ↔
              p.ParameterWritten sampleParametersSource argument :=
  arguments_follow_parameters sampleParametersSource sampleParameters (by decide) "f" 0

end ScriptOutline.ParseTree
