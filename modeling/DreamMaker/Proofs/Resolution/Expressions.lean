import DreamMaker.Proofs.Resolution.Congruence

namespace DreamMaker.Context.Steps

open Resolution

open List (Forall₂ rel_append forall_mem_cons)
open Resolution

variable (steps : Steps ids mild R context context')

include steps

theorem application (function : Function) (argument span : Span) :
    R (fun term => Binds context mild arg value → Binds context mild (.mk (.apply function arg) span) term)
      (application function value argument span)
      (Resolution.application function (value.renumber ids) argument span) := by
  cases function with
  | initial =>
    simp only [Resolution.application, Term.isPlace_renumber]
    split
    · next isPlace =>
      rcases value with ⟨_, _, _, span⟩
      exact steps.pure fun below => .of (.initial isPlace) (.cons below .nil)
    · exact steps.fail _ nofun
  | isSaved =>
    simp only [Resolution.application, Term.isPlace_renumber]
    split
    · next isPlace => exact steps.pure fun below => .of (.isSaved isPlace) (.cons below .nil)
    · exact steps.fail _ nofun
  | nameOf =>
    simp only [Resolution.application, Term.nameText?_renumber]
    split
    · exact steps.pure fun _ => .of .nameOf .nil
    · exact steps.fail _ nofun
  | isNull => exact steps.pure fun below => .of .isNull (.cons below .nil)
  | length => exact steps.pure fun below => .of .length (.cons below .nil)
  | prob => exact steps.pure fun below => .of .prob (.cons below .nil)
  | math => exact steps.pure fun below => .of .math (.cons below .nil)

theorem nullTest (op : BinaryOp) (value : Term) (span : Span) (here : holds (nullTest op value span)) :
    R holds (pure (nullTest op value span)) (pure (nullTest op (value.renumber ids) span)) := by
  unfold Resolution.nullTest at here ⊢
  split at here <;> simp only [*]
  · exact steps.pure here
  · exact steps.pure here

theorem typeTest (value : Term) (type? : Option Term) (span : Span) :
    R (fun term => ∃ path, term = .plain (.builtin .isType [value, type?.getD (.path path span)]) span)
      (typeTest value type? span)
      (typeTest (value.renumber ids) (Numbered.renumber ids type?) span) := by
  rcases value with ⟨_, valueType?, _, _⟩
  rcases type? with _ | _
  · rcases valueType? with _ | path
    · exact steps.fail _ nofun
    · exact steps.pure ⟨path, rfl⟩
  · exact steps.pure ⟨.root, rfl⟩

theorem locatedType (inferred? : Option TypePath) (type? : Option Term) (span : Span) :
    R (fun type => ∃ path, type = type?.getD (.path path span)) (locatedType inferred? type? span)
      (locatedType inferred? (Numbered.renumber ids type?) span) := by
  rcases type? with _ | type
  · exact steps.bind (steps.infer _ _) fun path => steps.pure fun _ => ⟨path, rfl⟩
  · exact steps.pure ⟨.root, rfl⟩

theorem argumentName (key? : Option Expr) :
    R (fun _ => ∀ key ∈ key?, key.isConstant ∨ mild (.located .invalidArgumentKey
      key.span "Invalid argument key, only named arguments are supported here"))
    (argumentName key?) (argumentName key?) := by
  unfold Resolution.argumentName
  split
  · exact steps.pure nofun
  next key =>
  split
  · next text =>
    refine steps.pure fun _ same => .inl ?_
    cases same
    rw [Expr.isConstant, text]
    rfl
  · refine steps.bind (steps.report _) fun _ => steps.pure fun reported _ same => .inr ?_
    cases same
    exact reported

omit steps in
theorem start_renumber :
    Walk.start (Numbered.renumber ids base) = Numbered.renumber ids (Walk.start base) := by
  cases base
  rfl

-- By recursion on the tree: each clause follows the clause of the definition, step by step.
mutual

theorem runs_expr (inferred? : Option TypePath) :
    (e : Expr) → R (Binds context mild e) (expr context inferred? e) (expr context' inferred? e)
  | .mk (.literal value) span => by
    cases value with
    | path path => exact steps.constantPath path span fun _ _ => .of .literal .nil
    | null | integer | float | string | resource => exact steps.pure (.of .literal .nil)
  | .mk (.search base target) span => by
    simp only [expr, resolveNode, Context.searchedPath, steps.types.search?]
    split
    · exact steps.constantPath _ span fun _ _ => .of .search .nil
    · exact steps.fail _ nofun
  | .mk (.format _ holes) _ => steps.bind (runs_holes holes) fun _ => steps.pure (.of .format)
  | .mk (.name name) span => steps.mono (steps.name inferred? name span) fun _ => .name
  | .mk (.declare name _) span => steps.mono (steps.name inferred? name span) fun _ => .declare
  | .mk (.result) _ => steps.pure (.of .result .nil)
  | .mk (.unary op operand) _ => by
    refine steps.bind (runs_expr none operand) fun value => ?_
    by_cases mutating : op.isMutating = true
    · simp only [mutating]
      refine steps.bind (steps.writable operand value) fun writes => ?_
      cases writes with
      | false => exact steps.pure fun reported below => .unchanged below reported
      | true => exact steps.pure fun writes below => .of (.unary fun _ => writes) (.cons below .nil)
    · simp only [mutating]
      exact steps.pure fun below => .of (.unary (absurd · mutating)) (.cons below .nil)
  | .mk (.binary op left right) span => by
    simp only [expr, resolveNode]
    split
    · next null =>
      exact steps.bind (runs_expr none right) fun value =>
        steps.nullTest op value span (.nullLeft (Bool.and_eq_true_iff.1 null).2)
    · split
      · next null =>
        exact steps.bind (runs_expr none left) fun value =>
          steps.nullTest op value span (.nullRight (Bool.and_eq_true_iff.1 null).2)
      · exact steps.bind (runs_expr none left) fun _ => steps.bind (runs_expr none right) fun _ =>
          steps.pure fun second first => .of .binary (.cons first (.cons second .nil))
  | .mk (.assign op target value) _ => by
    refine steps.bind (runs_expr none target) fun place => ?_
    rw [show (Numbered.renumber ids place).type? = place.type? from place.type?_renumber _]
    refine steps.bind (runs_expr place.type? value) fun _ => steps.bind (steps.writable target place) fun writes => ?_
    cases writes with
    | false => exact steps.pure fun reported second _ => .unassigned second reported
    | true => exact steps.pure fun writes second first => .of (.assign writes) (.cons first (.cons second .nil))
  | .mk (.ternary condition yes no) _ => by
    refine steps.bind (runs_expr none condition) fun condition => steps.bind (runs_expr inferred? yes) fun yes => ?_
    refine steps.bind (runs_expr inferred? no) fun no => ?_
    rcases yes with ⟨yes, _, _, _⟩
    rcases no with ⟨no, _, _, _⟩
    exact steps.pure fun third second first => .of .ternary (.cons first (.cons second (.cons third .nil)))
  | .mk (.member value container) _ =>
    steps.bind (runs_expr none value) fun _ => steps.bind (runs_expr none container) fun _ =>
      steps.pure fun second first => .of .member (.cons first (.cons second .nil))
  | .mk (.between value start stop step?) _ =>
    steps.bind (runs_expr none value) fun _ => steps.bind (runs_expr none start) fun _ =>
      steps.bind (runs_expr none stop) fun _ => steps.bind (runs_option step?) fun _ =>
        steps.pure fun fourth third second first => .of .between (.cons first (.cons second (.cons third fourth)))
  | .mk (.new (.path path) args) span => by
    refine steps.bind (runs_args args) fun args => ?_
    refine steps.bind (show R (fun _ => True) _ _ from steps.constantPath path span fun _ _ => trivial) fun term => ?_
    rw [show (Numbered.renumber ids term).path? = term.path? from term.path?_renumber _]
    split
    · exact steps.pure fun _ args => .of (.newPath rfl args.keyed) args.below
    · exact steps.fail _ nofun
  | .mk (.new .inferred args) _ => steps.bind (runs_args args) fun _ => steps.bind (steps.infer _ _) fun _ =>
    steps.pure fun _ args => .of (.newPath rfl args.keyed) args.below
  | .mk (.new (.value type) args) _ => steps.bind (runs_args args) fun _ => steps.bind (runs_expr none type) fun _ =>
    steps.pure fun first args => .of (.new args.keyed) (.cons first args.below)
  | .mk (.chain base links) span => by
    simp only [expr, resolveNode]
    by_cases isGlobal : base.name? = some "global"
    · rw [if_pos isGlobal, if_pos isGlobal]
      exact steps.bind (runs_global isGlobal links) fun walk => steps.finish walk span id
    rw [if_neg isGlobal, if_neg isGlobal]
    refine steps.next (runs_expr none base) fun root bound => ?_
    rw [start_renumber]
    exact steps.bind (runs_links links (.start root)) fun walk =>
      steps.finish walk span fun second first => .chain isGlobal bound first second
  | .mk (.call target args) span => steps.bind (steps.procTarget span target) fun _ =>
    steps.bind (runs_args args) fun _ =>
    steps.pure fun args visible => .of (.call args.keyed visible) args.below
  | .mk (.dynamicCall callee args) _ => steps.bind (runs_values callee) fun _ => steps.bind (runs_args args) fun _ =>
    steps.pure fun args first => .of (.dynamicCall args.keyed (by simpa using first.length_eq))
      (rel_append first args.below)
  | .mk (.scope none name none) _ => by
    simp only [expr, resolveNode]
    split
    · next isVars =>
      subst isVars
      exact steps.pure (.of (.scope (.vars rfl)) .nil)
    · exact steps.scopedVar _ _ fun _ _ scopes => .of (.scope scopes) (by cases scopes <;> exact .nil)
  | .mk (.scope none name (some args)) _ => by
    simp only [expr, resolveNode, steps.types.hasGlobalProc]
    split
    · exact steps.bind (runs_args args) fun _ => steps.pure fun args => .of (.scopeCall args.keyed) args.below
    · exact steps.failed _ _ _ nofun
  | .mk (.scope (some base) name none) span =>
    steps.bind (runs_expr none base) fun root => steps.bind (steps.scopeOwner root _) fun owner =>
      steps.scopedVar owner span fun _ _ scopes _ _ => .of (.scope scopes) (by cases scopes <;> exact .nil)
  | .mk (.scope (some base) name (some [])) span =>
    steps.bind (runs_expr none base) fun root => steps.bind (steps.scopeOwner root _) fun _ =>
      steps.constantPath _ span fun _ _ _ _ => .of .reference .nil
  | .mk (.scope (some base) name (some (_ :: _))) _ =>
    steps.bind (runs_expr none base) fun root => steps.bind (steps.scopeOwner root _) fun _ => steps.fail _ nofun
  | .mk (.gather .list args) _ => steps.bind (runs_entries args) fun _ => steps.pure (.of .list)
  | .mk (.gather .newList args) _ => steps.bind (runs_values args) fun _ => steps.pure (.of .newList)
  | .mk (.gather .addText args) _ => steps.bind (runs_values args) fun _ => steps.pure (.of .addText)
  | .mk (.gather .gradient args) _ => steps.bind (runs_values args) fun _ => steps.pure (.of .gradient)
  | .mk (.gather .rgb args) _ => steps.bind (runs_values args) fun _ => steps.pure (.of .rgb)
  | .mk (.pick choices) _ => steps.bind (runs_entries choices) fun _ => steps.pure (.of .pick)
  | .mk (.input args _ list?) _ => steps.bind (runs_values args) fun _ => steps.bind (runs_option list?) fun _ =>
    steps.pure fun second first => .of .input (rel_append first second)
  | .mk (.apply function arg) span => steps.bind (runs_expr none arg) fun _ =>
    steps.application function arg.span span
  | .mk (.applyPair _ first second) _ => steps.bind (runs_expr none first) fun _ =>
    steps.bind (runs_expr none second) fun _ =>
    steps.pure fun second first => .of .applyPair (.cons first (.cons second .nil))
  | .mk (.log value none) _ => steps.bind (runs_expr none value) fun _ => steps.pure fun below =>
    .of .log (.cons below .nil)
  | .mk (.log value (some base)) _ => steps.bind (runs_expr none base) fun _ =>
    steps.bind (runs_expr none value) fun _ =>
    steps.pure fun second first => .of .log (.cons first (.cons second .nil))
  | .mk (.isType value type?) span => by
    refine steps.bind (runs_expr none value) fun value => steps.bind (runs_option type?) fun type? => ?_
    refine steps.mono (steps.typeTest value type? span) ?_
    rintro _ ⟨path, rfl⟩ second first
    exact .of .isType (.cons first (.cons (Binds.getD second path span) .nil))
  | .mk (.locate type? container?) span => by
    refine steps.bind (runs_option type?) fun type? =>
      steps.bind (steps.locatedType inferred? type? span) fun type => ?_
    refine steps.bind (runs_option container?) fun _ => ?_
    rw [show (Numbered.renumber ids type).path? = type.path? from type.path?_renumber _]
    refine steps.pure ?_
    rintro second ⟨path, rfl⟩ first
    exact .of .locate (.cons (Binds.getD first path span) second)
  | .mk (.locateAt x y z) _ => steps.bind (runs_expr none x) fun _ => steps.bind (runs_expr none y) fun _ =>
    steps.bind (runs_expr none z) fun _ => steps.pure fun third second first =>
      .of .locateAt (.cons first (.cons second (.cons third .nil)))

theorem runs_option : (e? : Option Expr) → R (fun term? => Forall₂ (Binds context mild) e?.toList term?.toList)
    (resolveOption context e?) (resolveOption context' e?)
  | none => steps.pure .nil
  | some e => steps.bind (runs_expr none e) fun _ => steps.pure fun here => .cons here .nil

theorem runs_holes : (holes : List (Option Expr)) →
    R (Forall₂ (Binds context mild) (holes.map (·.getD (.null .unknown)))) (resolveHoles context span holes)
      (resolveHoles context' span holes)
  | [] => steps.pure .nil
  | none :: rest => steps.bind (runs_holes rest) fun _ => steps.pure (.cons (.of .literal .nil))
  | some e :: rest => steps.bind (runs_expr none e) fun _ => steps.bind (runs_holes rest) fun _ =>
    steps.pure fun there here => .cons here there

theorem runs_args : (args : List Argument) →
    R (BindsArgs context mild args) (resolveArgs context args) (resolveArgs context' args)
  | [] => steps.pure ⟨nofun, .nil⟩
  | .mk key? value :: rest => steps.bind (steps.argumentName key?) fun _ => steps.bind (runs_expr none value) fun _ =>
    steps.bind (runs_args rest) fun _ => steps.pure fun there here key =>
      ⟨forall_mem_cons.2 ⟨key, there.keyed⟩, .cons here there.below⟩

theorem runs_entries : (args : List Argument) → R (fun entries =>
      Forall₂ (Binds context mild) (args.flatMap Argument.exprs) (entries.flatMap Term.Entry.terms))
    (resolveEntries context args) (resolveEntries context' args)
  | [] => steps.pure .nil
  | .mk key? value :: rest => steps.bind (runs_option key?) fun _ => steps.bind (runs_expr none value) fun _ =>
    steps.bind (runs_entries rest) fun _ => steps.pure fun there here key =>
      rel_append (rel_append key (.cons here .nil)) there

theorem runs_values : (args : List Argument) → R (Forall₂ (Binds context mild) (args.map Argument.value))
    (resolveValues context args) (resolveValues context' args)
  | [] => steps.pure .nil
  | .mk _ value :: rest => steps.bind (runs_expr none value) fun _ => steps.bind (runs_values rest) fun _ =>
    steps.pure fun there here => .cons here there

theorem runs_links : (links : List Link) → (walk : Walk) → R (Follows context mild walk links)
    (resolveLinks context walk links) (resolveLinks context' (Numbered.renumber ids walk) links)
  | [], _ => steps.pure .done
  | .mk (.field name searched) safe span :: rest, walk =>
    steps.bind (steps.fieldLink walk name searched safe span rest)
    fun next => steps.mono (runs_links rest next) fun last there follows => follows last there
  | .mk (.index index) safe span :: rest, walk => steps.bind (runs_expr none index) fun index =>
    steps.mono (runs_links rest (walk.leap (.index index) safe span)) fun _ there here => .index here there
  | .mk (.call name searched args) safe span :: rest, walk =>
    steps.bind (steps.callSearched walk name searched span) fun searched => steps.bind (runs_args args) fun args =>
      steps.mono (runs_links rest (walk.leap (.call name searched args) safe span)) fun _ there args checked =>
        args.call checked there

theorem runs_global (isGlobal : base.name? = some "global") : (links : List Link) →
    R (fun walk => Binds context mild (.mk (.chain base links) span) (walk.finish span))
      (resolveGlobal context base.span links) (resolveGlobal context' base.span links)
  | [] => steps.fail _ nofun
  | .mk (.field name _) _ here :: rest => by
    refine steps.bind (steps.globalField name _) fun root => ?_
    rw [start_renumber]
    exact steps.mono (runs_links rest (.start root)) fun walk there roots => .globalField isGlobal roots there
  | .mk (.index _) _ _ :: _ => steps.fail _ nofun
  | .mk (.call name _ args) _ here :: rest => by
    simp only [resolveGlobal, steps.types.hasGlobalProc]
    split
    · refine steps.bind (runs_args args) fun args => ?_
      exact steps.mono (runs_links rest (.start (.unknowable (.call (.global name) args) _)))
        fun _ there args => args.globalCall isGlobal there
    · exact steps.failed _ _ _ nofun

end

end DreamMaker.Context.Steps
