import DreamMaker.Proofs.Term.Parts
import Mathlib.Data.List.Forall2

/-!
What binding names can give, as a relation between expressions and terms. The reports made on the way are of a
kind, so that with a kind that leaves errors out the relation says what becomes of expressions that are in order.
-/

namespace DreamMaker

open List (Forall₂ forall₂_iff_zip)

/-- What the terms right below a term stand for, in their order. A missing part stands for null. -/
def Node.kept : Node → List Expr
  | .literal _ | .search _ _ | .name _ | .result | .declare _ _ | .chain _ _ | .apply .nameOf _ => []
  | .format _ holes => holes.map (·.getD (.null .unknown))
  | .unary _ e | .apply _ e => [e]
  | .binary _ first second | .assign _ first second | .member first second | .applyPair _ first second =>
    [first, second]
  | .ternary first second third | .locateAt first second third => [first, second, third]
  | .between value start stop step? => [value, start, stop] ++ step?.toList
  | .new target args => target.exprs ++ args.map Argument.value
  | .dynamicCall callee args => callee.map Argument.value ++ args.map Argument.value
  | .scope _ _ call? => (call?.getD []).map Argument.value
  | .gather .list args | .pick args => args.flatMap Argument.exprs
  | .call _ args | .gather _ args => args.map Argument.value
  | .input args _ list? => args.map Argument.value ++ list?.toList
  | .log value base? => base?.toList ++ [value]
  | .isType value type? => [value, type?.getD (.null .unknown)]
  | .locate type? container? => type?.getD (.null .unknown) :: container?.toList

section

variable (context : Context)

/-- What a name can stand for. -/
inductive Context.Names (name : String) : Term → Prop
  | atom : Names name (.mk (.atom value) type? fuzzy span)
  | ambient (neutral : (Term.Form.ambient value).isNeutral) : Names name (.mk (.ambient value) type? fuzzy span)
  | constant (found : context.local? name = some var) (fixed : var.constant? = some constant) :
    Names name (constant.withSpan span)
  | local (found : context.local? name = some var) (changes : var.constant? = none) :
    Names name (.localVar name var.id var.type? span)
  | field (found : context.field? name = some field) : Names name (.typed (.var (.field name)) field.type? span)
  | global (found : context.global? name = some var) : Names name (.globalVar name var span)

/-- What a name behind `global` can stand for. -/
inductive Context.Roots : String → Term → Prop
  | vars : Roots "vars" (.globalVars span)
  | var {name : String} (sees : context.visibility.seesGlobals)
    (found : context.tree.globalVar? .root name = some var) :
    Roots name (.globalVar name var span)

/-- What a name behind `::` can stand for. -/
inductive Context.Scopes (base? : Option Expr) : String → Term.Form → Prop
  | vars (bare : base? = none) : Scopes base? "vars" (.ambient .globalVars)
  | initial {name : String} {owner : TypePath} : Scopes base? name (.var (.initial owner name))
  | global {name : String} {owner : TypePath}
    (noField : (if owner.isRoot then none else context.tree.field? owner name) = none)
    (found : context.tree.globalVar? owner name = some var) : Scopes base? name (.var (.global name var.id))

/-- The term is a place to which the target can be written. -/
structure Context.Writes (target : Expr) (place : Term) : Prop where
  noLocal : context.isConstLocal target = false
  noField : context.isConstField place = false
  isPlace : place.isPlace = true

end

namespace Resolution

section

variable (context : Context) (mild : Report → Prop)

/-- A key that is not text names no argument, which is reported. -/
def Keyed (args : List Argument) : Prop := ∀ arg ∈ args, ∀ key ∈ arg.key?, key.isConstant ∨
  mild (.located .invalidArgumentKey key.span "Invalid argument key, only named arguments are supported here")

/-- What is made of a node, out of the terms for what is below it. -/
inductive Makes : Node → Term.Form → Prop
  | literal : Makes (.literal value) (.atom atom)
  | search : Makes (.search base target) (.atom atom)
  | format : Makes (.format text holes) (.format text terms)
  | result : Makes .result (.ambient .result)
  | unary (writes : op.isMutating → context.Writes e value) : Makes (.unary op e) (.unary op value)
  | binary : Makes (.binary op left right) (.binary op left' right')
  | assign (writes : context.Writes target place) : Makes (.assign op target value) (.assign op place value')
  | ternary : Makes (.ternary condition yes no) (.ternary condition' yes' no')
  | member : Makes (.member value container) (.member value' container')
  | between : Makes (.between value start stop step?) (.between value' start' stop' step?')
  | newPath (plain : target.exprs = []) (keyed : Keyed mild args) : Makes (.new target args) (.newPath path args')
  | new (keyed : Keyed mild args) : Makes (.new (.value type) args) (.new type' args')
  | call (keyed : Keyed mild args) (visible : ∀ name, target' = .src name → context.visibility.seesInstance) :
    Makes (.call target args) (.call target' args')
  | dynamicCall (keyed : Keyed mild args) (same : callee.length = callee'.length) :
    Makes (.dynamicCall callee args) (.dynamicCall callee' args')
  | scope (scopes : context.Scopes base? name form) : Makes (.scope base? name none) form
  | reference : Makes (.scope (some base) name (some [])) (.atom atom)
  | scopeCall (keyed : Keyed mild args) : Makes (.scope none name (some args)) (.call (.global name) args')
  | list : Makes (.gather .list args) (.list entries)
  | newList : Makes (.gather .newList args) (.newList values)
  | addText : Makes (.gather .addText args) (.addText values)
  | gradient : Makes (.gather .gradient args) (.builtin .gradient values)
  | rgb : Makes (.gather .rgb args) (.builtin .rgb values)
  | pick : Makes (.pick args) (.pick choices)
  | input : Makes (.input args types? list?) (.input values types list?')
  | initial (isPlace : value.isPlace) : Makes (.apply .initial arg) (.initial value)
  | isSaved (isPlace : value.isPlace) : Makes (.apply .isSaved arg) (.isSaved value)
  | nameOf : Makes (.apply .nameOf arg) (.atom atom)
  | isNull : Makes (.apply .isNull arg) (.isNull value)
  | length : Makes (.apply .length arg) (.builtin .length values)
  | prob : Makes (.apply .prob arg) (.builtin .prob values)
  | math : Makes (.apply (.math function) arg) (.builtin (.ofMath function) values)
  | applyPair : Makes (.applyPair function left right) (.builtin (.ofPair function) values)
  | log : Makes (.log value base?) (.builtin .log values)
  | isType : Makes (.isType value type?) (.builtin .isType values)
  | locate : Makes (.locate type? container?) (.locate type container?')
  | locateAt : Makes (.locateAt x y z) (.builtin .locateCoordinates values)

mutual

/-- The terms that an expression can be bound to. -/
inductive Binds : Expr → Term → Prop
  | made (makes : Makes context mild node form) (same : node.kept.length = form.terms.length)
    (below : ∀ {e term}, (e, term) ∈ node.kept.zip form.terms → Binds e term) :
    Binds (.mk node span) (.mk form type? fuzzy place)
  | name (names : context.Names name term) : Binds (.mk (.name name) span) term
  | declare (names : context.Names name term) : Binds (.mk (.declare name type?) span) term
  /-- A constant that should change stays as it is, which is reported. -/
  | unchanged (below : Binds operand value)
    (reported : mild (.located .writeToConstant operand.span "Cannot change constant value")) :
    Binds (.mk (.unary op operand) span) value
  | unassigned (below : Binds value value')
    (reported : mild (.located .writeToConstant target.span "Cannot change constant value")) :
    Binds (.mk (.assign op target value) span) value'
  | nullLeft (null : left.isNull) (below : Binds right value) :
    Binds (.mk (.binary op left right) span) (nullTest op value span)
  | nullRight (null : right.isNull) (below : Binds left value) :
    Binds (.mk (.binary op left right) span) (nullTest op value span)
  | chain (other : base.name? ≠ some "global") (bound : ∃ before, (expr context none base before).1 = .ok root)
    (first : Binds base root) (second : Follows (.start root) links walk) :
    Binds (.mk (.chain base links) span) (walk.finish span)
  | globalField (isGlobal : base.name? = some "global") (roots : context.Roots name root)
    (below : Follows (.start root) links walk) :
    Binds (.mk (.chain base (.mk (.field name searched) safe here :: links)) span) (walk.finish span)
  | globalCall (isGlobal : base.name? = some "global") (keyed : Keyed mild args) (same : args.length = args'.length)
    (first : ∀ {e term}, (e, term) ∈ (args.map Argument.value).zip (args'.map Term.Argument.value) → Binds e term)
    (second : Follows (.start (.unknowable (.call (.global name) args') there)) links walk) :
    Binds (.mk (.chain base (.mk (.call name searched args) safe here :: links)) span) (walk.finish span)

/-- Where links lead to. -/
inductive Follows : Walk → List Link → Walk → Prop
  | done : Follows walk [] walk
  | search (unsure : searched || walk.fuzzy) (there : Follows (walk.leap (.field name true) safe span) rest last) :
    Follows walk (.mk (.field name searched) safe span :: rest) last
  | field (known : walk.fuzzy = false) (type : walk.type? = some owner) (isType : context.tree.hasType owner)
    (found : context.tree.field? owner name = some field)
    (there : Follows (walk.step (.field name false) safe field.type? span) rest last) :
    Follows walk (.mk (.field name false) safe span :: rest) last
  /-- A global var that is reached through an object is that var alone. -/
  | global (known : walk.fuzzy = false) (type : walk.type? = some owner)
    (noField : context.tree.field? owner name = none) (found : context.tree.globalVar? owner name = some var)
    (there : Follows (.start (.globalVar name var span)) rest last) :
    Follows walk (.mk (.field name false) safe span :: rest) last
  | index (here : Binds index index') (there : Follows (walk.leap (.index index') safe span) rest last) :
    Follows walk (.mk (.index index) safe span :: rest) last
  | call (checked : searched' = false → walk.fuzzy = false ∧
      ∃ owner, walk.type? = some owner ∧ context.tree.hasType owner ∧ context.tree.hasProc owner name)
    (keyed : Keyed mild args) (same : args.length = args'.length)
    (here : ∀ {e term}, (e, term) ∈ (args.map Argument.value).zip (args'.map Term.Argument.value) → Binds e term)
    (there : Follows (walk.leap (.call name searched' args') safe span) rest last) :
    Follows walk (.mk (.call name searched args) safe span :: rest) last

end

end

variable {name : String}

theorem Binds.of (makes : Makes context mild node form) (below : Forall₂ (Binds context mild) node.kept form.terms) :
    Binds context mild (.mk node span) (.mk form type? fuzzy place) :=
  .made makes (forall₂_iff_zip.1 below).1 (forall₂_iff_zip.1 below).2

/-- What is missing stands for a constant. -/
theorem Binds.getD {e? : Option Expr} {term? : Option Term}
    (given : Forall₂ (Binds context mild) e?.toList term?.toList)
    (path : TypePath) (span : Span) : Binds context mild (e?.getD (.null .unknown))
      (term?.getD (.path path span)) := by
  rcases e? with _ | e <;> rcases term? with _ | term <;> rcases given with _ | ⟨here, _⟩
  · exact .of .literal .nil
  · exact here

/-- The arguments of a call. -/
structure BindsArgs (context : Context) (mild : Report → Prop) (args : List Argument) (args' : List Term.Argument) :
    Prop where
  keyed : Keyed mild args
  below : Forall₂ (Binds context mild) (args.map Argument.value) (args'.map Term.Argument.value)

theorem BindsArgs.globalCall (bound : BindsArgs context mild args args') (isGlobal : base.name? = some "global")
    (there : Follows context mild (.start (.unknowable (.call (.global name) args') place)) links walk) :
    Binds context mild (.mk (.chain base (.mk (.call name searched args) safe here :: links)) span)
      (walk.finish span) :=
  .globalCall isGlobal bound.keyed (by simpa using bound.below.length_eq) (forall₂_iff_zip.1 bound.below).2 there

theorem BindsArgs.call (bound : BindsArgs context mild args args')
    (checked : searched' = false → walk.fuzzy = false ∧
      ∃ owner, walk.type? = some owner ∧ context.tree.hasType owner ∧ context.tree.hasProc owner name)
    (there : Follows context mild (walk.leap (.call name searched' args') safe span) rest last) :
    Follows context mild walk (.mk (.call name searched args) safe span :: rest) last :=
  .call checked bound.keyed (by simpa using bound.below.length_eq) (forall₂_iff_zip.1 bound.below).2 there

end Resolution

end DreamMaker
