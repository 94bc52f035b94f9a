import DreamMaker.Resolution.Expr

/-!
The parts of expressions and of terms, at any depth, and terms whose global vars have other ids.
-/

namespace DreamMaker

/-! Parts of expressions. -/

def NewTarget.exprs : NewTarget → List Expr
  | .path _ | .inferred => []
  | .value type => [type]

def Argument.exprs : Argument → List Expr
  | .mk key? value => key?.toList ++ [value]

def Link.exprs : Link → List Expr
  | .mk (.field _ _) _ _ => []
  | .mk (.index index) _ _ => [index]
  | .mk (.call _ _ args) _ _ => args.flatMap Argument.exprs

/-- The expressions right below an expression. -/
def Node.exprs : Node → List Expr
  | .literal _ | .search _ _ | .name _ | .result | .declare _ _ => []
  | .format _ holes => holes.flatMap Option.toList
  | .unary _ operand => [operand]
  | .binary _ left right => [left, right]
  | .assign _ target value => [target, value]
  | .ternary condition yes no => [condition, yes, no]
  | .member value container => [value, container]
  | .between value start stop step? => [value, start, stop] ++ step?.toList
  | .new target args => target.exprs ++ args.flatMap Argument.exprs
  | .chain base links => base :: links.flatMap Link.exprs
  | .call _ args => args.flatMap Argument.exprs
  | .dynamicCall callee args => callee.flatMap Argument.exprs ++ args.flatMap Argument.exprs
  | .scope base? _ call? => base?.toList ++ call?.toList.flatMap (·.flatMap Argument.exprs)
  | .gather _ args => args.flatMap Argument.exprs
  | .pick choices => choices.flatMap Argument.exprs
  | .input args _ list? => args.flatMap Argument.exprs ++ list?.toList
  | .apply _ arg => [arg]
  | .applyPair _ first second => [first, second]
  | .log value base? => value :: base?.toList
  | .isType value type? => value :: type?.toList
  | .locate type? container? => type?.toList ++ container?.toList
  | .locateAt x y z => [x, y, z]

namespace Expr

/-- An expression is a part of itself, and a part of what it stands in. -/
inductive IsPart : Expr → Expr → Prop
  | self (e : Expr) : IsPart e e
  | within {part inner e : Expr} (deeper : IsPart part inner) (below : inner ∈ e.node.exprs) : IsPart part e

/-- All parts of an expression are of a kind. -/
def Each (allows : Node → Prop) (e : Expr) : Prop := ∀ part : Expr, part.IsPart e → allows part.node

variable {node : Node} {span : Span}

theorem Each.here (each : Each allows (.mk node span)) : allows node := each _ (.self _)

theorem Each.below (each : Each allows (.mk node span)) : ∀ inner ∈ node.exprs, Each allows inner := by
  intro inner below part deeper
  exact each part (.within deeper below)

theorem Each.intro (here : allows node) (below : ∀ inner ∈ node.exprs, Each allows inner) :
    Each allows (.mk node span) := by
  intro part isPart
  cases isPart with
  | self => exact here
  | within deeper held => exact below _ held part deeper

end Expr

namespace Term

/-! Parts of terms. -/

def Entry.terms : Entry → List Term
  | .mk key? value => key?.toList ++ [value]

def Link.terms : Link → List Term
  | .mk (.field _ _) _ _ _ => []
  | .mk (.index index) _ _ _ => [index]
  | .mk (.call _ _ args) _ _ _ => args.map Argument.value

/-- The terms right below a term. -/
def Form.terms : Form → List Term
  | .atom _ | .ambient _ | .var _ => []
  | .format _ holes => holes
  | .unary _ operand => [operand]
  | .binary _ left right => [left, right]
  | .isNull value => [value]
  | .assign _ target value => [target, value]
  | .ternary condition yes no => [condition, yes, no]
  | .member value container => [value, container]
  | .between value start stop step? => [value, start, stop] ++ step?.toList
  | .newPath _ args => args.map Argument.value
  | .new type args => type :: args.map Argument.value
  | .chain base links => base :: links.flatMap Link.terms
  | .call _ args => args.map Argument.value
  | .dynamicCall callee args => callee ++ args.map Argument.value
  | .list entries => entries.flatMap Entry.terms
  | .newList values => values
  | .addText values => values
  | .pick choices => choices.flatMap Entry.terms
  | .input args _ list? => args ++ list?.toList
  | .initial place => [place]
  | .isSaved place => [place]
  | .locate type container? => type :: container?.toList
  | .builtin _ args => args

/-- Whether a term of this form may stand anywhere: it stands for no var, and writes to none. -/
def Form.isNeutral : Form → Bool
  | .var _ | .ambient .globalVars | .assign _ _ _ => false
  | .unary op _ => !op.isMutating
  | _ => true

/-- A term is a part of itself, and a part of what it stands in. -/
inductive IsPart : Term → Term → Prop
  | self (term : Term) : IsPart term term
  | within {part inner term : Term} (deeper : IsPart part inner) (below : inner ∈ term.form.terms) : IsPart part term

/-- All parts of a term are of a kind. -/
def Each (fits : Form → Prop) (term : Term) : Prop := ∀ part : Term, part.IsPart term → fits part.form

theorem each_mk {form : Form} {type? : Option TypePath} {fuzzy : Bool} {span : Span} :
    Each fits (.mk form type? fuzzy span) ↔ fits form ∧ ∀ inner ∈ form.terms, Each fits inner := by
  constructor
  · intro each
    exact ⟨each _ (.self _), fun inner below part deeper => each part (.within deeper below)⟩
  · rintro ⟨here, below⟩ part isPart
    cases isPart with
    | self => exact here
    | within deeper held => exact below _ held part deeper

/-! Other ids. -/

end Term

def Var.renumber (ids : Nat → Nat) : Var → Var
  | .global name id => .global name (ids id)
  | var => var

namespace Term

mutual

/-- Gives the global vars in a term other ids. -/
def renumber (ids : Nat → Nat) : Term → Term
  | .mk form type? fuzzy span => .mk (form.renumber ids) type? fuzzy span

def Form.renumber (ids : Nat → Nat) : Form → Form
  | .atom value => .atom value
  | .format text holes => .format text (renumberAll ids holes)
  | .ambient value => .ambient value
  | .var bound => .var (bound.renumber ids)
  | .unary op operand => .unary op (operand.renumber ids)
  | .binary op left right => .binary op (left.renumber ids) (right.renumber ids)
  | .isNull value => .isNull (value.renumber ids)
  | .assign op target value => .assign op (target.renumber ids) (value.renumber ids)
  | .ternary condition yes no => .ternary (condition.renumber ids) (yes.renumber ids) (no.renumber ids)
  | .member value container => .member (value.renumber ids) (container.renumber ids)
  | .between value start stop step? =>
    .between (value.renumber ids) (start.renumber ids) (stop.renumber ids) (renumberOption ids step?)
  | .newPath path args => .newPath path (renumberArgs ids args)
  | .new type args => .new (type.renumber ids) (renumberArgs ids args)
  | .chain base links => .chain (base.renumber ids) (renumberLinks ids links)
  | .call target args => .call target (renumberArgs ids args)
  | .dynamicCall callee args => .dynamicCall (renumberAll ids callee) (renumberArgs ids args)
  | .list entries => .list (renumberEntries ids entries)
  | .newList values => .newList (renumberAll ids values)
  | .addText values => .addText (renumberAll ids values)
  | .pick choices => .pick (renumberEntries ids choices)
  | .input args types list? => .input (renumberAll ids args) types (renumberOption ids list?)
  | .initial place => .initial (place.renumber ids)
  | .isSaved place => .isSaved (place.renumber ids)
  | .locate type container? => .locate (type.renumber ids) (renumberOption ids container?)
  | .builtin function args => .builtin function (renumberAll ids args)

def renumberOption (ids : Nat → Nat) : Option Term → Option Term
  | none => none
  | some term => some (term.renumber ids)

def renumberAll (ids : Nat → Nat) : List Term → List Term
  | [] => []
  | term :: rest => term.renumber ids :: renumberAll ids rest

def renumberArgs (ids : Nat → Nat) : List Argument → List Argument
  | [] => []
  | .mk name? value :: rest => .mk name? (value.renumber ids) :: renumberArgs ids rest

def renumberEntries (ids : Nat → Nat) : List Entry → List Entry
  | [] => []
  | .mk key? value :: rest => .mk (renumberOption ids key?) (value.renumber ids) :: renumberEntries ids rest

def renumberLinks (ids : Nat → Nat) : List Link → List Link
  | [] => []
  | .mk kind safe type? span :: rest => .mk (kind.renumber ids) safe type? span :: renumberLinks ids rest

def LinkKind.renumber (ids : Nat → Nat) : LinkKind → LinkKind
  | .field name searched => .field name searched
  | .index index => .index (index.renumber ids)
  | .call name searched args => .call name searched (renumberArgs ids args)

end

theorem renumbered_id : (∀ term : Term, term.renumber id = term) ∧ (∀ form : Form, form.renumber id = form) ∧
    (∀ entries, renumberEntries id entries = entries) ∧ (∀ term?, renumberOption id term? = term?) ∧
    (∀ links, renumberLinks id links = links) ∧ (∀ kind : LinkKind, kind.renumber id = kind) ∧
    (∀ args, renumberArgs id args = args) ∧ ∀ terms, renumberAll id terms = terms := by
  have var (bound : Var) : bound.renumber id = bound := by cases bound <;> rfl
  apply renumber.mutual_induct <;>
    simp_all only [renumber, Form.renumber, renumberEntries, renumberOption, renumberLinks, LinkKind.renumber,
      renumberArgs, renumberAll, implies_true]

theorem renumber_id (term : Term) : term.renumber id = term := renumbered_id.1 term

theorem renumberEntries_id (entries : List Entry) : renumberEntries id entries = entries :=
  renumbered_id.2.2.1 entries

theorem renumberOption_id (term? : Option Term) : renumberOption id term? = term? := renumbered_id.2.2.2.1 term?

theorem renumberLinks_id : renumberLinks id links = links := renumbered_id.2.2.2.2.1 links

theorem renumberArgs_id (args : List Argument) : renumberArgs id args = args := renumbered_id.2.2.2.2.2.2.1 args

theorem renumberAll_id (terms : List Term) : renumberAll id terms = terms := renumbered_id.2.2.2.2.2.2.2 terms

theorem renumberLinks_eq_map (ids : Nat → Nat) :
    renumberLinks ids links = links.map fun link => .mk (link.kind.renumber ids) link.safe link.type? link.span := by
  induction links with
  | nil => rfl
  | cons link _ ih =>
    rcases link with ⟨_, _, _, _⟩
    rw [renumberLinks, ih]
    rfl

section

variable (ids : Nat → Nat)

section

variable (term : Term)

theorem isPlace_renumber : (term.renumber ids).isPlace = term.isPlace := by
  rcases term with ⟨form, type?, _, span⟩
  cases form with
  | chain _ links =>
    show ((renumberLinks ids links).getLast?.map Link.isPlace).getD false =
      (links.getLast?.map Link.isPlace).getD false
    rw [renumberLinks_eq_map, List.getLast?_map, Option.map_map]
    congr 2
    funext link
    rcases link with ⟨_ | _ | _, safe, type?, span⟩ <;> rfl
  | _ => rfl

theorem atom?_renumber : (term.renumber ids).atom? = term.atom? := by
  rcases term with ⟨form, _, _, _⟩
  cases form <;> rfl

theorem path?_renumber : (term.renumber ids).path? = term.path? := by
  unfold path?
  rw [atom?_renumber]

theorem truth?_renumber : (term.renumber ids).truth? = term.truth? := by
  unfold truth?
  rw [atom?_renumber]

theorem span_renumber : (term.renumber ids).span = term.span := by
  cases term
  rfl

theorem type?_renumber : (term.renumber ids).type? = term.type? := by
  cases term
  rfl

theorem nameText?_renumber : (term.renumber ids).nameText? = term.nameText? := by
  rcases term with ⟨form, type?, _, span⟩
  cases form with
  | var bound => cases bound <;> rfl
  | chain _ links =>
    simp only [renumber, Form.renumber, nameText?, form, renumberLinks_eq_map, List.getLast?_map]
    rcases links.getLast? with _ | ⟨_ | _ | _, safe, type?, span⟩ <;> rfl
  | call target _ => cases target <;> rfl
  | _ => rfl

end

end

mutual

theorem isConstant_renumber (ids : Nat → Nat) : (term : Term) → (term.renumber ids).isConstant = term.isConstant
  | .mk form _ _ _ => by
    cases form with
    | list entries => exact areConstant_renumber ids entries
    | _ => rfl

theorem areConstant_renumber (ids : Nat → Nat) :
    (entries : List Entry) → areConstant (renumberEntries ids entries) = areConstant entries
  | [] => rfl
  | .mk none value :: rest => by
    simp only [renumberEntries, renumberOption, areConstant, isConstant_renumber ids value,
      areConstant_renumber ids rest]
  | .mk (some key) value :: rest => by
    simp only [renumberEntries, renumberOption, areConstant, isConstant_renumber ids value,
      isConstant_renumber ids key,
      areConstant_renumber ids rest]

end

theorem isConstant_withSpan {term : Term} {span : Span} : (term.withSpan span).isConstant = term.isConstant := by
  rcases term with ⟨form, _, _, _⟩
  cases form <;> rfl

mutual

/-- There are no vars in constants. -/
theorem renumber_of_isConstant (ids : Nat → Nat) : (term : Term) → term.isConstant → term.renumber ids = term
  | .mk form type? fuzzy span, constant => by
    cases form with
    | atom _ => rfl
    | list entries =>
      have same := renumberEntries_of_areConstant ids entries constant
      rw [renumber, Form.renumber, same]
    | _ => cases constant

theorem renumberEntries_of_areConstant (ids : Nat → Nat) :
    (entries : List Entry) → areConstant entries → renumberEntries ids entries = entries
  | [], _ => rfl
  | .mk none value :: rest, constant => by
    simp only [areConstant, Bool.and_eq_true] at constant
    rw [renumberEntries, renumberOption, renumber_of_isConstant ids value constant.1,
      renumberEntries_of_areConstant ids rest constant.2]
  | .mk (some key) value :: rest, constant => by
    simp only [areConstant, Bool.and_eq_true] at constant
    rw [renumberEntries, renumberOption, renumber_of_isConstant ids key constant.1.2,
      renumber_of_isConstant ids value constant.1.1, renumberEntries_of_areConstant ids rest constant.2]

end

mutual

/-- Constants are made of constants and lists of them. -/
theorem each_of_isConstant (atoms : ∀ value, fits (.atom value)) (lists : ∀ entries, fits (.list entries)) :
    (term : Term) → term.isConstant → term.Each fits
  | .mk form type? fuzzy span, constant => by
    cases form with
    | atom value => exact each_mk.2 ⟨atoms value, nofun⟩
    | list entries => exact each_mk.2 ⟨lists entries, each_of_areConstant atoms lists entries constant⟩
    | _ => cases constant

theorem each_of_areConstant (atoms : ∀ value, fits (.atom value)) (lists : ∀ entries, fits (.list entries)) :
    (entries : List Entry) → areConstant entries → ∀ inner ∈ entries.flatMap Entry.terms, inner.Each fits
  | [], _ => nofun
  | .mk none value :: rest, constant => by
    simp only [areConstant, Bool.and_eq_true] at constant
    exact List.forall_mem_cons.2 ⟨each_of_isConstant atoms lists value constant.1,
      each_of_areConstant atoms lists rest constant.2⟩
  | .mk (some key) value :: rest, constant => by
    simp only [areConstant, Bool.and_eq_true] at constant
    exact List.forall_mem_cons.2 ⟨each_of_isConstant atoms lists key constant.1.2,
      List.forall_mem_cons.2 ⟨each_of_isConstant atoms lists value constant.1.1,
        each_of_areConstant atoms lists rest constant.2⟩⟩

end

end Term

/-- Data that terms stand in. -/
class Numbered (α : Type) where
  /-- Gives the global vars in it other ids. -/
  renumber : (Nat → Nat) → α → α
  /-- The terms that stand in it. -/
  terms : α → List Term
  renumber_id : ∀ a, renumber id a = a

namespace Numbered

/-- Data without terms. -/
instance (priority := low) plain (α : Type) : Numbered α := ⟨fun _ a => a, fun _ => [], fun _ => rfl⟩

instance : Numbered Term := ⟨Term.renumber, fun term => [term], Term.renumber_id⟩
instance : Numbered (Option Term) := ⟨Term.renumberOption, Option.toList, Term.renumberOption_id⟩
instance : Numbered (List Term) := ⟨Term.renumberAll, id, Term.renumberAll_id⟩
instance : Numbered (List Term.Argument) := ⟨Term.renumberArgs, List.map Term.Argument.value, Term.renumberArgs_id⟩

instance : Numbered (List Term.Entry) :=
  ⟨Term.renumberEntries, List.flatMap Term.Entry.terms, Term.renumberEntries_id⟩

instance {ε : Type} [Numbered α] : Numbered (Except ε α) where
  renumber ids result := result.map (renumber ids)
  terms
    | .ok a => terms a
    | .error _ => []
  renumber_id
    | .ok a => congrArg Except.ok (renumber_id a)
    | .error _ => rfl

instance : Numbered Walk where
  renumber ids walk := { walk with base := walk.base.renumber ids, links := Term.renumberLinks ids walk.links }
  terms walk := walk.base :: walk.links.flatMap Term.Link.terms
  renumber_id walk := by rw [walk.base.renumber_id, Term.renumberLinks_id]

/-- The terms in it are made of what fits. -/
abbrev AllFit [Numbered α] (fits : Term.Form → Prop) (a : α) : Prop := ∀ term ∈ terms a, term.Each fits

theorem renumber_typePath (ids : Nat → Nat) (path : TypePath) : renumber ids path = path := rfl

theorem fuzzy_renumber (ids : Nat → Nat) (walk : Walk) : (renumber ids walk).fuzzy = walk.fuzzy := rfl

end Numbered

end DreamMaker
