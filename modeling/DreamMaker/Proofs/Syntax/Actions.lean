import DreamMaker.Syntax.Statement

namespace DreamMaker

mutual

/-- What a statement does, and what all statements in it do. -/
def Statement.actions : Statement → List Action
  | .mk action _ => action :: action.inner

def Block.actions : Block → List Action
  | .mk statements _ => Statement.allActions statements

/-- What the statements in the blocks of a statement do. -/
def Action.inner : Action → List Action
  | .group inner => Statement.allActions inner
  | .label _ (some body) => body.actions
  | .if_ _ body none => body.actions
  | .if_ _ body (some other) => body.actions ++ other.actions
  | .for_ _ _ _ body | .forIn _ _ _ body | .forRange _ _ _ _ body | .forType _ body | .forever body
  | .while_ _ body | .doWhile body _ | .spawn _ body => body.actions
  | .switch _ cases => Case.allActions cases
  | .tryCatch body _ none => body.actions
  | .tryCatch body _ (some handler) => body.actions ++ handler.actions
  | _ => []

def Statement.allActions : List Statement → List Action
  | [] => []
  | statement :: rest => statement.actions ++ Statement.allActions rest

def Case.allActions : List Case → List Action
  | [] => []
  | .mk _ body _ :: rest => body.actions ++ Case.allActions rest

end

def ProcDefinition.actions (definition : ProcDefinition) : List Action :=
  (definition.body?.map Block.actions).getD []

/-- Sets what a name stands for to null. -/
def Action.write (name : String) : Action :=
  .expression (.mk (.assign .assign (.ofName name .unknown) (.null .unknown)) .unknown)

/-- A block that is not written anywhere. -/
def Block.ofActions (actions : List Action) : Block := .mk (actions.map (.mk · .unknown)) .unknown

/-- A proc without parameters. -/
def ProcDefinition.ofActions (name : String) (actions : List Action) : ProcDefinition :=
  { owner := .absolute [], name, isOverride := false, isVerb := false, parameters := []
    body? := some (.ofActions actions), returnTypes? := none, span := .unknown, rooted := ⟨[], rfl⟩ }

namespace Action

/-- Whether a label is jumped to by its name. -/
def jumpsByName : Action → Bool
  | .goto _ | .break_ (some _) | .continue_ (some _) => true
  | _ => false

/-- Whether this goes on with the next statement, and has no statements in it but in groups. -/
def isSimple : Action → Bool
  | .expression _ | .declare _ | .group _ | .set _ _ _ | .del _ | .throw _ | .output _ _ | .input _ _
  | .transfer _ _ _ _ | .link _ _ => true
  | _ => false

end Action

end DreamMaker
