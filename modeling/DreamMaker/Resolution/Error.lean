import DreamMaker.Diagnostic.Report
import DreamMaker.Path

namespace DreamMaker

inductive SemanticError.Kind
  | unknownIdentifier
  | unknownType
  | unknownField
  | unknownProc
  | missingInferredType
  | invalidReference
  | invalidContext
  | constantRequired
  | badArgument
deriving DecidableEq, Repr, Inhabited

def SemanticError.Kind.code : SemanticError.Kind → Code
  | .unknownIdentifier | .unknownType | .unknownField | .unknownProc => .itemDoesntExist
  | .missingInferredType | .invalidContext => .badExpression
  | .invalidReference => .invalidReference
  | .constantRequired => .hardConstContext
  | .badArgument => .badArgument

inductive SemanticError.Cause
  | unknownName (name : String)
  | untypedAccess (name : String)
  | unknownLabel (name : String)
  | noType (path : TypePath)
  | notFound (base target : TypePath)
  | noProc (path : TypePath)
  | noProcNamed (name : String)
  | noScopedProc (name : String)
  | noGlobalProc (name : String)
  | noProcOn (owner : TypePath) (name : String)
  | noFieldOn (owner : TypePath) (name : String)
  | noScopedVar (owner : TypePath) (name : String)
  | nothingInferred
  | bareGlobal
  | indexedGlobal
  | procNameOutsideProc
  | procCallOutsideProc
  | breakOutsideLoop
  | continueOutsideLoop
  | labelWithoutBlock (name : String)
  | notPlace
  | sourceNotPlace
  | targetNotPlace
  | loopVarNotPlace
  | untypedScope
  | invalidLoopVar
  | invalidCatchVar
  | untypedEnumeration
  | notConstant
  | constVarNotConstant
  | untypedIsType
  | varRequired (function : String)
  | nameless
  | procInstance
  | referenceArguments
  | attributeNotText (name : String)
  | categoryNotText
  | invisibilityNotNumber
deriving DecidableEq, Repr, Inhabited

namespace SemanticError.Cause

def kind : Cause → SemanticError.Kind
  | .unknownName _ | .untypedAccess _ | .unknownLabel _ => .unknownIdentifier
  | .noType _ | .notFound _ _ => .unknownType
  | .noFieldOn _ _ | .noScopedVar _ _ => .unknownField
  | .noProc _ | .noProcNamed _ | .noScopedProc _ | .noGlobalProc _ | .noProcOn _ _ => .unknownProc
  | .nothingInferred => .missingInferredType
  | .bareGlobal | .indexedGlobal | .procNameOutsideProc | .procCallOutsideProc | .breakOutsideLoop
  | .continueOutsideLoop | .labelWithoutBlock _ => .invalidContext
  | .notPlace | .sourceNotPlace | .targetNotPlace | .loopVarNotPlace | .untypedScope | .invalidLoopVar
  | .invalidCatchVar | .untypedEnumeration => .invalidReference
  | .notConstant | .constVarNotConstant => .constantRequired
  | .untypedIsType | .varRequired _ | .nameless | .procInstance | .referenceArguments
  | .attributeNotText _ | .categoryNotText | .invisibilityNotNumber => .badArgument

def message : Cause → String
  | .unknownName name => s!"Unknown identifier \"{name}\""
  | .untypedAccess name =>
    s!"Cannot access \"{name}\" on a value without a declared type, use \":\" instead"
  | .unknownLabel name => s!"Unknown label {name}"
  | .noType path => s!"Type {path.render} does not exist"
  | .notFound base target => s!"Could not find path {base.render}.{target.render}"
  | .noProc path => s!"Proc {path.render} does not exist"
  | .noProcNamed name => s!"Proc \"{name}\" does not exist"
  | .noScopedProc name => s!"No global proc named \"{name}\""
  | .noGlobalProc name => s!"Global proc \"{name}\" does not exist"
  | .noProcOn owner name => s!"Type {owner.render} does not have a proc named \"{name}\""
  | .noFieldOn owner name => s!"Unknown identifier \"{name}\" on type {owner.render}"
  | .noScopedVar owner name => s!"{owner.render} has no var named \"{name}\""
  | .nothingInferred => "Could not infer a type"
  | .bareGlobal => "\"global\" can only be used to access a global var or proc"
  | .indexedGlobal => "\"global\" cannot be indexed"
  | .procNameOutsideProc => "__PROC__ can only be used inside a proc"
  | .procCallOutsideProc => "Cannot call the current proc outside of a proc"
  | .breakOutsideLoop => "Cannot break outside of a loop"
  | .continueOutsideLoop => "Cannot continue outside of a loop"
  | .labelWithoutBlock name => s!"Label {name} has no block to break out of"
  | .notPlace => "Expected an l-value"
  | .sourceNotPlace => "Left side must be an l-value"
  | .targetNotPlace => "Right side must be an l-value"
  | .loopVarNotPlace => "Loop variable must be an l-value"
  | .untypedScope => "The left side of :: must have a known type"
  | .invalidLoopVar => "Invalid loop variable"
  | .invalidCatchVar => "Invalid catch variable"
  | .untypedEnumeration => "Type enumeration requires a typed var"
  | .notConstant => "Expected a constant"
  | .constVarNotConstant => "Const var must be set to a constant"
  | .untypedIsType => "istype() with one argument requires a var with a declared type"
  | .varRequired function => s!"{function}() requires a var as its argument"
  | .nameless => "nameof() requires a var, proc reference or type"
  | .procInstance => "Cannot instantiate a proc"
  | .referenceArguments => "A :: proc reference takes no arguments"
  | .attributeNotText name => s!"{name} attribute must be a string"
  | .categoryNotText => "category attribute must be a string or null"
  | .invisibilityNotNumber => "invisibility attribute must be an int"

end SemanticError.Cause

structure SemanticError where
  cause : SemanticError.Cause
  span : Span
deriving DecidableEq, Repr, Inhabited

namespace SemanticError

def kind (error : SemanticError) : Kind := error.cause.kind

def message (error : SemanticError) : String := error.cause.message

def render (error : SemanticError) : String := s!"{error.message} at {error.span.render}"

def toReport (error : SemanticError) : Report := .located error.kind.code error.span error.message

end SemanticError

end DreamMaker
