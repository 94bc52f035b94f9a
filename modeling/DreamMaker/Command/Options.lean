import DreamMaker.Diagnostic.Config

namespace DreamMaker

inductive Emit
  | tokens
  | ops
  | diagnostics
deriving DecidableEq, Repr, Inhabited

def Emit.ofName? : String → Option Emit
  | "tokens" => some .tokens
  | "ops" => some .ops
  | "diagnostics" => some .diagnostics
  | _ => none

structure Options where
  input? : Option String := none
  emit : Emit := .diagnostics
  warningsAsErrors : Bool := false
  suppressed : List Code := []
  unreachable : Bool := true
  verbose : Bool := false
  quiet : Bool := false
deriving Repr, Inhabited

namespace Options

def withEmit (options : Options) (name : String) : Except String Options :=
  match Emit.ofName? name with
  | some emit => .ok { options with emit }
  | none => .error s!"invalid value '{name}' for '--emit'"

def withSuppressed (options : Options) (name : String) : Except String Options :=
  match Code.read? name with
  | some code => .ok { options with suppressed := options.suppressed ++ [code] }
  | none => .error (Code.unknownText name)

def withInput (options : Options) (name : String) : Except String Options :=
  if options.input?.isSome then .error s!"unexpected argument '{name}'"
  else .ok { options with input? := some name }

def withLetter (options : Options) : Char → Except String Options
  | 'q' => .ok { options with quiet := true }
  | 'v' => .ok { options with verbose := true }
  | letter => .error s!"unexpected argument '-{letter}'"

/-- Reads an option that is a word, with the value behind its equals sign if it
has one. -/
def withWord (options : Options) (word : String) (value? : Option String) : Except String Options :=
  match word, value? with
  | "werror", none => .ok { options with warningsAsErrors := true }
  | "no-unreachable", none => .ok { options with unreachable := false }
  | "verbose", none => .ok { options with verbose := true }
  | "quiet", none => .ok { options with quiet := true }
  | "emit", some value => options.withEmit value
  | "suppress", some value => options.withSuppressed value
  | _, _ => .error s!"unexpected argument '--{word}'"

def withArgument (options : Options) (argument : String) : Except String Options :=
  match argument.toList with
  | '-' :: '-' :: word =>
    let name := String.ofList (word.takeWhile (· ≠ '='))
    match word.dropWhile (· ≠ '=') with
    | [] => options.withWord name none
    | _ :: value => options.withWord name (some (String.ofList value))
  | '-' :: letter :: letters => (letter :: letters).foldlM withLetter options
  | _ => options.withInput argument

/-- Reads arguments, of which some have their value in the next one. -/
def withArguments (options : Options) : List String → Except String Options
  | [] => .ok options
  | "--emit" :: value :: rest => do (← options.withEmit value).withArguments rest
  | "--suppress" :: value :: rest => do (← options.withSuppressed value).withArguments rest
  | argument :: rest => do (← options.withArgument argument).withArguments rest

def ofArguments (arguments : List String) : Except String Options :=
  withArguments {} arguments

def baseConfig (options : Options) : Config :=
  { warningsAsErrors := options.warningsAsErrors, unreachable := options.unreachable }

def config (options : Options) : Config :=
  options.suppressed.foldl Config.suppress options.baseConfig

end Options

end DreamMaker
