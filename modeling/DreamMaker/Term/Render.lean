import DreamMaker.Decimal.Shortest
import DreamMaker.Term.Basic
import DreamMaker.Text.Quoted

namespace DreamMaker

namespace Atom

def render : Atom → String
  | .null => "null"
  | .number value => Decimal.render value
  | .string value => Text.quoted value
  | .resource name => s!"'{name}'"
  | .path target | .proc target => target.render

end Atom

namespace Ambient

def render : Ambient → String
  | .src => "src"
  | .usr => "usr"
  | .args => "args"
  | .world => "world"
  | .result => "."
  | .globalVars => "global.vars"

end Ambient

namespace Var

def render : Var → String
  | .local name id => s!"{name}#{id}"
  | .field name => s!"src.{name}"
  | .global name _ => s!"global.{name}"
  | .initial owner name => s!"{owner.render}::{name}"

end Var

namespace ProcTarget

def render : ProcTarget → String
  | .src name => name
  | .global name => s!"global.{name}"
  | .self => "."
  | .parent => ".."

end ProcTarget

namespace Term

def commas (texts : List String) : String := ", ".intercalate texts

def linkMark (safe searched : Bool) : String :=
  (if safe then "?" else "") ++ (if searched then ":" else ".")

mutual

def render : Term → String
  | .mk form _ _ _ => form.render

def Form.render : Form → String
  | .atom value => value.render
  | .format text holes =>
    let quoted := Text.quoted text
    let holes := commas (quoted :: renderAll holes)
    s!"format({holes})"
  | .ambient value => value.render
  | .var var => var.render
  | .unary op operand =>
    if op.isPostfix then s!"({operand.render}{op.text})" else s!"({op.text}{operand.render})"
  | .binary op left right => s!"({left.render} {op.text} {right.render})"
  | .isNull value => s!"isnull({value.render})"
  | .assign op target value => s!"({target.render} {op.text} {value.render})"
  | .ternary condition yes no => s!"({condition.render} ? {yes.render} : {no.render})"
  | .member value container => s!"({value.render} in {container.render})"
  | .between value start stop none => s!"({value.render} in {start.render} to {stop.render})"
  | .between value start stop (some step) =>
    s!"({value.render} in {start.render} to {stop.render} step {step.render})"
  | .newPath path args => s!"new {path.render}({commas (renderArgs args)})"
  | .new type args => s!"new {type.render}({commas (renderArgs args)})"
  | .chain base links => base.render ++ renderLinks links
  | .call target args => s!"{target.render}({commas (renderArgs args)})"
  | .dynamicCall callee args => s!"call({commas (renderAll callee)})({commas (renderArgs args)})"
  | .list entries => s!"list({commas (renderEntries entries)})"
  | .newList values => s!"newlist({commas (renderAll values)})"
  | .addText values => s!"addtext({commas (renderAll values)})"
  | .pick choices => s!"pick({commas (renderChoices choices)})"
  | .input args _ none => s!"input({commas (renderAll args)})"
  | .input args _ (some list) => s!"input({commas (renderAll args)}) in {list.render}"
  | .initial var => s!"initial({var.render})"
  | .isSaved var => s!"issaved({var.render})"
  | .locate type none => s!"locate({type.render})"
  | .locate type (some container) => s!"locate({type.render}) in {container.render}"
  | .builtin function args => s!"{function.name}({commas (renderAll args)})"

def renderAll : List Term → List String
  | [] => []
  | term :: rest => term.render :: renderAll rest

def renderArgs : List Argument → List String
  | [] => []
  | .mk none value :: rest => value.render :: renderArgs rest
  | .mk (some name) value :: rest => s!"{name} = {value.render}" :: renderArgs rest

def renderEntries : List Entry → List String
  | [] => []
  | .mk none value :: rest => value.render :: renderEntries rest
  | .mk (some key) value :: rest => s!"{key.render} = {value.render}" :: renderEntries rest

def renderChoices : List Entry → List String
  | [] => []
  | .mk none value :: rest => value.render :: renderChoices rest
  | .mk (some weight) value :: rest => s!"prob({weight.render}); {value.render}" :: renderChoices rest

def renderLinks : List Link → String
  | [] => ""
  | .mk (.field name searched) safe _ _ :: rest => s!"{linkMark safe searched}{name}" ++ renderLinks rest
  | .mk (.index index) safe _ _ :: rest =>
    (if safe then "?" else "") ++ s!"[{index.render}]" ++ renderLinks rest
  | .mk (.call name searched args) safe _ _ :: rest =>
    s!"{linkMark safe searched}{name}({commas (renderArgs args)})" ++ renderLinks rest

end

end Term

end DreamMaker
