import DreamMaker.Syntax.Statement
import DreamMaker.Term.Render

namespace DreamMaker

structure Label where
  index : Nat
deriving DecidableEq, Repr, Inhabited

def Label.render (label : Label) : String := s!"L{label.index}"

inductive Enumerator
  | list
  /-- The values of a type in the list on top of the stack. -/
  | filteredList (type : TypePath)
  /-- The range whose start, end and step are on top of the stack. -/
  | range
  | objects (type : TypePath)
deriving DecidableEq, Repr, Inhabited

def Enumerator.render : Enumerator → String
  | .list => "create_list_enumerator"
  | .filteredList type => s!"create_filtered_list_enumerator {type.render}"
  | .range => "create_range_enumerator"
  | .objects type => s!"create_type_enumerator {type.render}"

inductive Op
  | mark (label : Label)
  | jump (target : Label)
  /-- Pops a value and jumps if it is false. -/
  | jumpIfFalse (target : Label)
  | push (value : Term)
  | pop
  /-- Stores the value on top of the stack, and leaves it there. -/
  | assign (target : Term)
  /-- Replaces the value on top of the stack by whether it is null. -/
  | isNull
  | return_
  | enterScope
  | exitScope
  /-- Places the label at which a loop starts, and opens the loop. -/
  | loopStart (label : Label)
  | loopContinue (label : Label)
  /-- Places the label behind a loop, and closes the loop. -/
  | loopEnd (label : Label)
  | createEnumerator (enumerator : Enumerator)
  /-- Moves the innermost enumerator on and stores its value, or jumps if it has come to
  its end. -/
  | enumerate (target : Term) (exit : Label)
  | destroyEnumerator
  /-- Pops a value and jumps if it is the value of the switch. -/
  | switchCase (target : Label)
  /-- Pops a range and jumps if the value of the switch lies in it. -/
  | switchCaseRange (target : Label)
  /-- Pops a delay. What follows is run later, and what runs now goes on at the label. -/
  | spawn (after : Label)
  /-- Protects what follows by a handler, which may want the error in a var. -/
  | tryStart (handler : Label) (binder? : Option Term)
  | tryEnd
  | throw
  | delete
  | output
  | input (source target : Term)
  | transfer (kind : Transfer)
  | link

def Transfer.render : Transfer → String
  | .browse => "browse"
  | .browseResource => "browse_rsc"
  | .control => "output_control"
  | .ftp => "ftp"

namespace Op

def render : Op → String
  | .mark label => s!"{label.render}:"
  | .jump target => s!"  jump {target.render}"
  | .jumpIfFalse target => s!"  jump_if_false {target.render}"
  | .push value => s!"  push {value.render}"
  | .pop => "  pop"
  | .assign target => s!"  assign {target.render}"
  | .isNull => "  is_null"
  | .return_ => "  return"
  | .enterScope => "  enter_scope"
  | .exitScope => "  exit_scope"
  | .loopStart label => s!"{label.render}:  loop_start"
  | .loopContinue label => s!"{label.render}:  loop_continue"
  | .loopEnd label => s!"{label.render}:  loop_end"
  | .createEnumerator enumerator => s!"  {enumerator.render}"
  | .enumerate target exit => s!"  enumerate {target.render} else {exit.render}"
  | .destroyEnumerator => "  destroy_enumerator"
  | .switchCase target => s!"  switch_case {target.render}"
  | .switchCaseRange target => s!"  switch_case_range {target.render}"
  | .spawn after => s!"  spawn {after.render}"
  | .tryStart handler (some binder) => s!"  try {handler.render} catch {binder.render}"
  | .tryStart handler none => s!"  try {handler.render}"
  | .tryEnd => "  try_end"
  | .throw => "  throw"
  | .delete => "  delete"
  | .output => "  output"
  | .input source target => s!"  input {source.render} >> {target.render}"
  | .transfer kind => s!"  {kind.render}"
  | .link => "  link"

def operands : Op → List Term
  | .push value => [value]
  | .assign target => [target]
  | .enumerate target _ => [target]
  | .tryStart _ binder? => binder?.toList
  | .input source target => [source, target]
  | _ => []

end Op

end DreamMaker
