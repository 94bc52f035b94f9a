import DreamMaker.Code.Assembly

namespace DreamMaker

structure Branch where
  values? : Option (List CaseValue)
  body : Part
  span : Span

namespace Assembly

/-- The constant of a case. If there is none, that is reported and it is zero. -/
def caseConstant (e : Expr) : Assemble Term := do
  match ← (resolving fun context => e.resolveConstant context none).run with
  | .ok constant => return constant
  | .error error =>
    report error.toReport
    return .number 0 e.span

/-- A bound of a range, called `lower` or `upper`. If it is no number, that is
reported and it is zero. -/
def rangeBound (e : Expr) (which : String) : Assemble Term := do
  let constant ← caseConstant e
  match constant.atom? with
  | some (.number _) => return constant
  | some .null =>
    report (.located .malformedRange e.span s!"Malformed range, {which} bound is coerced from null to 0")
    return .number 0 e.span
  | _ =>
    report (.located .invalidRange e.span s!"Invalid range, {which} bound is not a number")
    return .number 0 e.span

/-! A switch on a value that is known only when the program runs. -/

/-- Jumps if the value of the switch is what a case looks for. -/
def caseTest (target : Label) : CaseValue → Assemble Unit
  | .single e => do
    emit (.push (← caseConstant e)) e.span
    emit (.switchCase target) e.span
  | .range start stop => do
    let lower ← rangeBound start "lower"
    let upper ← rangeBound stop "upper"
    emit (.push lower) start.span
    emit (.push upper) stop.span
    emit (.switchCaseRange target) (start.span.merge stop.span)

/-- The tests of all cases. Gives the cases that have values with their labels. -/
def caseTests : List Branch → Assemble (List (Label × Branch))
  | [] => return []
  | branch :: rest => match branch.values? with
    | none => caseTests rest
    | some values => do
      let label ← newLabel
      values.forM (caseTest label)
      return (label, branch) :: (← caseTests rest)

/-- The bodies of the cases that have values, and what is known of all bodies. -/
def caseBodies (stop : Label) : Termination → List (Label × Branch) → Assemble Termination
  | known, [] => return known
  | known, (label, branch) :: rest => do
    emit (.mark label) branch.span
    let termination ← branch.body.code
    emit (.jump stop) branch.span
    caseBodies stop (known.branch termination) rest

/-- A switch on a value that is not constant. Of several cases without values the
last one counts. -/
def openSwitch (value : Term) (branches : List Branch) (span : Span) : Assemble Termination := do
  emit (.push value) span
  let labelled ← caseTests branches
  emit .pop span
  let stop ← newLabel
  let default ← match branches.reverse.find? (·.values?.isNone) with
    | some branch => branch.body.code
    | none => pure .none
  emit (.jump stop) span
  let termination ← caseBodies stop default labelled
  emit (.mark stop) span
  return termination

/-! A switch on a constant. -/

def constantMatches (value : Term) : CaseValue → Assemble Bool
  | .single e => return (← caseConstant e).form.sameConstant value.form
  | .range start stop => do
    let lower ← rangeBound start "lower"
    let upper ← rangeBound stop "upper"
    match value.number?, lower.number?, upper.number? with
    | some value, some lower, some upper => return lower ≤ value && value ≤ upper
    | _, _, _ => return false

/-- Whether a constant is what one of several values is. All are looked at. -/
def matchesAny (value : Term) : List CaseValue → Assemble Bool
  | [] => return false
  | first :: rest => do
    let here ← constantMatches value first
    let there ← matchesAny value rest
    return here || there

def matchingCase? (value : Term) (index : Nat) : List Branch → Assemble (Option Nat)
  | [] => return none
  | branch :: rest => match branch.values? with
    | none => matchingCase? value (index + 1) rest
    | some values => do
      if ← matchesAny value values then return some index
      else matchingCase? value (index + 1) rest

def onlyCase (selected? : Option Nat) (index : Nat) (known : Termination) : List Branch → Assemble Termination
  | [] => return known
  | branch :: rest => do
    if selected? = some index then
      onlyCase selected? (index + 1) (← branch.body.code) rest
    else
      discard branch.body.span "the switch value never matches this case"
      onlyCase selected? (index + 1) known rest

/-- A switch on a constant. Of several cases without values the first one counts. -/
def constantSwitch (value : Term) (branches : List Branch) : Assemble Termination := do
  let matching? ← matchingCase? value 0 branches
  onlyCase (matching? <|> branches.findIdx? (·.values?.isNone)) 0 .none branches

def switch (value : Expr) (branches : List Branch) (span : Span) : Attempt Termination := do
  let value ← resolve value none
  if value.isConstant then constantSwitch value branches else openSwitch value branches span

end Assembly

end DreamMaker
