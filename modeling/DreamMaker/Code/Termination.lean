namespace DreamMaker

structure Termination where
  exitsLoop : Bool := false
  returns : Bool := false
  returnsSometimes : Bool := false
deriving DecidableEq, Repr, Inhabited

namespace Termination

def none : Termination := {}

def loopExit : Termination := { exitsLoop := true }

def procReturn : Termination := { returns := true }

def union (a b : Termination) : Termination :=
  { exitsLoop := a.exitsLoop || b.exitsLoop
    returns := a.returns || b.returns
    returnsSometimes := a.returnsSometimes || b.returnsSometimes }

/-- Whether all that is known of `other`, which is something, is known here too. -/
def contains (a other : Termination) : Bool :=
  other != none && a.union other == a

def isUnconditional (a : Termination) : Bool := a.exitsLoop || a.returns

def mayReturn (a : Termination) : Bool := a.returns || a.returnsSometimes

def branch (a b : Termination) : Termination :=
  if a.returns && b.returns then procReturn
  else
    { exitsLoop := a.isUnconditional && b.isUnconditional
      returnsSometimes := a.mayReturn || b.mayReturn }

/-- What is known of a loop by its body. It is certain if the body is run at
least once and nothing in it jumps out of the loop. -/
def leaveLoop (a : Termination) (certain : Bool) : Termination :=
  if certain && a.returns then procReturn
  else { returnsSometimes := a.mayReturn }

def render (a : Termination) : String :=
  let parts := (if a.exitsLoop then ["loop-exit"] else []) ++ (if a.returns then ["return"] else []) ++
    (if a.returnsSometimes then ["potential-return"] else [])
  if parts.isEmpty then "none" else "|".intercalate parts

end Termination

end DreamMaker
