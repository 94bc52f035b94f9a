import DreamMaker.Command.Run

open DreamMaker

def failWith (code : UInt32) (message : String) : IO UInt32 := do
  (← IO.getStderr).putStrLn message
  return code

def runOn (options : Options) (input : String) : IO UInt32 := do
  let text ← IO.FS.readFile input
  let outcome := Command.run options input text
  (← IO.getStdout).putStr outcome.stdout
  (← IO.getStderr).putStr outcome.stderr
  return outcome.code.toUInt32

def main (arguments : List String) : IO UInt32 := do
  match Options.ofArguments arguments with
  | .error message => failWith 2 s!"error: {message}"
  | .ok options => match options.input? with
    | none => failWith 2 "error: the following required arguments were not provided: <FILE>"
    | some input =>
      try runOn options input
      catch _ => failWith 1 s!"Error: Failed to read input file: \"{input}\""
