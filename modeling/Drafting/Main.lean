import Drafting.Command

namespace Drafting.Command

def usage : String :=
  "usage: [-i FILE] [-o FILE] [-t TYPE] [-c FILE] [--paginate] [--strategy STRATEGY] " ++
    "[--max-width WIDTH] [--max-height HEIGHT] [-v]"

def describe : UsageError → String
  | .unknownArgument => "an argument is unknown"
  | .missingValue => "an option lacks its value"
  | .unreadableValue => "the value of an option cannot be read"
  | .repeated => "an option is given twice"
  | .needlessValue => "a switch takes no value"
  | .help => usage
  | .version => "0.1.0"

def readInput : Option String → IO String
  | none | some "-" => do (← IO.getStdin).readToEnd
  | some path => IO.FS.readFile path

end Drafting.Command

open Drafting.Command in
def main (arguments : List String) : IO UInt32 := do
  match Arguments.read arguments with
  | .error .help => IO.println usage; pure 0
  | .error .version => IO.println (describe .version); pure 0
  | .error e => IO.eprintln ("error: " ++ describe e ++ "\n" ++ usage); pure 2
  | .ok a =>
      let settings ← a.settings.mapM fun path => do pure (← IO.FS.readFile path).toList
      let input ← readInput a.input
      match run a settings input.toList with
      | .error e => IO.eprintln ("error: " ++ e.message); pure 1
      | .ok text =>
          match a.output with
          | some path => IO.FS.writeFile path text
          | none => IO.print text
          pure 0
