import Drafting.Diagram.Kind
import Drafting.Number.Literal
import Drafting.Settings

namespace Drafting.Command

structure Arguments where
  input : Option String := none
  output : Option String := none
  kind : Option DiagramKind := none
  settings : Option String := none
  isPaged : Bool := false
  strategy : Option BreakStrategy := none
  maxWidth : Option Float32 := none
  maxHeight : Option Float32 := none
  verbosity : Nat := 0

inductive Parameter where
  | input
  | output
  | kind
  | settings
  | strategy
  | maxWidth
  | maxHeight
deriving DecidableEq

inductive Switch where
  | paginate
  | verbose
  | help
  | version
deriving DecidableEq

inductive Key where
  | option (p : Parameter)
  | switch (s : Switch)
deriving DecidableEq

namespace Key

def ofLong? : String → Option Key
  | "input" => some (.option .input)
  | "output" => some (.option .output)
  | "type" => some (.option .kind)
  | "configFile" => some (.option .settings)
  | "strategy" => some (.option .strategy)
  | "max-width" => some (.option .maxWidth)
  | "max-height" => some (.option .maxHeight)
  | "paginate" => some (.switch .paginate)
  | "verbose" => some (.switch .verbose)
  | "help" => some (.switch .help)
  | "version" => some (.switch .version)
  | _ => none

def ofShort? : Char → Option Key
  | 'i' => some (.option .input)
  | 'o' => some (.option .output)
  | 't' => some (.option .kind)
  | 'c' => some (.option .settings)
  | 'v' => some (.switch .verbose)
  | 'h' => some (.switch .help)
  | 'V' => some (.switch .version)
  | _ => none

end Key

inductive UsageError where
  | unknownArgument
  | missingValue
  | unreadableValue
  | repeated
  | needlessValue
  | help
  | version
deriving DecidableEq

namespace Arguments

def isSet (p : Parameter) (a : Arguments) : Bool :=
  match p with
  | .input => a.input.isSome
  | .output => a.output.isSome
  | .kind => a.kind.isSome
  | .settings => a.settings.isSome
  | .strategy => a.strategy.isSome
  | .maxWidth => a.maxWidth.isSome
  | .maxHeight => a.maxHeight.isSome

def path (value : String) : Except UsageError String :=
  if value.isEmpty then .error .missingValue else .ok value

def orUnreadable {β : Type} : Option β → Except UsageError β
  | some b => .ok b
  | none => .error .unreadableValue

def assign (p : Parameter) (value : String) (a : Arguments) : Except UsageError Arguments := do
  if a.isSet p then .error .repeated
  else match p with
    | .input => pure { a with input := ← path value }
    | .output => pure { a with output := ← path value }
    | .kind => pure { a with kind := ← orUnreadable (DiagramKind.ofToken? value) }
    | .settings => pure { a with settings := ← path value }
    | .strategy => pure { a with strategy := ← orUnreadable (BreakStrategy.ofToken? value) }
    | .maxWidth => pure { a with maxWidth := ← orUnreadable (Literal.toBinary32? value.toList) }
    | .maxHeight => pure { a with maxHeight := ← orUnreadable (Literal.toBinary32? value.toList) }

def turnOn (s : Switch) (a : Arguments) : Except UsageError Arguments :=
  match s with
  | .paginate => if a.isPaged then .error .repeated else .ok { a with isPaged := true }
  | .verbose => .ok { a with verbosity := a.verbosity + 1 }
  | .help => .error .help
  | .version => .error .version

end Arguments

structure Request where
  parameter : Parameter
  value : Option String

/-- What has been read of the arguments. The last option is only set when the next one comes or
the arguments end, so a name that is unknown is found before a value that is wrong. -/
structure Progress where
  settled : Arguments
  pending : Option Request

namespace Progress

def settle (s : Progress) : Except UsageError Arguments :=
  match s.pending with
  | none => .ok s.settled
  | some ⟨p, some value⟩ => s.settled.assign p value
  | some ⟨_, none⟩ => .error .missingValue

def turnOn (t : Switch) (s : Progress) : Except UsageError Progress := do
  pure ⟨← (← s.settle).turnOn t, none⟩

def assign (p : Parameter) (value : String) (s : Progress) : Except UsageError Progress := do
  pure ⟨← (← s.settle).assign p value, none⟩

def await (p : Parameter) (s : Progress) : Except UsageError Progress := do
  pure ⟨← s.settle, some ⟨p, none⟩⟩

def long (name : String) (value : Option String) (s : Progress) : Except UsageError Progress :=
  match Key.ofLong? name, value with
  | none, _ => .error .unknownArgument
  | some (.option p), some v => s.assign p v
  | some (.option p), none => s.await p
  | some (.switch _), some _ => .error .needlessValue
  | some (.switch t), none => s.turnOn t

def short : List Char → Progress → Except UsageError Progress
  | [], s => .ok s
  | c :: rest, s =>
      match Key.ofShort? c with
      | none => .error .unknownArgument
      | some (.switch t) => do short rest (← s.turnOn t)
      | some (.option p) =>
          match rest with
          | [] => s.await p
          | '=' :: v => s.assign p (String.ofList v)
          | v => s.assign p (String.ofList v)

def plain (value : String) (s : Progress) : Except UsageError Progress :=
  match s.pending with
  | some ⟨p, none⟩ => .ok { s with pending := some ⟨p, some value⟩ }
  | _ => .error .unknownArgument

def step (s : Progress) (argument : String) : Except UsageError Progress :=
  match argument.toList with
  | '-' :: '-' :: cs =>
      match cs.dropWhile (· != '=') with
      | [] => s.long (String.ofList cs) none
      | _ :: value => s.long (String.ofList (cs.takeWhile (· != '='))) (some (String.ofList value))
  | ['-'] => s.plain argument
  | '-' :: cs => s.short cs
  | _ => s.plain argument

def run : List String → Progress → Except UsageError Arguments
  | [], s => s.settle
  | argument :: rest, s =>
      if argument = "--" then if rest.isEmpty then s.settle else .error .unknownArgument
      else do run rest (← s.step argument)

end Progress

def Arguments.read (arguments : List String) : Except UsageError Arguments :=
  Progress.run arguments ⟨{}, none⟩

end Drafting.Command
