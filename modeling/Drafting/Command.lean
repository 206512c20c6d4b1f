import Drafting.Command.Arguments
import Drafting.Drawing
import Drafting.Json.Printer
import Drafting.Layout
import Drafting.Settings.Document
import Drafting.Source

namespace Drafting.Command

inductive Failure where
  | badSettings
  | unreadable (kind : DiagramKind) (error : Source.ReadError)
deriving DecidableEq

def Failure.message : Failure → String
  | .badSettings => "invalid config"
  | .unreadable kind e => "failed to parse " ++ kind.name ++ " diagram: " ++ e.message

def settings? : Option (List Char) → Except Failure (Settings Float32)
  | none => .ok .standard
  | some text =>
      match Settings.read? text with
      | some s => .ok s
      | none => .error .badSettings

def override (a : Arguments) (s : Settings Float32) : Settings Float32 :=
  { s with
    pages :=
      { s.pages with
        strategy := a.strategy.getD s.pages.strategy
        maxWidth := a.maxWidth.getD s.pages.maxWidth
        maxHeight := a.maxHeight.getD s.pages.maxHeight } }

def kindOf (a : Arguments) (input : List Char) : DiagramKind :=
  (a.kind.or (Source.detect? input)).getD .flow

def document (a : Arguments) (s : Settings Float32) (d : Diagram Float32) : Json :=
  let laid := d.layout s.layout
  let routes := laid.routes s.layout (.standard d.kind)
  if a.isPaged then (Folio.ofPages laid (laid.pages s.pages) routes).toJson
  else (Drawing.ofDiagram laid routes s.layout.padding).toJson

def run (a : Arguments) (settings : Option (List Char)) (input : List Char) :
    Except Failure String := do
  let s := override a (← settings? settings)
  let kind := kindOf a input
  match Source.parse kind input with
  | .ok d => pure ((document a s d).pretty 0 ++ "\n")
  | .error e => .error (.unreadable kind e)

end Drafting.Command
