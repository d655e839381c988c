import StyleModules.Command.Arguments
import StyleModules.Command.Interval

/-!
# Requests

A command line asks for the version, for files to be formatted, for a source tree to be synced, or
for the specification in force. Anything else is a usage error.
-/

namespace StyleModules

/-- What a command line asks for. -/
inductive Request where
  /-- The version. -/
  | version
  /-- Format files; with `check` only report those that would change. -/
  | format (files : List Text) (sort : Option Text) (check headers : Bool)
  /-- Sync a source tree. The specification's file is absent if the built-in one is asked for. -/
  | sync (directory : Text) (generate sort : Bool) (sortFile : Option Text) (watch headers : Bool)
      (interval : Interval)
  /-- Print the specification in force. -/
  | spec (sort : Option Text)
  deriving DecidableEq, Repr

/-- A request, and whether details are reported with it. -/
structure Invocation where
  /-- Details are reported, and each report with its level. -/
  verbose : Bool := false
  /-- What is asked for. -/
  request : Request
  deriving DecidableEq, Repr

namespace Request

/-- The option that names a specification's file. -/
def sortOption : Text := "--sort".toList

/-- The option that keeps labels out. -/
def noHeadersOption : Text := "--no-headers".toList

/-- The value by which a sync asks for the built-in specification. -/
def builtinValue : Text := ":builtin:".toList

/-- The options before the command. -/
def generalForms : List OptionForm :=
  [⟨"--verbose".toList, ["-v".toList], .flag⟩, ⟨"--version".toList, [], .flag⟩]

/-- The options of formatting. -/
def formatForms : List OptionForm :=
  [⟨sortOption, [], .value⟩, ⟨"--check".toList, [], .flag⟩, ⟨noHeadersOption, [], .flag⟩]

/-- The options of syncing. -/
def syncForms : List OptionForm :=
  [⟨"--dir".toList, [], .value⟩, ⟨"--gen".toList, [], .flag⟩, ⟨sortOption, [], .optionalValue⟩,
    ⟨"--watch".toList, [], .flag⟩, ⟨"--all".toList, ["-a".toList], .flag⟩,
    ⟨"--interval".toList, [], .value⟩, ⟨noHeadersOption, [], .flag⟩]

/-- The options of printing the specification. -/
def specForms : List OptionForm := [⟨sortOption, [], .value⟩]

/-- The value of an option that was given with one. -/
def value? (arguments : Arguments) (name : Text) : Option Text := (arguments.last? name).join

/-- Read the arguments of formatting, which needs a file. -/
def parseFormat (args : List Text) : Option Request := do
  let arguments ← Arguments.parse formatForms true args
  if arguments.operands.isEmpty then none
  return .format arguments.operands (value? arguments sortOption)
    (arguments.has "--check".toList) (!arguments.has noHeadersOption)

/-- Read the arguments of syncing, which takes no operand. -/
def parseSync (args : List Text) : Option Request := do
  let arguments ← Arguments.parse syncForms true args
  if !arguments.operands.isEmpty then none
  let interval ← match value? arguments "--interval".toList with
    | none => some Interval.half
    | some t => Interval.read? t
  let all := arguments.has "--all".toList
  let sortFile := (value? arguments sortOption).filter (· != builtinValue)
  return .sync ((value? arguments "--dir".toList).getD "src".toList)
    (all || arguments.has "--gen".toList) (all || arguments.has sortOption) sortFile
    (all || arguments.has "--watch".toList) (!arguments.has noHeadersOption) interval

/-- Read the arguments of printing the specification, which takes no operand. -/
def parseSpec (args : List Text) : Option Request := do
  let arguments ← Arguments.parse specForms true args
  if !arguments.operands.isEmpty then none
  return .spec (value? arguments sortOption)

/-- Read a command and its arguments. -/
def parseCommand (command : Text) (args : List Text) : Option Request :=
  if command == "format".toList then parseFormat args
  else if command == "sync".toList then parseSync args
  else if command == "spec".toList then parseSpec args
  else none

end Request

/-- Where a command should stand, options may still ask for the version. -/
def Invocation.parseLateVersion (args : List Text) : Option Invocation := do
  let arguments ← Arguments.parse Request.generalForms false args
  if arguments.has "--version".toList then return { request := .version } else none

/-- Read a command line; nothing is the answer to a usage error. -/
def Invocation.parse (args : List Text) : Option Invocation := do
  let arguments ← Arguments.parse Request.generalForms false args
  if arguments.has "--version".toList then return { request := .version }
  match arguments.operands with
  | [] => none
  | command :: rest =>
    match Request.parseCommand command rest with
    | some request => return ⟨arguments.has "--verbose".toList, request⟩
    | none =>
      if Arguments.isOptionLike command then parseLateVersion (command :: rest) else none

end StyleModules
