import StyleModules.Text.Basic

/-!
# Options and operands

Command-line arguments are options and operands. An option that takes a value has it in the next
argument; some values may be left out. What stands behind an equals sign counts as the next
argument. Single-letter flags may be written together behind one hyphen. Two hyphens alone end the
options. Where options and operands may not be mixed, the first operand ends the options.
-/

namespace StyleModules

/-- What an option takes. -/
inductive OptionKind where
  /-- Nothing. -/
  | flag
  /-- A value. -/
  | value
  /-- A value that may be left out if the option comes last or another option follows. -/
  | optionalValue
  deriving DecidableEq, Repr

/-- An option: its spellings, the first of which identifies it, and what it takes. -/
structure OptionForm where
  /-- The name that identifies the option. -/
  name : Text
  /-- Other spellings. -/
  aliases : List Text := []
  /-- What the option takes. -/
  kind : OptionKind := .flag

/-- The spelling belongs to the option. -/
def OptionForm.isSpelled (form : OptionForm) (spelling : Text) : Bool :=
  form.name == spelling || form.aliases.contains spelling

/-- Options as they were given, each with its value if it has one, and operands. -/
structure Arguments where
  /-- The options in order. -/
  options : List (Text × Option Text) := []
  /-- The operands in order. -/
  operands : List Text := []
  deriving DecidableEq, Repr

namespace Arguments

/-- The option was given. -/
def has (arguments : Arguments) (name : Text) : Bool := arguments.options.any (·.1 == name)

/-- The value of the last time the option was given, itself absent if it was left out. -/
def last? (arguments : Arguments) (name : Text) : Option (Option Text) :=
  arguments.options.reverse.lookup name

/-- Put an option in front. -/
def consOption (name : Text) (value : Option Text) (arguments : Arguments) : Arguments :=
  { arguments with options := (name, value) :: arguments.options }

/-- Put an operand in front. -/
def consOperand (operand : Text) (arguments : Arguments) : Arguments :=
  { arguments with operands := operand :: arguments.operands }

/-- The argument is written like an option. -/
def isOptionLike (argument : Text) : Bool := argument.head? == some '-' && 1 < argument.length

/-- The two hyphens that end the options. -/
def endOfOptions : Text := ['-', '-']

/-- What an argument that is written like an option says. -/
inductive Reading where
  /-- Flags, by their names. -/
  | flags (names : List Text)
  /-- An option that takes a value, which may be left out or not. The argument itself may hold what
  follows, behind an equals sign. -/
  | wanting (name : Text) (mayLack attached : Bool)
  /-- No option that is known. -/
  | unknown

/-- The names of flags written together. -/
def readCluster (forms : List OptionForm) : Text → Option (List Text)
  | [] => some []
  | letter :: rest => do
    let form ← forms.find? (·.isSpelled ['-', letter])
    if form.kind == .flag then return form.name :: (← readCluster forms rest) else none

/-- Read an argument that is written like an option. -/
def readOption (forms : List OptionForm) (argument : Text) : Reading :=
  if endOfOptions.isPrefixOf argument then
    match forms.find? (·.isSpelled (Text.before '=' argument)) with
    | none => .unknown
    | some form =>
      let attached := argument.contains '='
      match form.kind with
      | .flag => if attached then .unknown else .flags [form.name]
      | .value => .wanting form.name false attached
      | .optionalValue => .wanting form.name true attached
  else match readCluster forms (argument.drop 1) with
    | some names => .flags names
    | none => .unknown

/-- The arguments that follow an option: what is attached to it comes first. -/
def following (attached : Bool) (argument : Text) (rest : List Text) : List Text :=
  if attached then Text.after '=' argument :: rest else rest

/-- How much there is to read: the characters, and one more for every argument. -/
def weight : List Text → Nat
  | [] => 0
  | argument :: rest => argument.length + 1 + weight rest

/-- What is attached to an argument is shorter than the argument. -/
theorem weight_following_lt {argument : Text} (h : isOptionLike argument = true)
    (attached : Bool) (rest : List Text) :
    weight (following attached argument rest) < weight (argument :: rest) := by
  have hl : 1 < argument.length := by
    simp only [isOptionLike, Bool.and_eq_true, decide_eq_true_eq] at h
    exact h.2
  have hd : (argument.dropWhile (· != '=')).length ≤ argument.length :=
    (List.dropWhile_sublist _).length_le
  cases attached with
  | false => simp only [following, weight, Bool.false_eq_true, if_false]; omega
  | true => simp only [following, weight, Text.after, List.length_drop, if_true]; omega

/-- Read the arguments, or refuse them. -/
def parse (forms : List OptionForm) (mixed : Bool) : List Text → Option Arguments
  | [] => some {}
  | argument :: rest =>
    if argument == endOfOptions then some { operands := rest }
    else if h : isOptionLike argument = true then
      match readOption forms argument with
      | .unknown => none
      | .flags names =>
        (parse forms mixed rest).map fun later => names.foldr (consOption · none) later
      | .wanting name mayLack attached =>
        match following attached argument rest, weight_following_lt h attached rest with
        | [], _ => if mayLack then some { options := [(name, none)] } else none
        | value :: later, _ =>
          if mayLack && isOptionLike value then
            (parse forms mixed (value :: later)).map (consOption name none)
          else (parse forms mixed later).map (consOption name (some value))
    else if mixed then (parse forms mixed rest).map (consOperand argument)
    else some { operands := argument :: rest }
termination_by arguments => weight arguments
decreasing_by all_goals
  simp only [weight] at *
  omega

end Arguments

end StyleModules
