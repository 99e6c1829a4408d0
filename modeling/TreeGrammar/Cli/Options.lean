import TreeGrammar.Text.Digit

/-!
Command lines. An option has a short or a long name and may take a value, which is the next
argument or is joined to the name; long names may be cut short where they stay unique, and short
ones may share a dash. Options and other arguments mix freely; after the separator `--` nothing is
an option. A separator that stands where a value or an operand belongs is lost: what is joined to a
name, and a second separator unless the first stands right before it.
-/
namespace TreeGrammar.Cli

/-- An option: what it is called in results, its names, and whether it takes a value. -/
structure Flag where
  key : String
  names : List String
  takesValue : Bool
deriving Inhabited

/-- The options of a program and the number of other arguments it needs. -/
structure Usage where
  flags : List Flag
  operands : Nat

/-- Why a command line is not run. -/
inductive Refusal where
  /-- It does not follow the usage. -/
  | misuse
  /-- It asks for help. -/
  | help
deriving DecidableEq, Repr

def helpFlag : Flag := ⟨"help", ["-h", "--help"], false⟩

def separator : String := "--"

/-- All options, that for help being the first. -/
def Usage.allFlags (usage : Usage) : List Flag :=
  helpFlag :: usage.flags

def Usage.flag? (usage : Usage) (name : List Char) : Option Flag :=
  usage.allFlags.find? fun f => f.names.any fun n => n.toList == name

/-- An argument on its own. -/
inductive Token where
  | operand (text : String)
  | separator
  /-- An option; `short` tells the form of its name, and `value` is joined to the name. -/
  | option (flag : Flag) (short : Bool) (value : Option (List Char))
  | unknown
deriving Inhabited

/-- A text cut at its first equals sign. -/
def cutAtEquals (cs : List Char) : Option (List Char × List Char) :=
  match cs.span (· != '=') with
  | (name, _ :: value) => some (name, value)
  | (_, []) => none

/-- The options whose long names start with the given text. -/
def Usage.completions (usage : Usage) (start : List Char) : List Flag :=
  usage.allFlags.flatMap fun f =>
    (f.names.filter fun n => start.isPrefixOf n.toList).map fun _ => f

/-- A text without a line feed at its end. -/
def dropLineFeed (cs : List Char) : List Char :=
  if cs.getLast? = some '\n' then cs.dropLast else cs

/-- Whether a text reads like a negative number. -/
def isNegativeNumber (cs : List Char) : Bool :=
  match dropLineFeed cs with
  | '-' :: rest =>
    match rest.span Text.isDecimalDigit with
    | (whole, []) => !whole.isEmpty
    | (_, '.' :: places) => !places.isEmpty && places.all Text.isDecimalDigit
    | _ => false
  | _ => false

/-- An argument that starts with a dash and names no option by itself. -/
def Usage.joined (usage : Usage) (cs : List Char) : Except Refusal Token :=
  let candidates : List Token :=
    match cs with
    | '-' :: '-' :: _ =>
      let (start, value) := match cutAtEquals cs with
        | some (start, value) => (start, some value)
        | none => (cs, none)
      (usage.completions start).map fun f => .option f false value
    | dash :: letter :: value =>
      match usage.flag? [dash, letter] with
      | some f => [.option f true (some value)]
      | none => []
    | _ => []
  match candidates with
  | [token] => .ok token
  | _ :: _ :: _ => .error .misuse
  | [] =>
    if isNegativeNumber cs || cs.contains ' ' then .ok (.operand (String.ofList cs))
    else .ok .unknown

/-- Whether a name has the short form. -/
def isShort (name : List Char) : Bool :=
  match name with
  | '-' :: '-' :: _ => false
  | _ => true

/-- What an argument before the separator is. -/
def Usage.token (usage : Usage) (arg : String) : Except Refusal Token :=
  match arg.toList with
  | ['-'] => .ok (.operand arg)
  | '-' :: rest =>
    match usage.flag? ('-' :: rest) with
    | some f => .ok (.option f (isShort ('-' :: rest)) none)
    | none =>
      match cutAtEquals ('-' :: rest) with
      | some (name, value) =>
        match usage.flag? name with
        | some f => .ok (.option f (isShort name) (some value))
        | none => usage.joined ('-' :: rest)
      | none => usage.joined ('-' :: rest)
  | _ => .ok (.operand arg)

def Usage.tokens (usage : Usage) : List String → Except Refusal (List Token)
  | [] => .ok []
  | arg :: rest =>
    if arg = separator then .ok (.separator :: rest.map .operand)
    else do
      let first ← usage.token arg
      let others ← usage.tokens rest
      pure (first :: others)

/-- A value or an operand as a program gets it: nothing if it is lost. -/
abbrev Argument := Option String

/-- What is left of a text where a value or an operand belongs. -/
def Argument.ofText (text : String) : Argument :=
  if text = separator then none else some text

/-- What a command line gives: its options in order, those that take one with their values, and its
operands. -/
structure Given where
  options : List (String × Option Argument)
  operands : List Argument

namespace Given

def empty : Given := ⟨[], []⟩

def count (given : Given) (key : String) : Nat :=
  (given.options.filter fun o => o.1 == key).length

def has (given : Given) (key : String) : Bool :=
  given.options.any fun o => o.1 == key

def value? (given : Given) (key : String) : Option Argument :=
  ((given.options.filter fun o => o.1 == key).getLast?).bind Prod.snd

end Given

def Given.operand? (given : Given) (index : Nat) : Argument :=
  (given.operands[index]?).join

/-- What a token of options comes to: options without a value, then one that may have a value
joined to it. -/
structure Cluster where
  flags : List Flag
  last : Flag
  value : Option (List Char)

/-- The options that share a dash with the given one. What is joined to an option without a value
are the letters of further ones. -/
def Usage.cluster (usage : Usage) (short : Bool) (flag : Flag) :
    List Char → Except Refusal Cluster
  | [] => if flag.takesValue then .ok ⟨[], flag, some []⟩ else .error .misuse
  | c :: rest =>
    if flag.takesValue then .ok ⟨[], flag, some (c :: rest)⟩
    else if short then
      match usage.flag? ['-', c], rest with
      | none, _ => .error .misuse
      | some next, [] => .ok ⟨[flag], next, none⟩
      | some next, letter :: more => do
        let cluster ← usage.cluster true next (letter :: more)
        pure { cluster with flags := flag :: cluster.flags }
    else .error .misuse

def Given.addOption (given : Given) (flag : Flag) (value : Option Argument) :
    Except Refusal Given :=
  if flag.key = helpFlag.key then .error .help
  else .ok { given with options := given.options ++ [(flag.key, value)] }

def Given.addOperand (given : Given) (operand : Argument) : Given :=
  { given with operands := given.operands ++ [operand] }

/-- Options without values. -/
def Given.addFlags (given : Given) (flags : List Flag) : Except Refusal Given :=
  flags.foldlM (fun given flag => given.addOption flag none) given

/-- Reads the tokens that are left; `extra` tells whether there was one of no use. -/
def Usage.read (usage : Usage) (given : Given) (extra : Bool) : List Token → Except Refusal Given
  | [] => if given.operands.length < usage.operands || extra then .error .misuse else .ok given
  | .unknown :: rest => usage.read given true rest
  | .separator :: .operand text :: rest =>
    if given.operands.length < usage.operands then
      usage.read (given.addOperand (some text)) extra rest
    else usage.read given true rest
  | .separator :: rest => usage.read given true rest
  | .operand text :: .separator :: rest =>
    if given.operands.length < usage.operands then
      usage.read (given.addOperand (some text)) extra rest
    else usage.read given true rest
  | .operand text :: rest =>
    if given.operands.length < usage.operands then
      usage.read (given.addOperand (.ofText text)) extra rest
    else usage.read given true rest
  | .option flag short value :: rest => do
    let cluster ← match value with
      | none => pure ⟨[], flag, none⟩
      | some cs => usage.cluster short flag cs
    match cluster.last.takesValue, cluster.value, rest with
    | false, _, rest =>
      let given ← given.addFlags cluster.flags
      usage.read (← given.addOption cluster.last none) extra rest
    | true, some cs, rest =>
      let given ← given.addFlags cluster.flags
      usage.read (← given.addOption cluster.last (some (.ofText (String.ofList cs)))) extra rest
    | true, none, .operand text :: rest =>
      let given ← given.addFlags cluster.flags
      usage.read (← given.addOption cluster.last (some (.ofText text))) extra rest
    | true, none, _ => .error .misuse

/-- What a command line gives, if it follows the usage. -/
def Usage.parse (usage : Usage) (args : List String) : Except Refusal Given := do
  usage.read .empty false (← usage.tokens args)

end TreeGrammar.Cli
