/-!
Reading flags from a command line. Tokens are taken left to right; a flag's value is settled
when the next flag comes or the line ends. A flag that is not given takes its environment
variable, then its default. A required flag without either is missed last of all.
-/

namespace Upkeep.CommandLine

/-- What a flag's value must be. -/
inductive Kind where
  | text
  /-- A text that is not empty. -/
  | path
  /-- A decimal number up to a greatest one; a sign may stand before it, a minus before zero only. -/
  | signed (greatest : Nat)
  /-- A decimal number up to a greatest one, perhaps after a plus sign. -/
  | natural (greatest : Nat)
  deriving DecidableEq, Repr

inductive Default where
  | required
  | absent
  | value (text : String)
  deriving DecidableEq, Repr

structure Flag where
  name : String
  environment : String
  kind : Kind
  default : Default
  deriving DecidableEq, Repr

inductive Error where
  | missing (flags : List String)
  | unknown (token : String)
  | invalid (flag : String)
  | noValue (flag : String)
  | repeated (flag : String)
  | help
  | version
  deriving DecidableEq, Repr

def digits? (cs : List Char) : Option Nat :=
  if cs.isEmpty || !cs.all Char.isDigit then none else some (Nat.ofDigitChars 10 cs 0)

/-- The number a text stands for, if it is one that the kind takes. -/
def number? (kind : Kind) (text : String) : Option Nat :=
  match kind, text.toList with
  | .signed greatest, '-' :: r => (digits? r).filter fun n => n == 0 && n ≤ greatest
  | .signed greatest, '+' :: r => (digits? r).filter (· ≤ greatest)
  | .signed greatest, cs => (digits? cs).filter (· ≤ greatest)
  | .natural greatest, '+' :: r => (digits? r).filter (· ≤ greatest)
  | .natural greatest, cs => (digits? cs).filter (· ≤ greatest)
  | _, _ => none

/-- What is wrong with a value of a flag. -/
def Flag.fault? (f : Flag) (text : String) : Option Error :=
  match f.kind with
  | .text => none
  | .path => if text.isEmpty then some (.noValue f.name) else none
  | kind => if (number? kind text).isNone then some (.invalid f.name) else none

/-- Values by the name of their flag. -/
abbrev Values := List (String × String)

structure State where
  values : Values
  /-- A flag whose value, if it came yet, is not settled. -/
  pending : Option (Flag × Option String)
  /-- Whether a double dash ended the flags. -/
  flagsEnded : Bool

def State.start : State := ⟨[], none, false⟩

/-- Gives a flag its value, unless it has one or the value is of the wrong kind. -/
def State.give (s : State) (f : Flag) (text : String) : Except Error State :=
  if (s.values.lookup f.name).isSome then .error (.repeated f.name)
  else
    match f.fault? text with
    | some e => .error e
    | none => .ok { s with values := s.values ++ [(f.name, text)] }

/-- Settles the value of the pending flag. -/
def State.settle (s : State) : Except Error State :=
  match s.pending with
  | none => .ok s
  | some (f, none) => .error (.noValue f.name)
  | some (f, some text) => { s with pending := none }.give f text

/-- The parts of a token before and after its first equals sign. -/
def splitEquals : List Char → List Char × Option (List Char)
  | [] => ([], none)
  | c :: r =>
    if c = '=' then ([], some r)
    else
      let (name, value) := splitEquals r
      (c :: name, value)

/-- A token that starts with two dashes. -/
def State.long (flags : List Flag) (s : State) (token : String) : Except Error State :=
  let (name, value) := splitEquals token.toList
  let name := String.ofList name
  if name = "--help" then s.settle.bind fun _ => .error .help
  else if name = "--version" then s.settle.bind fun _ => .error .version
  else
    match flags.find? fun f => f.name == name with
    | none => .error (.unknown token)
    | some f => do
      let s ← s.settle
      match value with
      | some text => s.give f (String.ofList text)
      | none => return { s with pending := some (f, none) }

def State.take (flags : List Flag) (s : State) (token : String) : Except Error State :=
  if s.flagsEnded then .error (.unknown token)
  else
    match token.toList with
    | ['-', '-'] => .ok { s with flagsEnded := true }
    | '-' :: '-' :: _ => s.long flags token
    | '-' :: 'h' :: _ => s.settle.bind fun _ => .error .help
    | '-' :: 'V' :: _ => s.settle.bind fun _ => .error .version
    | '-' :: _ :: _ => .error (.unknown token)
    | _ =>
      match s.pending with
      | some (f, none) => .ok { s with pending := some (f, some token) }
      | _ => .error (.unknown token)

/-- Takes the environment's value for each flag that has none. -/
def fromEnvironment (flags : List Flag) (env : Values) (s : State) : Except Error State :=
  flags.foldlM (fun s f =>
    if (s.values.lookup f.name).isSome then .ok s
    else
      match env.lookup f.environment with
      | none => .ok s
      | some text => s.give f text) s

def missing (flags : List Flag) (values : Values) : List String :=
  (flags.filter fun f => f.default == .required && (values.lookup f.name).isNone).map Flag.name

/-- The values of all flags that have one, defaults included. -/
def withDefaults (flags : List Flag) (values : Values) : Values :=
  flags.filterMap fun f =>
    match values.lookup f.name, f.default with
    | some text, _ => some (f.name, text)
    | none, .value text => some (f.name, text)
    | none, _ => none

def parse (flags : List Flag) (env : Values) (tokens : List String) : Except Error Values := do
  let s ← tokens.foldlM (State.take flags) State.start
  let s ← s.settle
  let s ← fromEnvironment flags env s
  match missing flags s.values with
  | [] => return withDefaults flags s.values
  | names => throw (.missing names)

end Upkeep.CommandLine
