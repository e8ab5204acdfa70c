import ServletContainer.Http.Message

/-! The arguments of the command line: the configuration file, then a command. Options may stand
before and after the arguments of their command; after `--` nothing is an option. -/
namespace ServletContainer.Cli

inductive Command where
  /-- Applies the configuration and prints the deployment. -/
  | check
  /-- Prints what each path leads to. -/
  | route (paths : List String)
  /-- Dispatches one request and prints the response. -/
  | request (uri method : String)
  deriving DecidableEq

structure Invocation where
  config : String
  command : Command
  deriving DecidableEq

/-- An argument as it stands, before it is known whether an option asks for it. -/
inductive Argument where
  | escape
  /-- An option with two dashes, and what follows its equals sign. -/
  | long (name : String) (value : Option String)
  /-- An option of one letter, and what is attached to it. -/
  | short (letter : Char) (value : Option String)
  | plain (text : String)
  deriving DecidableEq

def Argument.ofString (s : String) : Argument :=
  match s.toList with
  | ['-', '-'] => .escape
  | '-' :: '-' :: cs =>
    match Text.splitFirst '=' cs with
    | some (name, value) => .long (String.ofList name) (some (String.ofList value))
    | none => .long (String.ofList cs) none
  | ['-'] => .plain s
  | '-' :: c :: cs =>
    match cs with
    | [] => .short c none
    | '=' :: cs => .short c (some (String.ofList cs))
    | cs => .short c (some (String.ofList cs))
  | _ => .plain s

/-- An option that takes a value. -/
structure ValueOption where
  long : String
  short : Char

/-- The value attached to the option, if the argument is the option. -/
def ValueOption.attached? (o : ValueOption) : Argument → Option (Option String)
  | .long name value => if name = o.long then some value else none
  | .short letter value => if letter = o.short then some value else none
  | _ => none

/-- Separates the values given to the option from the other arguments; `none` if an argument is out
of place. `awaiting` says that the value of the option comes next. -/
def ValueOption.extract (o : ValueOption) (awaiting : Bool) :
    List String → Option (List String × List String)
  | [] => if awaiting then none else some ([], [])
  | a :: as =>
    match awaiting, Argument.ofString a with
    | true, .plain v => (o.extract false as).map fun (vs, plain) => (v :: vs, plain)
    | true, _ => none
    | false, .plain a => (o.extract false as).map fun (vs, plain) => (vs, a :: plain)
    | false, .escape => some ([], as)
    | false, x =>
      match o.attached? x with
      | none => none
      | some none => o.extract true as
      | some (some v) => (o.extract false as).map fun (vs, plain) => (v :: vs, plain)

/-- Arguments among which there is no option; `--` is dropped. -/
def plainOnly : List String → Option (List String)
  | [] => some []
  | a :: as =>
    match Argument.ofString a with
    | .escape => some as
    | .plain a => (plainOnly as).map (a :: ·)
    | _ => none

def request? (args : List String) : Option Command := do
  let (methods, uris) ← ValueOption.extract ⟨"method", 'X'⟩ false args
  match methods, uris with
  | [], [uri] => return .request uri "GET"
  | [method], [uri] => if isToken method then return .request uri method else none
  | _, _ => none

def command? : List String → Option Command
  | "check" :: args => do
    match ← plainOnly args with
    | [] => return .check
    | _ => none
  | "route" :: args => (plainOnly args).map .route
  | "request" :: args => request? args
  | _ => none

def configOption : ValueOption := ⟨"config", 'c'⟩

def Invocation.ofArguments? : List String → Option Invocation
  | [] => none
  | a :: args =>
    match configOption.attached? (Argument.ofString a), args with
    | some (some file), args => (command? args).map (.mk file)
    | some none, file :: args =>
      match Argument.ofString file with
      | .plain file => (command? args).map (.mk file)
      | _ => none
    | _, _ => none

end ServletContainer.Cli
