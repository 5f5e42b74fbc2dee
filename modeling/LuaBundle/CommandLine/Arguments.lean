import LuaBundle.Path

/-!
# Arguments of the command line

Arguments are read from left to right.  An option's value is the argument after it or, in one
argument, what follows the letter or an equals sign.  An option may be given once, but for the one
that asks for more notices.  `Request.ofArguments` is what some arguments ask for; a request for the
version counts as soon as it is read, and a mistake before it counts first.
-/

set_option autoImplicit false

namespace LuaBundle.CommandLine

/-- What becomes of a bundle. -/
inductive Mode where
  /-- It is written to a file. -/
  | output (file : Path)
  /-- It is printed. -/
  | stdout
  /-- It is not made; the modules are listed. -/
  | list
  deriving DecidableEq, Repr

/-- A run that was asked for. -/
structure Job where
  entry : Path
  mode : Mode
  config? : Option Path := none
  strictCycles : Bool := false
  verbosity : Nat := 0
  deriving DecidableEq, Repr

/-- What arguments ask for. -/
inductive Request where
  | run (job : Job)
  | version
  | help
  | mistake
  deriving DecidableEq, Repr

/-- The options that take a value. -/
inductive Valued where
  | entry
  | output
  | config
  deriving DecidableEq, Repr

/-- The options that take none. -/
inductive Flag where
  | stdout
  | list
  | strictCycles
  | verbose
  | version
  | help
  deriving DecidableEq, Repr

/-- An option by its name. -/
inductive Named where
  | valued (v : Valued)
  | flag (f : Flag)
  deriving DecidableEq, Repr

def Named.ofLetter? : Char → Option Named
  | 'e' => some (.valued .entry)
  | 'o' => some (.valued .output)
  | 'c' => some (.valued .config)
  | 'v' => some (.flag .verbose)
  | 'V' => some (.flag .version)
  | 'h' => some (.flag .help)
  | _ => none

def Named.ofWord? : String → Option Named
  | "entry" => some (.valued .entry)
  | "output" => some (.valued .output)
  | "config" => some (.valued .config)
  | "stdout" => some (.flag .stdout)
  | "list" => some (.flag .list)
  | "strict-cycles" => some (.flag .strictCycles)
  | "verbose" => some (.flag .verbose)
  | "version" => some (.flag .version)
  | "help" => some (.flag .help)
  | _ => none

/-- The options read so far. -/
structure Options where
  entry? : Option String := none
  output? : Option String := none
  config? : Option String := none
  stdout : Bool := false
  list : Bool := false
  strictCycles : Bool := false
  verbosity : Nat := 0
  deriving DecidableEq, Repr

namespace Options

/-- Sets the value of an option that has none yet.  A value is never empty. -/
def setValue (o : Options) (v : Valued) (value : String) : Except Request Options :=
  if value.isEmpty then .error .mistake
  else
    match v with
    | .entry => if o.entry?.isSome then .error .mistake else .ok { o with entry? := some value }
    | .output => if o.output?.isSome then .error .mistake else .ok { o with output? := some value }
    | .config => if o.config?.isSome then .error .mistake else .ok { o with config? := some value }

/-- Sets an option that takes no value. -/
def setFlag (o : Options) : Flag → Except Request Options
  | .stdout => if o.stdout then .error .mistake else .ok { o with stdout := true }
  | .list => if o.list then .error .mistake else .ok { o with list := true }
  | .strictCycles => if o.strictCycles then .error .mistake else .ok { o with strictCycles := true }
  | .verbose => .ok { o with verbosity := o.verbosity + 1 }
  | .version => .error .version
  | .help => .error .help

/-- What the options ask for when there are no more of them: an entry is needed, and exactly one
mode. -/
def finish (o : Options) : Request :=
  let modes := (o.output?.map (fun file => Mode.output ⟨file⟩)).toList ++
    (if o.stdout then [Mode.stdout] else []) ++ (if o.list then [Mode.list] else [])
  match o.entry?, modes with
  | some entry, [mode] =>
    .run
      { entry := ⟨entry⟩, mode
        config? := o.config?.map (⟨·⟩)
        strictCycles := o.strictCycles
        verbosity := o.verbosity }
  | _, _ => .mistake

/-- What a letter of a cluster leaves to do. -/
inductive Pending where
  | nothing
  /-- The argument after the cluster is the value of an option. -/
  | value (v : Valued)
  deriving DecidableEq, Repr

/-- Reads the letters after a single hyphen.  The rest of the cluster is the value of an option that
takes one. -/
def readLetters (o : Options) : List Char → Except Request (Options × Pending)
  | [] => .ok (o, .nothing)
  | c :: rest =>
    match Named.ofLetter? c with
    | none => .error .mistake
    | some (.flag f) => do (← o.setFlag f).readLetters rest
    | some (.valued v) =>
      match rest with
      | [] => .ok (o, .value v)
      | '=' :: value => do return (← o.setValue v (String.ofList value), .nothing)
      | value => do return (← o.setValue v (String.ofList value), .nothing)

/-- Reads the word after two hyphens; a value may follow an equals sign. -/
def readWord (o : Options) (cs : List Char) : Except Request (Options × Pending) :=
  let word := cs.takeWhile (· != '=')
  let value? := (cs.drop word.length).tail?
  match Named.ofWord? (String.ofList word), value? with
  | some (.flag f), none => do return (← o.setFlag f, .nothing)
  | some (.valued v), some value => do return (← o.setValue v (String.ofList value), .nothing)
  | some (.valued v), none => .ok (o, .value v)
  | some (.flag _), some _ | none, _ => .error .mistake

/-- Whether an argument can be the value of the option before it. -/
def isValue (arg : String) : Bool :=
  match arg.toList with
  | '-' :: _ :: _ => false
  | _ => true

/-- Reads some arguments.  Two hyphens alone end the options, and nothing may follow them. -/
def read (o : Options) (pending : Pending) : List String → Request
  | [] => if pending = .nothing then o.finish else .mistake
  | arg :: rest =>
    match pending with
    | .value v =>
      if isValue arg then
        match o.setValue v arg with
        | .ok o => o.read .nothing rest
        | .error request => request
      else .mistake
    | .nothing =>
      let read? : Except Request (Options × Pending) :=
        match arg.toList with
        | ['-', '-'] => if rest.isEmpty then .error o.finish else .error .mistake
        | '-' :: '-' :: word => o.readWord word
        | '-' :: c :: letters => o.readLetters (c :: letters)
        | _ => .error .mistake
      match read? with
      | .ok (o, pending) => o.read pending rest
      | .error request => request

end Options

/-- What some arguments ask for. -/
def Request.ofArguments (args : List String) : Request :=
  Options.read {} .nothing args

end LuaBundle.CommandLine
