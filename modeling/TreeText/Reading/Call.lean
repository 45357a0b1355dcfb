import TreeText.Reading.Visitor

/-!
# Arguments and parameters

The arguments of a call or of a class are parted into positional ones and keywords, each in order
of the text. The parameters of a function are sorted into a `Signature`: what stands before a `/`
is positional only, what stands after a `*` is keyword only, and a default goes with its parameter.

Notes on the form: the loop of `lower_parameters` is a fold with the `Signature` as its state, one
step of which is `addParameter`. `lower_argument_list` pushes to one of two lists as it goes; here
the arguments are read in order first and parted then, which reads the same parts in the same order.
-/

namespace TreeText

/-! ## Arguments -/

/-- An argument of a call. -/
inductive Argument where
  | positional (value : Tree)
  | keyword (value : Tree)

/-- The positional arguments and the keywords. -/
def Argument.parted : List Argument → List Tree × List Tree
  | [] => ([], [])
  | .positional value :: rest => (value :: (parted rest).1, (parted rest).2)
  | .keyword value :: rest => ((parted rest).1, value :: (parted rest).2)

/-! ## Parameters -/

/-- A parameter list, sorted (`Signature`). -/
structure Signature where
  positionalOnly : List Tree
  positional : List Tree
  starred : Tree
  keywordOnly : List Tree
  /-- The default of each keyword-only parameter, absent where it has none. -/
  keywordDefaults : List Tree
  doubleStarred : Tree
  /-- The defaults of the positional parameters that have one. -/
  defaults : List Tree
  /-- Whether parameters from here on are keyword only. -/
  afterStar : Bool

namespace Signature

/-- No parameters. -/
def empty : Signature := ⟨[], [], .absent, [], [], .absent, [], false⟩

/-- Adds a parameter that has no star (`push`). -/
def push (signature : Signature) (parameter : Tree) (default : Option Tree) : Signature :=
  if signature.afterStar then
    { signature with
      keywordOnly := signature.keywordOnly ++ [parameter]
      keywordDefaults := signature.keywordDefaults ++ [default.getD .absent] }
  else
    { signature with
      positional := signature.positional ++ [parameter]
      defaults := signature.defaults ++ default.toList }

/-- A star without a parameter (`lower_parameters`). -/
def star (signature : Signature) : Signature :=
  { signature with afterStar := true }

/-- A slash: the positional parameters so far are positional only (`lower_parameters`). -/
def slash (signature : Signature) : Signature :=
  { signature with
    positionalOnly := signature.positionalOnly ++ signature.positional
    positional := [] }

/-- The node of a sorted parameter list (`into_tree`). -/
def toTree (signature : Signature) : Tree :=
  .record "arguments" [
    ("posonlyargs", .seq signature.positionalOnly),
    ("args", .seq signature.positional),
    ("vararg", signature.starred),
    ("kwonlyargs", .seq signature.keywordOnly),
    ("kw_defaults", .seq signature.keywordDefaults),
    ("kwarg", signature.doubleStarred),
    ("defaults", .seq signature.defaults)]

end Signature

/-- The shapes of parameters. -/
inductive ParameterForm where
  | plain
  | typed
  | defaulted
  | starred
  | doubleStarred
  | star
  | slash
  | other
deriving DecidableEq

/-- The shape that a kind of node stands for. -/
def ParameterForm.ofKind : String → ParameterForm
  | "identifier" => .plain
  | "typed_parameter" => .typed
  | "default_parameter" => .defaulted
  | "typed_default_parameter" => .defaulted
  | "list_splat_pattern" => .starred
  | "dictionary_splat_pattern" => .doubleStarred
  | "keyword_separator" => .star
  | "positional_separator" => .slash
  | _ => .other

namespace Visitor

variable {m : Type → Type} [Monad m] [MonadExceptOf Fault m] (v : Visitor m)

/-- An argument with a name (`lower_argument_list`). -/
def keywordArgument (c : Cst) : m Tree := do
  let name ← c.require "name"
  let value ← v.load (← c.require "value")
  return .record "keyword" [("arg", .str (v.text name)), ("value", value)]

/-- A dictionary spread over the keywords: a keyword without a name (`lower_argument_list`). -/
def doubleStarredArgument (c : Cst) : m Tree := do
  let value ← v.load (← c.firstPart)
  return .record "keyword" [("arg", .absent), ("value", value)]

/-- An argument by its construct (`lower_argument_list`). -/
def argument (c : Cst) : m Argument :=
  match c.kind with
  | "keyword_argument" => do return .keyword (← v.keywordArgument c)
  | "dictionary_splat" => do return .keyword (← v.doubleStarredArgument c)
  | _ => do return .positional (← v.load c)

/-- The positional arguments and the keywords of a call or a class (`lower_argument_list`). -/
def arguments (c : Cst) : m (List Tree × List Tree) := do
  return Argument.parted (← c.significant.mapM v.argument)

/-- A parameter's name with its type (`arg`). -/
def parameterName (name : Cst) (type : Option Cst) : m Tree := do
  let hint ← v.typeHint? type
  return .record "arg" [("arg", .str (v.text name)), ("annotation", hint)]

/-- A parameter with a type, starred or not (`lower_parameters`). -/
def typedParameter (signature : Signature) (c : Cst) : m Signature := do
  let type ← c.require "type"
  let inner ← c.firstPart
  match ParameterForm.ofKind inner.kind with
  | .starred => do
    let parameter ← v.parameterName (← inner.firstPart) (some type)
    return { signature with starred := parameter, afterStar := true }
  | .doubleStarred => do
    let parameter ← v.parameterName (← inner.firstPart) (some type)
    return { signature with doubleStarred := parameter }
  | _ => do
    return signature.push (← v.parameterName inner (some type)) none

/-- Adds the next parameter (`lower_parameters`). -/
def addParameter (signature : Signature) (c : Cst) : m Signature :=
  match ParameterForm.ofKind c.kind with
  | .plain => do
    return signature.push (← v.parameterName c none) none
  | .typed => v.typedParameter signature c
  | .defaulted => do
    let parameter ← v.parameterName (← c.require "name") (c.child? "type")
    let default ← v.load (← c.require "value")
    return signature.push parameter (some default)
  | .starred => do
    let parameter ← v.parameterName (← c.firstPart) none
    return { signature with starred := parameter, afterStar := true }
  | .doubleStarred => do
    let parameter ← v.parameterName (← c.firstPart) none
    return { signature with doubleStarred := parameter }
  | .star => pure signature.star
  | .slash => pure signature.slash
  | .other => throw (c.fault (.unexpectedParameter c.kind))

/-- The parameters of a function (`lower_parameters`). -/
def parameters (list : Option Cst) : m Tree := do
  let nodes := (list.map Cst.significant).getD []
  return (← nodes.foldlM v.addParameter Signature.empty).toTree

end Visitor

end TreeText
