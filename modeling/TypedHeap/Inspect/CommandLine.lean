import TypedHeap.Inspect.Report
import TypedHeap.Node.Schema

/-!
# The command line

The program prints reports on the types of a fresh registry: `types` lists the builtin ones, and
`layout NAME` shows the fields of one type. With `--ir` the node types are registered first.

* `CommandLine.parse`: arguments as a request.
* `CommandLine.run`: what the program prints and how it exits.
-/

namespace TypedHeap.CommandLine

/-- What the program is asked to do. -/
inductive Request where
  | types
  | layout (name : String) (withNodes : Bool)
  deriving DecidableEq, Repr

/-- What the program prints and how it exits. -/
structure Response where
  code : UInt32
  stdout : String
  stderr : String
  deriving DecidableEq, Repr

/-! ## Arguments -/

/-- The arguments of `layout`: one name, and `--ir` at most once. Behind `--` nothing is an option. -/
def parseLayout (name : Option String) (withNodes : Bool) : List String → Option Request
  | [] => name.map (.layout · withNodes)
  | "--" :: rest =>
    match name, rest with
    | some n, [] => some (.layout n withNodes)
    | none, [n] => some (.layout n withNodes)
    | _, _ => none
  | "--ir" :: rest => if withNodes then none else parseLayout name true rest
  | arg :: rest =>
    if arg.startsWith "-" && arg != "-" then none
    else if name.isSome then none
    else parseLayout (some arg) withNodes rest

/-- The request that arguments make, if they make one. -/
def parse : List String → Option Request
  | ["types"] => some .types
  | "layout" :: rest => parseLayout none false rest
  | _ => none

/-- How to call the program. -/
def usage : String := "usage: types | layout NAME [--ir]\n"

/-! ## Answers -/

/-- The report that a request asks for. -/
def report : Request → Action Registry String
  | .types => Report.builtins
  | .layout name withNodes => do
    if withNodes then
      let _ ← Registry.onTypes NodeTypes.register
    Report.layoutOf name

/-- What the program does when it is called with arguments. -/
def run (args : List String) : Response :=
  match parse args with
  | none => { code := 2, stdout := "", stderr := usage }
  | some request =>
    match ((report request).runOn Registry.fresh).1 with
    | .ok text => { code := 0, stdout := text, stderr := "" }
    | .error e => { code := 1, stdout := "", stderr := "Error: " ++ e.message ++ "\n" }

end TypedHeap.CommandLine
