import FormulaEngine.Expr.Basic
import FormulaEngine.Value.Json

/-!
# Expressions in JSON

An expression is written as an object that names its kind before its fields. It is read from such an
object, the kind standing anywhere in it, or from an array of the kind and the fields in order. The
kind of an expression inside another may also be its number.
-/

namespace FormulaEngine

namespace UnaryOp

def table : List (String × UnaryOp) := [("neg", .neg), ("not", .not)]

def name : UnaryOp → String
  | .neg => "neg"
  | .not => "not"

end UnaryOp

namespace BinaryOp

def table : List (String × BinaryOp) :=
  [("add", .add), ("sub", .sub), ("mul", .mul), ("div", .div), ("rem", .rem), ("eq", .eq),
    ("ne", .ne), ("lt", .lt), ("le", .le), ("gt", .gt), ("ge", .ge), ("and", .and), ("or", .or)]

def name : BinaryOp → String
  | .add => "add"
  | .sub => "sub"
  | .mul => "mul"
  | .div => "div"
  | .rem => "rem"
  | .eq => "eq"
  | .ne => "ne"
  | .lt => "lt"
  | .le => "le"
  | .gt => "gt"
  | .ge => "ge"
  | .and => "and"
  | .or => "or"

end BinaryOp

namespace Expr

/-! ### Writing -/

def node (kind : String) (fields : List (String × Json)) : Json :=
  .object (("kind", .string kind) :: fields)

mutual

def toJson : Expr → Json
  | .literal v => node "literal" [("value", v.toJson)]
  | .ident name => node "ident" [("name", .string name)]
  | .member target name => node "member" [("target", toJson target), ("member", .string name)]
  | .unary op operand => node "unary" [("op", .string op.name), ("operand", toJson operand)]
  | .binary op lhs rhs =>
    node "binary" [("op", .string op.name), ("lhs", toJson lhs), ("rhs", toJson rhs)]
  | .conditional condition consequent alternative =>
    node "if" [("condition", toJson condition), ("then", toJson consequent),
      ("otherwise", toJson alternative)]
  | .switch subject cases fallback =>
    node "switch" [("subject", toJson subject), ("cases", .array (casesToJson cases)),
      ("otherwise", optionToJson fallback)]
  | .list items => node "list" [("items", .array (listToJson items))]
  | .object fields => node "object" [("fields", .array (fieldsToJson fields))]
  | .call function args =>
    node "call" [("function", .string function), ("args", .array (listToJson args))]
  | .await operand => node "await" [("operand", toJson operand)]
  | .default target fallback =>
    node "default" [("target", toJson target), ("fallback", toJson fallback)]

def listToJson : List Expr → List Json
  | [] => []
  | e :: rest => toJson e :: listToJson rest

def casesToJson : List (Expr × Expr) → List Json
  | [] => []
  | (pattern, value) :: rest =>
    .object [("pattern", toJson pattern), ("value", toJson value)] :: casesToJson rest

def fieldsToJson : List (String × Expr) → List Json
  | [] => []
  | (name, value) :: rest =>
    .object [("name", .string name), ("value", toJson value)] :: fieldsToJson rest

def optionToJson : Option Expr → Json
  | none => .null
  | some e => toJson e

end

/-! ### Reading -/

/-- The kinds of expressions in the order of their numbers, each with the names of its fields. -/
def shapes : List (String × List String) :=
  [("literal", ["value"]), ("ident", ["name"]), ("member", ["target", "member"]),
    ("unary", ["op", "operand"]), ("binary", ["op", "lhs", "rhs"]),
    ("if", ["condition", "then", "otherwise"]), ("switch", ["subject", "cases", "otherwise"]),
    ("list", ["items"]), ("object", ["fields"]), ("call", ["function", "args"]),
    ("await", ["operand"]), ("default", ["target", "fallback"])]

/-- The kind that a document names, inside of another expression also by number. -/
def kind? (inside : Bool) : Json → Option String
  | .string name => some name
  | .number n =>
    if inside && !n.negative && n.fraction.isEmpty && n.exponent.isNone then
      (shapes[Numeral.digitsValue n.whole]?).map (·.1)
    else none
  | _ => none

def split? (inside : Bool) : Json → Option (String × Json)
  | .object members =>
    match members.filter (·.1 == "kind") with
    | [(_, tag)] =>
      (kind? inside tag).map fun kind => (kind, .object (members.filter (·.1 != "kind")))
    | _ => none
  | .array (tag :: items) => (kind? inside tag).map fun kind => (kind, .array items)
  | _ => none

/-- The fields of an expression behind its kind, each if it is there. -/
def parts? (inside : Bool) (j : Json) : Option (String × List (Option Json)) := do
  let (kind, body) ← split? inside j
  let names ← shapes.lookup kind
  let parts ← Json.record? names body
  some (kind, parts)

/-- A case of a switch, or any other pair of expressions under two names. -/
def pair? {α β : Type} (names : List String) (first : Json → Option α) (second : Json → Option β)
    (j : Json) : Option (α × β) :=
  match Json.record? names j with
  | some [some a, some b] => do
    let a ← first a
    let b ← second b
    some (a, b)
  | _ => none

def optional? (decode : Json → Option Expr) : Json → Option (Option Expr)
  | .null => some none
  | j => (decode j).map some

/-- The expression of a document. `depth` bounds the nesting of expressions. -/
def ofJson? (depth : Nat) (inside : Bool) (j : Json) : Option Expr :=
  match depth with
  | 0 => none
  | depth + 1 =>
    let part := ofJson? depth true
    match parts? inside j with
    | some ("literal", [some v]) => (Value.ofJson? v).map .literal
    | some ("ident", [some name]) => (Json.string? name).map .ident
    | some ("member", [some target, some name]) => do
      let target ← part target
      let name ← Json.string? name
      some (.member target name)
    | some ("unary", [some op, some operand]) => do
      let op ← Json.word? true UnaryOp.table op
      let operand ← part operand
      some (.unary op operand)
    | some ("binary", [some op, some lhs, some rhs]) => do
      let op ← Json.word? true BinaryOp.table op
      let lhs ← part lhs
      let rhs ← part rhs
      some (.binary op lhs rhs)
    | some ("if", [some condition, some consequent, some alternative]) => do
      let condition ← part condition
      let consequent ← part consequent
      let alternative ← part alternative
      some (.conditional condition consequent alternative)
    | some ("switch", [some subject, some cases, fallback]) => do
      let subject ← part subject
      let cases ← Json.listOf? (pair? ["pattern", "value"] part part) cases
      let fallback ← Json.fieldOr none (optional? part) fallback
      some (.switch subject cases fallback)
    | some ("list", [some items]) => (Json.listOf? part items).map .list
    | some ("object", [some fields]) =>
      (Json.listOf? (pair? ["name", "value"] Json.string? part) fields).map .object
    | some ("call", [some function, args]) => do
      let function ← Json.string? function
      let args ← Json.fieldOr [] (Json.listOf? part) args
      some (.call function args)
    | some ("await", [some operand]) => (part operand).map .await
    | some ("default", [some target, some fallback]) => do
      let target ← part target
      let fallback ← part fallback
      some (.default target fallback)
    | _ => none

def decode? (depth : Nat) (j : Json) : Option Expr :=
  if j.isSound depth then ofJson? (depth + 1) false j else none

end Expr

end FormulaEngine
