import Identicon.Expr.Basic
import Identicon.Json.Scalar

/-!
# Expressions as documents

An expression is written as an object whose member `op` tells what kind of node it is and whose
other members are the parts of the node. It is read from such an object with its members in any
order and with any other members besides, or from an array of the kind and the parts.

The outermost value is read as a whole before any of its parts is looked at, apart from `op`. So a
problem with the text or with the outermost `op` has a position, and a problem found afterwards in
the parts has none. Further in, `op` may also be the number of a kind.

## Main definitions

* `Expr.toJson`: the written form.
* `Op`: the kinds of nodes.
* `Part`: a value and the expression it stands for, if it stands for one.
* `Expr.ofJson`: the expression a value stands for.
* `Expr.read`: the expression of a text.
-/

namespace Identicon

open Json (Value Reader Fault Mismatch)

namespace Leaf

/-- The names of the leaves in a document. -/
def names : List (String × Leaf) :=
  [("X", .x), ("Y", .y), ("Xy", .xy)]

/-- The name of a leaf in a document. -/
def name : Leaf → List Char
  | .x => "X".toList
  | .y => "Y".toList
  | .xy => "Xy".toList

/-- The leaf a value stands for: its name, or an object whose only key is the name and whose value
holds nothing. -/
def ofJson : Value → Except Mismatch Leaf
  | .string name => Json.ofName names name
  | .object [(name, v)] => do
    let leaf ← Json.ofName names name
    match v with
    | .null => return leaf
    | .object [] => return leaf
    | v => throw (.wrongType v.found "unit")
  | .object _ => .error (.wrongValue .object "map with a single key")
  | v => .error (.wrongType v.found "string or map")

end Leaf

/-- The kinds of nodes of an expression. -/
inductive Op where
  | terminal
  | product
  | sine
  | cosine
deriving DecidableEq, Repr

namespace Op

/-- The names of the kinds, in the order of their numbers. -/
def names : List (String × Op) :=
  [("terminal", .terminal), ("product", .product), ("sine", .sine), ("cosine", .cosine)]

/-- The kind a value inside a document stands for: its name or its number. -/
def ofJson : Value → Except Mismatch Op
  | .string name => Json.ofName names name
  | .number (.integer n) =>
    if n < 0 then .error (.wrongType (.number (.integer n)) "variant identifier")
    else
      match names[n.toNat]? with
      | some (_, op) => .ok op
      | none => .error (.wrongValue (.number (.integer n)) "variant index 0 <= i < 4")
  | v => .error (.wrongType v.found "variant identifier")

end Op

namespace Expr

/-! ## Writing -/

/-- The written form of an expression. -/
def toJson : Expr → Value
  | leaf l =>
    .object [("op".toList, .string "terminal".toList), ("kind".toList, .string l.name)]
  | product lhs rhs =>
    .object [("op".toList, .string "product".toList), ("lhs".toList, lhs.toJson),
      ("rhs".toList, rhs.toJson)]
  | sine arg => .object [("op".toList, .string "sine".toList), ("arg".toList, arg.toJson)]
  | cosine arg => .object [("op".toList, .string "cosine".toList), ("arg".toList, arg.toJson)]

/-! ## Taking values apart -/

/-- The key of the member that tells the kind of a node. -/
def opKey : List Char := "op".toList

/-- What an expression is expected to be. -/
def expected : String := "internally tagged enum Expr"

/-- A value, and the expression it stands for. -/
structure Part where
  value : Value
  asExpr : Except Mismatch Expr

/-- The parts of a node: members of an object or items of an array. -/
inductive Parts where
  | members (ms : List (List Char × Part))
  | items (ps : List Part)

/-- The only part of a node, which is the member `name`. Members of other names do not matter, but
the part may occur only once. -/
def soleMember {α : Type} (name : String) (read : Part → Except Mismatch α) :
    Option α → List (List Char × Part) → Except Mismatch α
  | some a, [] => .ok a
  | none, [] => .error (.missingField name)
  | seen, (key, p) :: ms =>
    if key = name.toList then
      match seen with
      | some _ => .error (.duplicateField name)
      | none => do soleMember name read (some (← read p)) ms
    else soleMember name read seen ms

/-- The factors of a product, which are the members `lhs` and `rhs`. -/
def factorMembers :
    Option Expr → Option Expr → List (List Char × Part) → Except Mismatch (Expr × Expr)
  | lhs, rhs, [] =>
    match lhs, rhs with
    | some lhs, some rhs => .ok (lhs, rhs)
    | none, _ => .error (.missingField "lhs")
    | some _, none => .error (.missingField "rhs")
  | lhs, rhs, (key, p) :: ms =>
    if key = "lhs".toList then
      match lhs with
      | some _ => .error (.duplicateField "lhs")
      | none => do factorMembers (some (← p.asExpr)) rhs ms
    else if key = "rhs".toList then
      match rhs with
      | some _ => .error (.duplicateField "rhs")
      | none => do factorMembers lhs (some (← p.asExpr)) ms
    else factorMembers lhs rhs ms

/-- The only item of a node of the kind that `node` describes. -/
def soleItem {α : Type} (node : String) (read : Part → Except Mismatch α) :
    List Part → Except Mismatch α
  | [] => .error (.wrongLength 0 ("struct variant Expr::" ++ node ++ " with 1 element"))
  | p :: ps => do
    let a ← read p
    if ps.isEmpty then return a else throw (.wrongLength (ps.length + 1) "1 element in sequence")

/-- The factors of a product, which are the two items of an array. -/
def factorItems : List Part → Except Mismatch (Expr × Expr)
  | [] => .error (.wrongLength 0 "struct variant Expr::Product with 2 elements")
  | [p] => do
    let _ ← p.asExpr
    throw (.wrongLength 1 "struct variant Expr::Product with 2 elements")
  | p :: q :: ps => do
    let lhs ← p.asExpr
    let rhs ← q.asExpr
    if ps.isEmpty then return (lhs, rhs)
    else throw (.wrongLength (ps.length + 2) "2 elements in sequence")

/-- The node of a kind with these parts. -/
def assemble : Op → Parts → Except Mismatch Expr
  | .terminal, .members ms => return leaf (← soleMember "kind" (Leaf.ofJson ·.value) none ms)
  | .terminal, .items ps => return leaf (← soleItem "Terminal" (Leaf.ofJson ·.value) ps)
  | .product, .members ms => do
    let (lhs, rhs) ← factorMembers none none ms
    return product lhs rhs
  | .product, .items ps => do
    let (lhs, rhs) ← factorItems ps
    return product lhs rhs
  | .sine, .members ms => return sine (← soleMember "arg" (·.asExpr) none ms)
  | .sine, .items ps => return sine (← soleItem "Sine" (·.asExpr) ps)
  | .cosine, .members ms => return cosine (← soleMember "arg" (·.asExpr) none ms)
  | .cosine, .items ps => return cosine (← soleItem "Cosine" (·.asExpr) ps)

/-- The kind of a node among its members, and the members that are left. -/
def splitOp : Option Op → List (List Char × Part) →
    Except Mismatch (Op × List (List Char × Part))
  | some op, [] => .ok (op, [])
  | none, [] => .error (.missingField "op")
  | seen, (key, p) :: ms =>
    if key = opKey then
      match seen with
      | some _ => .error (.duplicateField "op")
      | none => do splitOp (some (← Op.ofJson p.value)) ms
    else do
      let (op, rest) ← splitOp seen ms
      return (op, (key, p) :: rest)

/-- The expression of an object with these members. -/
def ofMembers (ms : List (List Char × Part)) : Except Mismatch Expr := do
  let (op, rest) ← splitOp none ms
  assemble op (.members rest)

/-- The expression of an array with these items. -/
def ofItems : List Part → Except Mismatch Expr
  | [] => .error (.missingField "op")
  | p :: ps => do assemble (← Op.ofJson p.value) (.items ps)

mutual

/-- The expression a value stands for. -/
def ofJson : Value → Except Mismatch Expr
  | .object ms => ofMembers (membersOfJson ms)
  | .array vs => ofItems (itemsOfJson vs)
  | .null => .error (.wrongType .null expected)
  | .boolean b => .error (.wrongType (.boolean b) expected)
  | .number n => .error (.wrongType (.number n) expected)
  | .string s => .error (.wrongType (.string s) expected)

/-- The members of an object as parts of a node. -/
def membersOfJson : List (List Char × Value) → List (List Char × Part)
  | [] => []
  | (key, v) :: ms => (key, ⟨v, ofJson v⟩) :: membersOfJson ms

/-- The items of an array as parts of a node. -/
def itemsOfJson : List Value → List Part
  | [] => []
  | v :: vs => ⟨v, ofJson v⟩ :: itemsOfJson vs

end

/-! ## Reading -/

/-- A node whose parts have not been looked at. -/
structure RawNode where
  op : Op
  parts : Parts

/-- Reads the values inside the outermost brackets of a document. -/
def readInner : Reader Value :=
  Json.readValue .scaled (Json.greatestDepth - 1)

/-- The kind of a node, if it has been read, and the members that have been read besides. -/
abbrev RawMembers := Option Op × Array (List Char × Value)

/-- Reads one member of an object. -/
def readMember (seen : RawMembers) (key : List Char) : Reader RawMembers := fun s => do
  if key = opKey then
    let (op, s) ← Json.readField "op" seen.1 (Json.readName Op.names) s
    return ((op, seen.2), s)
  else
    let (members, s) ← Json.addMember readInner seen.2 key s
    return ((seen.1, members), s)

/-- Reads the rest of an object: the kind of a node and its members. -/
def readMembers : Reader RawNode := fun s => do
  let (seen, rest) ← Json.foldMembers readMember (none, #[]) true s
  let op ← Json.required "op" seen.1 rest
  return (⟨op, .members (membersOfJson seen.2.toList)⟩, rest)

/-- Reads the rest of an array: the kind of a node and its items. -/
def readItems : Reader RawNode := fun s => do
  let (op, rest) ← Json.readItem? (Json.readName Op.names) true s
  match op with
  | none => throw (.mismatch (.missingField "op") (Json.pastArray rest))
  | some op =>
    let (items, rest) ← Json.foldItems (Json.addItem readInner) #[] false rest
    return (⟨op, .items (itemsOfJson items.toList)⟩, rest)

/-- Reads an expression: first all of its text, then its parts. -/
def reader : Reader Expr := fun s => do
  let (node, rest) ← Json.readRecord expected readItems readMembers s
  match assemble node.op node.parts with
  | .ok e => return (e, rest)
  | .error m => throw ⟨.mismatch m, none⟩

/-- The expression of a text. -/
def read (text : String) : Except Json.ReadError Expr :=
  Json.document reader text

end Expr

end Identicon
