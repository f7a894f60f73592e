import Boli.Program

/-!
Programs as plain data.

Each node is an object whose first field tells its kind. The further conditions of a branch become
an array, and a missing last branch becomes null, which an empty one is not. A foreign node is the
data that came with it.
-/

set_option autoImplicit false

namespace Boli

/-- A node's object: its kind and its fields. -/
def nodeData (kind : String) (fields : List (String × Json)) : Json :=
  .object (("kind", .text kind) :: fields)

/-- An expression as plain data. -/
def Expression.toJson : Expression → Json
  | .number n => nodeData "NumberLiteral" [("value", .int n)]
  | .text s => nodeData "StringLiteral" [("value", .text s)]
  | .identifier name => nodeData "Identifier" [("name", .text name)]
  | .binary operator left right =>
    nodeData "BinaryExpression"
      [("operator", .text operator), ("left", left.toJson), ("right", right.toJson)]
  | .foreign _ data => data

/-- A condition as plain data. -/
def Condition.toJson : Condition → Json
  | .compare left operator right =>
    nodeData "Condition"
      [("operator", .text operator), ("left", left.toJson), ("right", right.toJson)]
  | .foreign _ data => data

/-- A further condition of a branch as plain data. -/
def clauseData (condition : Condition) (body : List Json) : Json :=
  nodeData "ElseIfClause" [("condition", condition.toJson), ("body", .array body)]

mutual

/-- A statement as plain data. -/
def Statement.toJson : Statement → Json
  | .declare name initializer =>
    nodeData "VarDeclaration" [("name", .text name), ("initializer", initializer.toJson)]
  | .assign name value => nodeData "Assignment" [("name", .text name), ("value", value.toJson)]
  | .evaluate expression => nodeData "ExpressionStatement" [("expression", expression.toJson)]
  | .print value => nodeData "Print" [("value", value.toJson)]
  | .branch condition body rest =>
    nodeData "If"
      [("condition", condition.toJson), ("then_body", .array (statementsToJson body)),
        ("else_if_clauses", .array rest.clausesToJson), ("else_body", rest.lastToJson)]
  | .loop condition body =>
    nodeData "While" [("condition", condition.toJson), ("body", .array (statementsToJson body))]
  | .foreign _ data => data

/-- The further conditions of a branch as plain data. -/
def Otherwise.clausesToJson : Otherwise → List Json
  | .nothing => []
  | .last _ => []
  | .elseIf condition body rest =>
    clauseData condition (statementsToJson body) :: rest.clausesToJson

/-- The last branch as plain data, null if there is none. -/
def Otherwise.lastToJson : Otherwise → Json
  | .nothing => .null
  | .last body => .array (statementsToJson body)
  | .elseIf _ _ rest => rest.lastToJson

/-- Statements as plain data, one by one. -/
def statementsToJson : List Statement → List Json
  | [] => []
  | s :: ss => s.toJson :: statementsToJson ss

end

/-- A program as plain data. -/
def Program.toJson : Program → Json
  | .statements body => nodeData "Program" [("statements", .array (statementsToJson body))]
  | .foreign _ data => data

/-- A node as plain data. -/
def Node.toJson : Node → Json
  | .expression e => e.toJson
  | .condition c => c.toJson
  | .statement s => s.toJson
  | .clause c body => clauseData c (statementsToJson body)
  | .program p => p.toJson

end Boli
