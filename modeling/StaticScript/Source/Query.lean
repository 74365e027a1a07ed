import StaticScript.Source.Tree

/-!
# Questions about a tree

`Expr.nodes` and `Stmt.nested` list a node and all that is below it; the questions that are asked
of trees are answered by looking through these lists.
-/

namespace StaticScript.Source

namespace Expr

/-- The expression is a literal. -/
def isLiteral : Expr → Bool
  | .int .. | .float .. | .bool .. | .str .. | .none .. => true
  | _ => false

/-- The name, if the expression is just a name. -/
def asName : Expr → Option String
  | .name _ id => some id
  | _ => Option.none

/-- The expressions right below this one, in the order of evaluation. -/
def children : Expr → List Expr
  | .int .. | .float .. | .bool .. | .str .. | .none .. | .name .. | .other .. => []
  | .binary _ _ left right => [left, right]
  | .boolOp _ _ values => values
  | .unary _ _ operand => [operand]
  | .compare _ left _ comparators => left :: comparators
  | .call _ function arguments keywords => function :: arguments ++ keywords.map Prod.snd
  | .attr _ object _ => [object]
  | .list _ items | .tuple _ items | .set _ items => items
  | .dict _ keys values => keys ++ values
  | .named _ target value => [target, value]

mutual

/-- The expression and all expressions below it, each before those below it. -/
def nodes (e : Expr) : List Expr :=
  e :: match e with
    | .int .. | .float .. | .bool .. | .str .. | .none .. | .name .. | .other .. => []
    | .binary _ _ left right => left.nodes ++ right.nodes
    | .boolOp _ _ values => nodesList values
    | .unary _ _ operand => operand.nodes
    | .compare _ left _ comparators => left.nodes ++ nodesList comparators
    | .call _ function arguments keywords =>
      function.nodes ++ nodesList arguments ++ nodesKeywords keywords
    | .attr _ object _ => object.nodes
    | .list _ items | .tuple _ items | .set _ items => nodesList items
    | .dict _ keys values => nodesList keys ++ nodesList values
    | .named _ target value => target.nodes ++ value.nodes

/-- The nodes of expressions. -/
def nodesList : List Expr → List Expr
  | [] => []
  | e :: es => e.nodes ++ nodesList es

/-- The nodes of the values of keywords. -/
def nodesKeywords : List (String × Expr) → List Expr
  | [] => []
  | (_, value) :: ks => value.nodes ++ nodesKeywords ks

end

/-- The expression is a call. -/
def isCall : Expr → Bool
  | .call .. => true
  | _ => false

/-- The expression assigns to a name. -/
def isNamed : Expr → Bool
  | .named .. => true
  | _ => false

/-- There is a call in the expression. -/
def containsCall (e : Expr) : Bool := e.nodes.any isCall

/-- There is an assignment in the expression. -/
def containsNamed (e : Expr) : Bool := e.nodes.any isNamed

/-- The name occurs in the expression. -/
def mentions (name : String) (e : Expr) : Bool := e.nodes.any fun n => n.asName == some name

/-- The expression is an assignment to the name. -/
def names (name : String) : Expr → Bool
  | .named _ target _ => target.asName == some name
  | _ => false

end Expr

namespace Stmt

/-- The expressions that the statement itself holds, without those of nested statements. -/
def expressions : Stmt → List Expr
  | .expr _ value => [value]
  | .assign _ targets value => targets ++ [value]
  | .augAssign _ target _ value => [target, value]
  | .ifElse _ condition _ _ | .whileLoop _ condition _ _ => [condition]
  | .forLoop _ target iter _ _ => [target, iter]
  | .functionDef _ _ parameters _ decorators _ =>
    decorators ++ parameters.filterMap Parameter.default
  | .ret _ value => value.toList
  | _ => []

/-- The blocks of the statement. -/
def blocks : Stmt → List (List Stmt)
  | .ifElse _ _ body orelse | .whileLoop _ _ body orelse | .forLoop _ _ _ body orelse =>
    [body, orelse]
  | .functionDef _ _ _ _ _ body => [body]
  | _ => []

mutual

/-- The statement and all statements nested in it. -/
def nested (s : Stmt) : List Stmt :=
  s :: match s with
    | .ifElse _ _ body orelse | .whileLoop _ _ body orelse | .forLoop _ _ _ body orelse =>
      nestedBlock body ++ nestedBlock orelse
    | .functionDef _ _ _ _ _ body => nestedBlock body
    | _ => []

/-- The statements of a block and all statements nested in them. -/
def nestedBlock : List Stmt → List Stmt
  | [] => []
  | s :: ss => s.nested ++ nestedBlock ss

end

/-- The statement itself may store into the name: one of its targets mentions it, or one of its
expressions assigns to it. -/
def stores (name : String) (s : Stmt) : Bool :=
  (match s with
    | .assign _ targets _ => targets.any (·.mentions name)
    | .augAssign _ target _ _ | .forLoop _ target _ _ _ => target.mentions name
    | _ => false) ||
  s.expressions.any fun e => e.nodes.any (·.names name)

/-- The statement, or one nested in it, may store into the name. -/
def assignsTo (name : String) (s : Stmt) : Bool := s.nested.any (·.stores name)

end Stmt

end StaticScript.Source
