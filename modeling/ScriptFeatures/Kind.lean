/-!
The kinds of nodes and their table. A kind is a structural wrapper, which has no
features of its own, or belongs to a category whose label is the context of
the features of its nodes. A kind outside the table has no classification.
-/

namespace ScriptFeatures

inductive Category
  | array
  | assign
  | await
  | call
  | catching
  | classDefinition
  | comment
  | debug
  | expression
  | expressionStatement
  | forLoop
  | function
  | conditional
  | importing
  | label
  /-- The context of a literal is its type and not this category. -/
  | literal
  | new
  | object
  | property
  | return
  | super
  | switch
  | switchCase
  | this
  | throw
  | try
  | variable
  | whileLoop
  | with
  | yield
  deriving DecidableEq, Repr

def Category.name : Category → String
  | .array => "Array"
  | .assign => "Assign"
  | .await => "Await"
  | .call => "Call"
  | .catching => "Catch"
  | .classDefinition => "Class"
  | .comment => "Comment"
  | .debug => "Debug"
  | .expression => "Expression"
  | .expressionStatement => "ExpressionStatement"
  | .forLoop => "For"
  | .function => "Function"
  | .conditional => "If"
  | .importing => "Import"
  | .label => "Label"
  | .literal => "Literal"
  | .new => "New"
  | .object => "Object"
  | .property => "Property"
  | .return => "Return"
  | .super => "Super"
  | .switch => "Switch"
  | .switchCase => "SwitchCase"
  | .this => "This"
  | .throw => "Throw"
  | .try => "Try"
  | .variable => "Variable"
  | .whileLoop => "While"
  | .with => "With"
  | .yield => "Yield"

inductive Classification
  | wrapper
  | informative (category : Category)
  deriving DecidableEq, Repr

def Classification.isInformative : Classification → Bool
  | .wrapper => false
  | .informative _ => true

def kindTable : List (String × Classification) :=
  [ ("ArrayExpression", .informative .array),
    ("ArrayPattern", .informative .array),
    ("ArrowFunctionExpression", .informative .expression),
    ("AssignmentExpression", .informative .assign),
    ("AssignmentPattern", .informative .assign),
    ("AwaitExpression", .informative .await),
    ("BinaryExpression", .informative .expression),
    ("Block", .informative .comment),
    ("BlockStatement", .wrapper),
    ("BreakStatement", .wrapper),
    ("CallExpression", .informative .call),
    ("CatchClause", .informative .catching),
    ("ClassBody", .wrapper),
    ("ClassDeclaration", .informative .classDefinition),
    ("ClassExpression", .informative .expression),
    ("ConditionalExpression", .informative .conditional),
    ("ContinueStatement", .wrapper),
    ("DebuggerStatement", .informative .debug),
    ("DoWhileStatement", .informative .whileLoop),
    ("EmptyStatement", .wrapper),
    ("ExportAllDeclaration", .wrapper),
    ("ExportDefaultDeclaration", .wrapper),
    ("ExportNamedDeclaration", .wrapper),
    ("ExportSpecifier", .wrapper),
    ("ExpressionStatement", .informative .expressionStatement),
    ("ForInStatement", .informative .forLoop),
    ("ForOfStatement", .informative .forLoop),
    ("ForStatement", .informative .forLoop),
    ("FunctionDeclaration", .informative .function),
    ("FunctionExpression", .informative .function),
    ("Identifier", .wrapper),
    ("IfStatement", .informative .conditional),
    ("Import", .informative .importing),
    ("ImportDeclaration", .informative .importing),
    ("ImportDefaultSpecifier", .wrapper),
    ("ImportNamespaceSpecifier", .wrapper),
    ("ImportSpecifier", .wrapper),
    ("LabeledStatement", .informative .label),
    ("Line", .informative .comment),
    ("Literal", .informative .literal),
    ("LogicalExpression", .informative .expression),
    ("MemberExpression", .informative .object),
    ("MetaProperty", .wrapper),
    ("MethodDefinition", .wrapper),
    ("NewExpression", .informative .new),
    ("ObjectExpression", .informative .object),
    ("ObjectPattern", .informative .object),
    ("Program", .wrapper),
    ("Property", .informative .property),
    ("RestElement", .wrapper),
    ("ReturnStatement", .informative .return),
    ("SequenceExpression", .informative .expression),
    ("SpreadElement", .wrapper),
    ("Super", .informative .super),
    ("SwitchCase", .informative .switchCase),
    ("SwitchStatement", .informative .switch),
    ("TaggedTemplateExpression", .informative .expression),
    ("TemplateElement", .wrapper),
    ("TemplateLiteral", .wrapper),
    ("ThisExpression", .informative .this),
    ("ThrowStatement", .informative .throw),
    ("TryStatement", .informative .try),
    ("UnaryExpression", .informative .expression),
    ("UpdateExpression", .informative .expression),
    ("VariableDeclaration", .informative .variable),
    ("VariableDeclarator", .wrapper),
    ("WhileStatement", .informative .whileLoop),
    ("WithStatement", .informative .with),
    ("YieldExpression", .informative .yield) ]

/-- The kinds that a parser produces. -/
def knownKinds : List String :=
  [ "ArrayExpression", "ArrayPattern", "ArrowFunctionExpression", "AssignmentExpression",
    "AssignmentPattern", "AwaitExpression", "BinaryExpression", "Block", "BlockStatement",
    "BreakStatement", "CallExpression", "CatchClause", "ClassBody", "ClassDeclaration",
    "ClassExpression", "ConditionalExpression", "ContinueStatement", "DebuggerStatement",
    "DoWhileStatement", "EmptyStatement", "ExportAllDeclaration", "ExportDefaultDeclaration",
    "ExportNamedDeclaration", "ExportSpecifier", "ExpressionStatement", "ForInStatement",
    "ForOfStatement", "ForStatement", "FunctionDeclaration", "FunctionExpression", "Identifier",
    "IfStatement", "Import", "ImportDeclaration", "ImportDefaultSpecifier",
    "ImportNamespaceSpecifier", "ImportSpecifier", "LabeledStatement", "Line", "Literal",
    "LogicalExpression", "MemberExpression", "MetaProperty", "MethodDefinition", "NewExpression",
    "ObjectExpression", "ObjectPattern", "Program", "Property", "RestElement", "ReturnStatement",
    "SequenceExpression", "SpreadElement", "Super", "SwitchCase", "SwitchStatement",
    "TaggedTemplateExpression", "TemplateElement", "TemplateLiteral", "ThisExpression",
    "ThrowStatement", "TryStatement", "UnaryExpression", "UpdateExpression",
    "VariableDeclaration", "VariableDeclarator", "WhileStatement", "WithStatement",
    "YieldExpression" ]

def classify? (kind : String) : Option Classification := kindTable.lookup kind

end ScriptFeatures
