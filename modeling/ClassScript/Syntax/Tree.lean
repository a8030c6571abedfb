import ClassScript.Token

/-!
The syntax tree. Every node carries a mark: the token it is named after and the span it covers.
Classes and interfaces share one shape, a `Declaration` whose heading tells them apart.
-/

namespace ClassScript

/-- Where a node comes from: the token it is named after and the source text it covers. -/
structure Mark where
  head : Token
  span : Span
  deriving DecidableEq, Inhabited

/-- The mark of a node that is one token. -/
def Mark.ofToken (t : Token) : Mark := ⟨t, t.span⟩

/-- A word that names something. -/
structure Name where
  text : String
  token : Token
  deriving DecidableEq, Inhabited

namespace Name

/-- The name that a token spells. -/
def ofToken (t : Token) : Name := ⟨t.word, t⟩

/-- The source text of a name. -/
def span (n : Name) : Span := n.token.span

end Name

/-- A type as written. -/
inductive TypeExpr where
  | simple (mark : Mark) (name : String) (nullable : Bool)
  | generic (mark : Mark) (name : String) (args : List TypeExpr) (nullable : Bool)
  | function (mark : Mark) (params : List TypeExpr) (result : TypeExpr) (nullable : Bool)
  deriving Inhabited

namespace TypeExpr

/-- The mark of a type. -/
def mark : TypeExpr → Mark
  | simple m .. | generic m .. | function m .. => m

/-- The source text of a type. -/
def span (t : TypeExpr) : Span := t.mark.span

/-- Whether a type is written with a question mark at its end. -/
def isNullable : TypeExpr → Bool
  | simple _ _ n | generic _ _ _ n | function _ _ _ n => n

/-- The name a type starts with; function types have none. -/
def name? : TypeExpr → Option String
  | simple _ name _ | generic _ name _ _ => some name
  | function .. => none

/-- The same type with a question mark, covering `span`. -/
def asNullable (span : Span) : TypeExpr → TypeExpr
  | simple m name _ => simple { m with span } name true
  | generic m name args _ => generic { m with span } name args true
  | function m params result _ => function { m with span } params result true

end TypeExpr

/-- Operators between two operands. -/
inductive BinaryOp where
  | add | sub | mul | div | rem | equal | notEqual | less | greater | lessEq | greaterEq | and | or
  deriving DecidableEq, Inhabited, Repr

namespace BinaryOp

/-- The symbol of an operator. -/
def symbol : BinaryOp → Symbol
  | add => .plus
  | sub => .minus
  | mul => .star
  | div => .slash
  | rem => .percent
  | equal => .equal
  | notEqual => .notEqual
  | less => .less
  | greater => .greater
  | lessEq => .lessEq
  | greaterEq => .greaterEq
  | and => .and
  | or => .or

/-- The operator that a symbol stands for between operands. -/
def ofSymbol? : Symbol → Option BinaryOp
  | .plus => some add
  | .minus => some sub
  | .star => some mul
  | .slash => some div
  | .percent => some rem
  | .equal => some equal
  | .notEqual => some notEqual
  | .less => some less
  | .greater => some greater
  | .lessEq => some lessEq
  | .greaterEq => some greaterEq
  | .and => some and
  | .or => some or
  | _ => none

/-- How an operator is written. -/
def spelling (op : BinaryOp) : String := op.symbol.spelling

theorem ofSymbol?_symbol (op : BinaryOp) : ofSymbol? op.symbol = some op := by cases op <;> rfl

end BinaryOp

/-- Operators in front of one operand. -/
inductive UnaryOp where
  | negate | not
  deriving DecidableEq, Inhabited, Repr

/-- How an operator is written. -/
def UnaryOp.spelling : UnaryOp → String
  | .negate => "-"
  | .not => "!"

/-- A marker in front of a declaration or member. -/
structure Annotation where
  token : Token
  name : String
  deriving DecidableEq, Inhabited

/-- The modifiers of a member. -/
structure Modifiers where
  isPublic : Bool := false
  isPrivate : Bool := false
  isStatic : Bool := false
  isReadonly : Bool := false
  isOpen : Bool := false
  deriving DecidableEq, Inhabited, Repr

namespace Modifiers

/-- The words of the modifiers, in their fixed order. -/
def words (m : Modifiers) : List String :=
  [(m.isPublic, "public"), (m.isPrivate, "private"), (m.isStatic, "static"),
    (m.isReadonly, "readonly"), (m.isOpen, "open")].filterMap fun (on, word) =>
      if on then some word else none

/-- The modifiers in one line. -/
def text (m : Modifiers) : String := " ".intercalate m.words

end Modifiers

/-- A quoted text in the source. -/
structure Quotation where
  token : Token
  value : Text
  deriving DecidableEq, Inhabited

/-- What a declaration says ahead of its members. -/
inductive Heading where
  | ofClass (isOpen : Bool) (parent : Option TypeExpr) (interfaces : List TypeExpr)
  | ofInterface (parents : List TypeExpr)
  deriving Inhabited

mutual

/-- Expressions. -/
inductive Expr where
  | name (id : Name)
  | number (mark : Mark) (digits : String)
  | string (q : Quotation)
  | boolean (mark : Mark) (value : Bool)
  | null (mark : Mark)
  | self (mark : Mark)
  | parent (mark : Mark)
  | binary (mark : Mark) (op : BinaryOp) (left right : Expr)
  | unary (mark : Mark) (op : UnaryOp) (operand : Expr)
  | assign (mark : Mark) (target value : Expr)
  | member (mark : Mark) (object : Expr) (property : Name)
  | index (mark : Mark) (object index : Expr)
  | call (mark : Mark) (callee : Expr) (args : List Expr)
  | create (mark : Mark) (type : TypeExpr) (args : List Expr)
  | array (mark : Mark) (elements : List Expr)
  | lambda (mark : Mark) (params : List Param) (result : Option TypeExpr) (body : LambdaBody)
  | markup (element : Element)

/-- A parameter of a method or lambda. -/
structure Param where
  mark : Mark
  name : Name
  type : Option TypeExpr
  fallback : Option Expr

/-- The body of a lambda. -/
inductive LambdaBody where
  | block (b : Block)
  | value (e : Expr)

/-- Statements between braces. -/
structure Block where
  mark : Mark
  statements : List Stmt

/-- A case of a selection. -/
structure Arm where
  mark : Mark
  value : Expr
  body : Block

/-- A markup element. -/
structure Element where
  mark : Mark
  tag : String
  attributes : List Attribute
  children : List Child
  selfClosing : Bool

/-- An attribute of an element. -/
structure Attribute where
  mark : Mark
  name : String
  value : Expr

/-- What stands between the tags of an element. -/
inductive Child where
  | element (e : Element)
  | text (mark : Mark) (text : Text)
  | hole (mark : Mark) (e : Expr)

/-- Statements. -/
inductive Stmt where
  | uses (mark : Mark) (names : List Name) (path : Quotation)
  | binds (mark : Mark) (name : Name) (type : Option TypeExpr) (value : Option Expr)
  | block (b : Block)
  | branch (mark : Mark) (condition : Expr) (yes : Block) (no : Option Stmt)
  | select (mark : Mark) (subject : Expr) (arms : List Arm) (fallback : Option Block)
  | each (mark : Mark) (item : Name) (iterable : Expr) (body : Block)
  | returns (mark : Mark) (value : Option Expr)
  | does (mark : Mark) (e : Expr)
  | declares (d : Declaration)

/-- A field of a class or interface. -/
structure Field where
  mark : Mark
  annotations : List Annotation
  modifiers : Modifiers
  name : Name
  type : Option TypeExpr
  init : Option Expr

/-- A method of a class or interface, or a constructor. -/
structure Method where
  mark : Mark
  annotations : List Annotation
  modifiers : Modifiers
  name : Name
  isConstructor : Bool
  typeParams : List Name
  params : List Param
  result : Option TypeExpr
  body : Option Block

/-- A class or an interface. -/
structure Declaration where
  mark : Mark
  annotations : List Annotation
  heading : Heading
  name : Name
  typeParams : List Name
  fields : List Field
  methods : List Method

end

instance : Inhabited Expr := ⟨.null default⟩
instance : Inhabited Param := ⟨⟨default, default, none, none⟩⟩
instance : Inhabited Block := ⟨⟨default, []⟩⟩
instance : Inhabited Element := ⟨⟨default, "", [], [], true⟩⟩
instance : Inhabited Stmt := ⟨.block default⟩
instance : Inhabited Declaration := ⟨⟨default, [], .ofInterface [], default, [], [], []⟩⟩

namespace Expr

/-- The mark of an expression. -/
def mark : Expr → Mark
  | name id => Mark.ofToken id.token
  | string q => Mark.ofToken q.token
  | markup e => e.mark
  | number m .. | boolean m .. | null m | self m | parent m | binary m .. | unary m .. | assign m ..
  | member m .. | index m .. | call m .. | create m .. | array m .. | lambda m .. => m

/-- The source text of an expression. -/
def span (e : Expr) : Span := e.mark.span

/-- Whether an expression is the word for the superclass. -/
def isParent : Expr → Bool
  | parent _ => true
  | _ => false

/-- Whether an expression can stand left of an assignment. -/
def isTarget : Expr → Bool
  | name _ | member .. | index .. => true
  | _ => false

end Expr

namespace Stmt

/-- The mark of a statement. -/
def mark : Stmt → Mark
  | block b => b.mark
  | declares d => d.mark
  | uses m .. | binds m .. | branch m .. | select m .. | each m .. | returns m .. | does m _ => m

/-- The source text of a statement. -/
def span (s : Stmt) : Span := s.mark.span

/-- Whether a statement is a class or interface. -/
def isDeclaration : Stmt → Bool
  | declares _ => true
  | _ => false

/-- Whether a statement is an import. -/
def isImport : Stmt → Bool
  | uses .. => true
  | _ => false

end Stmt

/-- The number of parameters before the first that has a default value. -/
def Param.requiredCount (params : List Param) : Nat :=
  (params.takeWhile fun p => p.fallback.isNone).length

namespace Annotation

/-- Whether one of the annotations has the name. -/
def has (annotations : List Annotation) (name : String) : Bool :=
  annotations.any fun a => a.name == name

/-- The annotation of declarations that the host implements. -/
def native : String := "native"

end Annotation

namespace Declaration

/-- Whether a declaration is an interface. -/
def isInterface (d : Declaration) : Bool :=
  match d.heading with
  | .ofClass .. => false
  | .ofInterface _ => true

/-- Whether a declaration is backed by the host. -/
def isNative (d : Declaration) : Bool := Annotation.has d.annotations Annotation.native

/-- The source text of a declaration. -/
def span (d : Declaration) : Span := d.mark.span

end Declaration

/-- A parsed file. -/
structure Program where
  file : String
  statements : List Stmt
  span : Span
  deriving Inhabited

/-! ## Linked programs -/

/-- A top-level statement and the file it stands in. -/
structure Placed where
  file : String
  statement : Stmt
  deriving Inhabited

/-- The statements of several files, in the order in which they take effect. -/
structure LinkedProgram where
  file : String
  statements : List Placed
  span : Span
  deriving Inhabited

namespace LinkedProgram

/-- A program of one file. -/
def ofProgram (p : Program) : LinkedProgram :=
  ⟨p.file, p.statements.map (⟨p.file, ·⟩), p.span⟩

/-- The declarations of a program, each with its file. -/
def declarations (p : LinkedProgram) : List (String × Declaration) :=
  p.statements.filterMap fun s =>
    match s.statement with
    | .declares d => some (s.file, d)
    | _ => none

/-- The statements that take effect when the program runs, each with its file. -/
def actions (p : LinkedProgram) : List Placed :=
  p.statements.filter fun s => !s.statement.isDeclaration && !s.statement.isImport

end LinkedProgram

end ClassScript
