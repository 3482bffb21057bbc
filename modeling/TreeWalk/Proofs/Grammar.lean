import TreeWalk.Proofs.Renaming
import TreeWalk.Syntax.Parser

set_option autoImplicit false

namespace TreeWalk

def Renaming.blank : Renaming :=
  ⟨fun _ => 0, fun _ => 0⟩

namespace Grammar

def operators : Parser.Level → List TokenKind
  | .disjunction => [.keyword .or]
  | .conjunction => [.keyword .and]
  | .equality => [.symbol .bangEqual, .symbol .equalEqual]
  | .comparison => [.symbol .greater, .symbol .greaterEqual, .symbol .less, .symbol .lessEqual]
  | .sum => [.symbol .minus, .symbol .plus]
  | .product => [.symbol .slash, .symbol .star]

def precedence : List Parser.Level :=
  [.disjunction, .conjunction, .equality, .comparison, .sum, .product]

def prefixes : List TokenKind :=
  [.symbol .bang, .symbol .minus]

def literal? : TokenKind → Option Literal
  | .number value => some (.number value)
  | .string contents => some (.string contents)
  | .keyword .true => some (.bool true)
  | .keyword .false => some (.bool false)
  | .keyword .none => some .none
  | _ => none

def unmarked : Mark :=
  ⟨0, 0⟩

def joined (level : Parser.Level) (left : Expr) : Token × Expr → Expr
  | (operator, right) =>
      match level with
      | .disjunction | .conjunction => .logical unmarked left operator right
      | .equality | .comparison | .sum | .product => .binary unmarked left operator right

inductive Suffix where
  | arguments (arguments : List Expr)
  | property (name : Name)

def suffixed : Expr → Suffix → Expr
  | e, .arguments arguments => .call unmarked e arguments 0
  | e, .property name => .get unmarked e name

-- `for (start; condition; action) body` is `{ start while (condition) { { body } action; } }`. A
-- missing condition is `true`, and of a missing start or action there is nothing, nor the braces.
def unrolled (start : Option Stmt) (condition action : Option Expr) (body : List Stmt) : Stmt :=
  let round := match action with
    | some e => [.block body, .expression e]
    | none => body
  let loop := .while (condition.getD (.literal unmarked (.bool true))) round
  match start with
  | some s => .block [s, loop]
  | none => loop

inductive Rule where
  | program | declarations | declaration | varDeclaration | initializer
  | functions | function | parameters | names | block
  | statement | conditional | alternative | start | expressionStatement | optional
  | expression | operation (levels : List Parser.Level) | operations (level : Parser.Level) (tighter : List Parser.Level)
  | unary | call | suffixes | arguments | expressions | primary

@[reducible]
def Rule.Result : Rule → Type
  | program | declarations | block => List Stmt
  | declaration | varDeclaration | statement | expressionStatement => Stmt
  | initializer | optional => Option Expr
  | functions => List Routine
  | function => Routine
  | parameters | names => List Name
  | conditional => Expr × List Stmt × Alternative
  | alternative => Alternative
  | start => Option Stmt
  | expression | operation _ | unary | call | primary => Expr
  | operations _ _ => List (Token × Expr)
  | suffixes => List Suffix
  | arguments | expressions => List Expr

abbrev Of (kind : TokenKind) : Type :=
  { token : Token // token.kind = kind }

abbrev SymbolToken (symbol : Symbol) : Type :=
  Of (.symbol symbol)

abbrev KeywordToken (keyword : Keyword) : Type :=
  Of (.keyword keyword)

abbrev NameToken : Type :=
  Of .identifier

def NameToken.name (token : NameToken) : Name :=
  ⟨token.1.lexeme, 0⟩

inductive Derives : (rule : Rule) → List Token → rule.Result → Prop where
  | program {ts body} (all : Derives .declarations ts body) : Derives .program ts body
  | declarations_none : Derives .declarations [] []
  | declarations_more {ts s more rest} (first : Derives .declaration ts s) (others : Derives .declarations more rest) :
      Derives .declarations (ts ++ more) (s :: rest)

  | declaration_var {ts s} (var : Derives .varDeclaration ts s) : Derives .declaration ts s
  | declaration_function {ts routine} (func : KeywordToken .func) (function : Derives .function ts routine) :
      Derives .declaration (func.1 :: ts) (.function routine)
  | declaration_class {ts methods} (keyword : KeywordToken .class) (name : NameToken) (opened : SymbolToken .leftBrace)
      (closed : SymbolToken .rightBrace) (functions : Derives .functions ts methods) :
      Derives .declaration (keyword.1 :: name.1 :: opened.1 :: (ts ++ [closed.1])) (.class name.name methods)
  | declaration_statement {ts s} (statement : Derives .statement ts s) : Derives .declaration ts s

  | var_declaration {ts value} (keyword : KeywordToken .var) (name : NameToken) (ended : SymbolToken .semicolon)
      (initializer : Derives .initializer ts value) :
      Derives .varDeclaration (keyword.1 :: name.1 :: (ts ++ [ended.1])) (.var name.name value)
  | initializer_none : Derives .initializer [] none
  | initializer_some {ts e} (equal : SymbolToken .equal) (value : Derives .expression ts e) :
      Derives .initializer (equal.1 :: ts) (some e)

  | functions_none : Derives .functions [] []
  | functions_more {ts routine more rest} (first : Derives .function ts routine) (others : Derives .functions more rest) :
      Derives .functions (ts ++ more) (routine :: rest)
  | function {ps parameters bs body} (name : NameToken) (opened : SymbolToken .leftParen) (closed : SymbolToken .rightParen)
      (names : Derives .parameters ps parameters) (block : Derives .block bs body) :
      Derives .function (name.1 :: opened.1 :: (ps ++ closed.1 :: bs)) ⟨name.name, parameters, body⟩
  | parameters_none : Derives .parameters [] []
  | parameters_some {ts list} (names : Derives .names ts list) : Derives .parameters ts list
  | names_last (name : NameToken) : Derives .names [name.1] [name.name]
  | names_more {ts rest} (name : NameToken) (comma : SymbolToken .comma) (others : Derives .names ts rest) :
      Derives .names (name.1 :: comma.1 :: ts) (name.name :: rest)
  | block {ts body} (opened : SymbolToken .leftBrace) (closed : SymbolToken .rightBrace) (all : Derives .declarations ts body) :
      Derives .block (opened.1 :: (ts ++ [closed.1])) body

  | statement_if {ts condition body alternative} (keyword : KeywordToken .if)
      (rest : Derives .conditional ts (condition, body, alternative)) :
      Derives .statement (keyword.1 :: ts) (.branch condition body alternative)
  | statement_while {es condition bs body} (keyword : KeywordToken .while) (opened : SymbolToken .leftParen)
      (closed : SymbolToken .rightParen) (test : Derives .expression es condition) (block : Derives .block bs body) :
      Derives .statement (keyword.1 :: opened.1 :: (es ++ closed.1 :: bs)) (.while condition body)
  | statement_for {ss start cs condition ls action bs body} (keyword : KeywordToken .for) (opened : SymbolToken .leftParen)
      (ended : SymbolToken .semicolon) (closed : SymbolToken .rightParen) (first : Derives .start ss start)
      (test : Derives .optional cs condition) (last : Derives .optional ls action) (block : Derives .block bs body) :
      Derives .statement (keyword.1 :: opened.1 :: (ss ++ (cs ++ ended.1 :: (ls ++ closed.1 :: bs))))
        (unrolled start condition action body)
  | statement_return {ts value} (keyword : KeywordToken .return) (ended : SymbolToken .semicolon)
      (result : Derives .optional ts value) :
      Derives .statement (keyword.1 :: (ts ++ [ended.1])) (.return 0 value)
  | statement_block {ts body} (block : Derives .block ts body) : Derives .statement ts (.block body)
  | statement_expression {ts s} (expression : Derives .expressionStatement ts s) : Derives .statement ts s
  | conditional {es condition bs body ls alternative} (opened : SymbolToken .leftParen) (closed : SymbolToken .rightParen)
      (test : Derives .expression es condition) (block : Derives .block bs body)
      (others : Derives .alternative ls alternative) :
      Derives .conditional (opened.1 :: (es ++ closed.1 :: (bs ++ ls))) (condition, body, alternative)
  | alternative_none : Derives .alternative [] .none
  | alternative_if {ts condition body alternative} (other : KeywordToken .else) (keyword : KeywordToken .if)
      (rest : Derives .conditional ts (condition, body, alternative)) :
      Derives .alternative (other.1 :: keyword.1 :: ts) (.elseIf condition body alternative)
  | alternative_block {ts body} (other : KeywordToken .else) (block : Derives .block ts body) :
      Derives .alternative (other.1 :: ts) (.block body)
  | start_none (ended : SymbolToken .semicolon) : Derives .start [ended.1] none
  | start_var {ts s} (var : Derives .varDeclaration ts s) : Derives .start ts (some s)
  | start_expression {ts s} (expression : Derives .expressionStatement ts s) : Derives .start ts (some s)
  | expression_statement {ts e} (ended : SymbolToken .semicolon) (expression : Derives .expression ts e) :
      Derives .expressionStatement (ts ++ [ended.1]) (.expression e)
  | optional_none : Derives .optional [] none
  | optional_some {ts e} (expression : Derives .expression ts e) : Derives .optional ts (some e)

  | assign_name {ts value} (name : NameToken) (equal : SymbolToken .equal) (right : Derives .expression ts value) :
      Derives .expression (name.1 :: equal.1 :: ts) (.assign unmarked name.name value)
  | assign_property {os object ts value} (dot : SymbolToken .dot) (name : NameToken) (equal : SymbolToken .equal)
      (owner : Derives .call os object) (right : Derives .expression ts value) :
      Derives .expression (os ++ dot.1 :: name.1 :: equal.1 :: ts) (.set unmarked object name.name value)
  | unassigned {ts e} (operation : Derives (.operation precedence) ts e) : Derives .expression ts e
  | operand {ts e} (unary : Derives .unary ts e) : Derives (.operation []) ts e
  | operation {level tighter ts left more others} (first : Derives (.operation tighter) ts left)
      (rest : Derives (.operations level tighter) more others) :
      Derives (.operation (level :: tighter)) (ts ++ more) (others.foldl (joined level) left)
  | operations_none {level tighter} : Derives (.operations level tighter) [] []
  | operations_more {level tighter ts right more others} (operator : Token) (one : operator.kind ∈ operators level)
      (first : Derives (.operation tighter) ts right) (rest : Derives (.operations level tighter) more others) :
      Derives (.operations level tighter) (operator :: (ts ++ more)) ((operator.rename .blank, right) :: others)
  | unary_operator {ts right} (operator : Token) (one : operator.kind ∈ prefixes) (unary : Derives .unary ts right) :
      Derives .unary (operator :: ts) (.unary unmarked (operator.rename .blank) right)
  | unary_call {ts e} (call : Derives .call ts e) : Derives .unary ts e
  | call {ts e more list} (first : Derives .primary ts e) (rest : Derives .suffixes more list) :
      Derives .call (ts ++ more) (list.foldl suffixed e)
  | suffixes_none : Derives .suffixes [] []
  | suffixes_arguments {ts list more rest} (opened : SymbolToken .leftParen) (closed : SymbolToken .rightParen)
      (first : Derives .arguments ts list) (others : Derives .suffixes more rest) :
      Derives .suffixes (opened.1 :: (ts ++ closed.1 :: more)) (.arguments list :: rest)
  | suffixes_property {more rest} (dot : SymbolToken .dot) (name : NameToken) (others : Derives .suffixes more rest) :
      Derives .suffixes (dot.1 :: name.1 :: more) (.property name.name :: rest)
  | arguments_none : Derives .arguments [] []
  | arguments_some {ts list} (expressions : Derives .expressions ts list) : Derives .arguments ts list
  | expressions_last {ts e} (expression : Derives .expression ts e) : Derives .expressions ts [e]
  | expressions_more {ts e more rest} (comma : SymbolToken .comma) (first : Derives .expression ts e)
      (others : Derives .expressions more rest) :
      Derives .expressions (ts ++ comma.1 :: more) (e :: rest)
  | primary_literal {value} (token : Token) (one : literal? token.kind = some value) :
      Derives .primary [token] (.literal unmarked value)
  | primary_this (token : KeywordToken .this) : Derives .primary [token.1] (.this unmarked ⟨token.1.lexeme, 0⟩)
  | primary_name (name : NameToken) : Derives .primary [name.1] (.ident unmarked name.name)
  | primary_grouping {ts inner} (opened : SymbolToken .leftParen) (closed : SymbolToken .rightParen)
      (expression : Derives .expression ts inner) :
      Derives .primary (opened.1 :: (ts ++ [closed.1])) (.grouping unmarked inner)

end Grammar

end TreeWalk
