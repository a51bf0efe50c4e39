import Scriptlet.Tree.Basic

/-!
# The grammar of the language

Which token lists are programs, and which tree each of them has.  The rules are
the productions of the language, read as a relation between a list of tokens and
a tree; nothing in them says how a list is read.

## Main definitions

* `Grammar.Layer` — the layers of infix operators above operands
* `Grammar.Operand`, `Grammar.Expression` — expressions
* `Grammar.Statement` — statements
* `Grammar.Program` — programs

## Design decisions

* A production is a constructor, and the tokens of a phrase are the
  concatenation of those of its parts.
* Every infix operator has its own layer and takes an operand of the same layer
  on its left but of the next tighter one on its right.  That is all there is to
  precedence and to grouping to the left.
* Repetition and alternatives that occur at several places (`Many`, `Separated`,
  `Listed`, `BlockOf`, `ChainOf`) take the phrase that is repeated as an
  argument.
* The sites of a tree are those of its tokens, so the relation says more than
  the shape of a tree: it also fixes which token gives a node its site.
-/

namespace Scriptlet

namespace Grammar

variable {α : Type}

/-! ## Lists of phrases -/

/-- **Repetition**: any number of phrases, one right behind the other. -/
inductive Many (Item : List Token → α → Prop) : List Token → List α → Prop where
  /-- No phrase. -/
  | nil : Many Item [] []
  /-- One phrase and more of them. -/
  | cons {ts us : List Token} {x : α} {xs : List α} :
      Item ts x → Many Item us xs → Many Item (ts ++ us) (x :: xs)

/-- **Phrases with commas between them**, at least one. -/
inductive Separated (Item : List Token → α → Prop) : List Token → List α → Prop where
  /-- One phrase. -/
  | one {ts : List Token} {x : α} : Item ts x → Separated Item ts [x]
  /-- One phrase, a comma and more of them. -/
  | more {ts us : List Token} {comma : Token} {x : α} {xs : List α} :
      Item ts x → comma.kind = .mark .comma → Separated Item us xs →
      Separated Item (ts ++ comma :: us) (x :: xs)

/-- **List of phrases**: none, or some with commas between them. -/
inductive Listed (Item : List Token → α → Prop) : List Token → List α → Prop where
  /-- The empty list. -/
  | none : Listed Item [] []
  /-- A list that is not empty. -/
  | some {ts : List Token} {xs : List α} : Separated Item ts xs → Listed Item ts xs

/-! ## Types and parameters -/

/-- **Type** as it is written: the name of a base type, and `[]` behind it for
arrays.  The site is that of the name. -/
inductive Written : List Token → DeclaredType → Site → Prop where
  /-- A base type. -/
  | plain {t : Token} {base : BaseType} :
      t.kind = .typeName base → Written [t] ⟨base, false⟩ t.site
  /-- Arrays of a base type. -/
  | array {t opening closing : Token} {base : BaseType} :
      t.kind = .typeName base → opening.kind = .mark .leftBracket →
      closing.kind = .mark .rightBracket →
      Written [t, opening, closing] ⟨base, true⟩ t.site

/-- **Parameter**: a type and a name. -/
inductive Parameterized : List Token → Parameter → Prop where
  /-- The only form. -/
  | intro {ts : List Token} {word : Token} {type : DeclaredType} {name : String} {site : Site} :
      Written ts type site → word.kind = .identifier name →
      Parameterized (ts ++ [word]) ⟨name, type, site⟩

/-! ## Expressions -/

/-- **Layers of infix operators**, from the loosest to the tightest, with the
sign that spells each operator. -/
def layers : List (List (Sign × BinaryOp)) :=
  [[(.or, .or)],
    [(.and, .and)],
    [(.equalEqual, .equal), (.bangEqual, .notEqual)],
    [(.less, .less), (.greater, .greater), (.lessEqual, .lessEqual),
      (.greaterEqual, .greaterEqual)],
    [(.plus, .add), (.minus, .sub)],
    [(.star, .mul), (.slash, .div), (.percent, .rem)]]

/-- **Prefix operators**, with the sign that spells each. -/
def prefixes : List (Sign × UnaryOp) :=
  [(.plus, .plus), (.minus, .minus), (.not, .not)]

/-- **Layer `p` of infix operators** above the phrases `Item`.  Behind the last
layer there are only those phrases. -/
inductive Layer (Item : List Token → Expr → Prop) : Nat → List Token → Expr → Prop where
  /-- A phrase without infix operators. -/
  | operand {ts : List Token} {e : Expr} : Item ts e → Layer Item layers.length ts e
  /-- A phrase of the next tighter layer. -/
  | tighter {p : Nat} {ts : List Token} {e : Expr} : Layer Item (p + 1) ts e → Layer Item p ts e
  /-- An operation of this layer, which goes on to the left. -/
  | operation {p : Nat} {ls rs : List Token} {t : Token} {l r : Expr} {sign : Sign}
      {op : BinaryOp} {layer : List (Sign × BinaryOp)} :
      Layer Item p ls l → t.kind = .operator sign → layers[p]? = some layer →
      (sign, op) ∈ layer → Layer Item (p + 1) rs r →
      Layer Item p (ls ++ t :: rs) (.binary op l r t.site)

/-- **Operand**: what stands between infix operators. -/
inductive Operand : List Token → Expr → Prop where
  /-- A constant. -/
  | literal {t : Token} {value : Literal} :
      t.kind = .literal value → Operand [t] (.literal value t.site)
  /-- A variable. -/
  | var {t : Token} {name : String} :
      t.kind = .identifier name → Operand [t] (.var name t.site)
  /-- A prefix operation. -/
  | unary {t : Token} {ts : List Token} {e : Expr} {sign : Sign} {op : UnaryOp} :
      t.kind = .operator sign → (sign, op) ∈ prefixes → Operand ts e →
      Operand (t :: ts) (.unary op e t.site)
  /-- An expression in brackets. -/
  | group {opening closing : Token} {ts : List Token} {e : Expr} :
      opening.kind = .mark .leftParen → Layer Operand 0 ts e →
      closing.kind = .mark .rightParen → Operand (opening :: (ts ++ [closing])) e
  /-- An array literal. -/
  | array {opening closing : Token} {ts : List Token} {es : List Expr} :
      opening.kind = .mark .leftBracket → Listed (Layer Operand 0) ts es →
      closing.kind = .mark .rightBracket →
      Operand (opening :: (ts ++ [closing])) (.array es opening.site)
  /-- A call. -/
  | call {word opening closing : Token} {ts : List Token} {name : String} {es : List Expr} :
      word.kind = .identifier name → opening.kind = .mark .leftParen →
      Listed (Layer Operand 0) ts es → closing.kind = .mark .rightParen →
      Operand (word :: opening :: (ts ++ [closing])) (.call name es word.site)

/-- **Expression**: the loosest layer of infix operators above operands. -/
abbrev Expression : List Token → Expr → Prop := Layer Operand 0

/-! ## Statements -/

/-- **Block** of the phrases `Item`: any number of them in braces. -/
inductive BlockOf (Item : List Token → Stmt → Prop) : List Token → Block → Prop where
  /-- The only form. -/
  | braces {opening closing : Token} {ts : List Token} {ss : List Stmt} :
      opening.kind = .mark .leftBrace → Many Item ts ss → closing.kind = .mark .rightBrace →
      BlockOf Item (opening :: (ts ++ [closing])) ⟨ss, opening.site⟩

/-- **If chain** of blocks of the phrases `Item`, behind the word that opens it,
which stands at the given site. -/
inductive ChainOf (Item : List Token → Stmt → Prop) :
    Site → List Token → Conditional → Prop where
  /-- The last link, without `else`. -/
  | done {site : Site} {cs bs : List Token} {e : Expr} {b : Block} :
      Expression cs e → BlockOf Item bs b → ChainOf Item site (cs ++ bs) ⟨e, b, .done, site⟩
  /-- A link with another one behind it. -/
  | elif {site : Site} {cs bs ts : List Token} {word : Token} {e : Expr} {b : Block}
      {link : Conditional} :
      Expression cs e → BlockOf Item bs b → word.kind = .keyword .elifWord →
      ChainOf Item word.site ts link →
      ChainOf Item site (cs ++ (bs ++ word :: ts)) ⟨e, b, .elif link, site⟩
  /-- The last link, with `else`. -/
  | last {site : Site} {cs bs ts : List Token} {word : Token} {e : Expr} {b b' : Block} :
      Expression cs e → BlockOf Item bs b → word.kind = .keyword .elseWord →
      BlockOf Item ts b' →
      ChainOf Item site (cs ++ (bs ++ word :: ts)) ⟨e, b, .last b' word.site, site⟩

/-- **Statement.** -/
inductive Statement : List Token → Stmt → Prop where
  /-- A declaration: `type name = expression ;` -/
  | declare {ts es : List Token} {word equals semicolon : Token} {type : DeclaredType}
      {name : String} {site : Site} {e : Expr} :
      Written ts type site → word.kind = .identifier name → equals.kind = .mark .equals →
      Expression es e → semicolon.kind = .mark .semicolon →
      Statement (ts ++ word :: equals :: (es ++ [semicolon]))
        (.declare type name word.site e site)
  /-- A function definition: `type fun? name ( parameters ) block`, where no two
  parameters have one name -/
  | define {ts fs ps bs : List Token} {word opening closing : Token} {type : DeclaredType}
      {name : String} {site : Site} {parameters : List Parameter} {b : Block} :
      Written ts type site → (fs = [] ∨ ∃ t, t.kind = .keyword .function ∧ fs = [t]) →
      word.kind = .identifier name → opening.kind = .mark .leftParen →
      Listed Parameterized ps parameters → closing.kind = .mark .rightParen →
      (parameters.map Parameter.name).Nodup → BlockOf Statement bs b →
      Statement (ts ++ (fs ++ word :: opening :: (ps ++ closing :: bs)))
        (.define ⟨name, type, parameters, b, site⟩)
  /-- A reassignment: `now name = expression ;` -/
  | reassign {es : List Token} {now word equals semicolon : Token} {name : String} {e : Expr} :
      now.kind = .keyword .now → word.kind = .identifier name → equals.kind = .mark .equals →
      Expression es e → semicolon.kind = .mark .semicolon →
      Statement (now :: word :: equals :: (es ++ [semicolon]))
        (.reassign name word.site e now.site)
  /-- A block. -/
  | block {ts : List Token} {b : Block} : BlockOf Statement ts b → Statement ts (.block b)
  /-- A return of a value: `return expression ;` -/
  | ret {es : List Token} {word semicolon : Token} {e : Expr} :
      word.kind = .keyword .returnWord → Expression es e → semicolon.kind = .mark .semicolon →
      Statement (word :: (es ++ [semicolon])) (.ret (some e) word.site)
  /-- A bare return: `return ;` -/
  | retVoid {word semicolon : Token} :
      word.kind = .keyword .returnWord → semicolon.kind = .mark .semicolon →
      Statement [word, semicolon] (.ret none word.site)
  /-- An if chain. -/
  | branch {ts : List Token} {word : Token} {chain : Conditional} :
      word.kind = .keyword .ifWord → ChainOf Statement word.site ts chain →
      Statement (word :: ts) (.branch chain)
  /-- A while loop: `while expression block` -/
  | loop {cs bs : List Token} {word : Token} {e : Expr} {b : Block} :
      word.kind = .keyword .whileWord → Expression cs e → BlockOf Statement bs b →
      Statement (word :: (cs ++ bs)) (.loop e b word.site)
  /-- A counted loop: `from expression to expression step expression block` -/
  | count {as cs ds bs : List Token} {word toWord stepWord : Token} {start stop step : Expr}
      {b : Block} :
      word.kind = .keyword .fromWord → Expression as start → toWord.kind = .keyword .toWord →
      Expression cs stop → stepWord.kind = .keyword .stepWord → Expression ds step →
      BlockOf Statement bs b →
      Statement (word :: (as ++ toWord :: (cs ++ stepWord :: (ds ++ bs))))
        (.count start stop step b word.site)
  /-- A call: `name ( arguments ) ;` -/
  | call {es : List Token} {word opening closing semicolon : Token} {name : String}
      {args : List Expr} :
      word.kind = .identifier name → opening.kind = .mark .leftParen →
      Listed Expression es args → closing.kind = .mark .rightParen →
      semicolon.kind = .mark .semicolon →
      Statement (word :: opening :: (es ++ [closing, semicolon])) (.call name args word.site)
  /-- A lone semicolon. -/
  | empty {semicolon : Token} :
      semicolon.kind = .mark .semicolon → Statement [semicolon] (.empty semicolon.site)

/-- **Program**: any number of statements.  Its site is that of the first token,
which is the end token `last` if there is no statement. -/
inductive Program (last : Token) : List Token → Block → Prop where
  /-- The only form. -/
  | intro {ts : List Token} {ss : List Stmt} :
      Many Statement ts ss → Program last ts ⟨ss, (ts.headD last).site⟩

end Grammar

end Scriptlet
