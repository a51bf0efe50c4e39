import Scriptlet.Event
import Scriptlet.Eval.Steps

/-!
# Trees with other sites

Giving every node of a tree another site, and what does not depend on sites.

## Main definitions

* `Expr.mapSites`, `Stmt.mapSites`, `Block.mapSites`, `Function.mapSites` — trees
* `Frame.mapSites`, `Scope.mapSites` — the functions that are bound in frames
* `Event.mapSites` — the sites that a log shows

## Main statements

* `Expr.mapSites_id`, `Stmt.mapSites_id`, `Scope.mapSites_id` — no other sites, no other
  tree
* `Scope.find?_mapSites`, `Scope.function?_mapSites` — variables and functions are found
  where they were found before

## Design decisions

* Variables hold values, and values have no sites.  So of a scope only the bodies of its
  functions change.
-/

namespace Scriptlet

variable (f : Site → Site)

/-! ## Expressions -/

namespace Expr

mutual

/-- The expression with the site of every node given by `f`. -/
def mapSites : Expr → Expr
  | .literal value site => .literal value (f site)
  | .var name site => .var name (f site)
  | .unary op operand site => .unary op (mapSites operand) (f site)
  | .binary op left right site => .binary op (mapSites left) (mapSites right) (f site)
  | .array elements site => .array (mapSitesAll elements) (f site)
  | .call name args site => .call name (mapSitesAll args) (f site)

/-- The same for several expressions. -/
def mapSitesAll : List Expr → List Expr
  | [] => []
  | e :: es => mapSites e :: mapSitesAll es

end

@[simp] theorem mapSitesAll_eq (es : List Expr) : mapSitesAll f es = es.map (mapSites f) := by
  induction es with
  | nil => rfl
  | cons e es ih => exact congrArg (mapSites f e :: ·) ih

@[simp] theorem site_mapSites (e : Expr) : (e.mapSites f).site = f e.site := by
  cases e <;> rfl

@[simp] theorem kind_mapSites (e : Expr) : (e.mapSites f).kind = e.kind := by
  cases e <;> rfl

mutual

theorem mapSites_id : ∀ e : Expr, e.mapSites id = e
  | .literal .. | .var .. => by simp only [mapSites, id]
  | .unary _ operand _ => by simp only [mapSites, id, mapSites_id operand]
  | .binary _ left right _ => by simp only [mapSites, id, mapSites_id left, mapSites_id right]
  | .array elements _ => by rw [mapSites, mapSitesAll_id elements, id]
  | .call _ args _ => by rw [mapSites, mapSitesAll_id args, id]

theorem mapSitesAll_id : ∀ es : List Expr, mapSitesAll id es = es
  | [] => by rw [mapSitesAll]
  | e :: es => by rw [mapSitesAll, mapSites_id e, mapSitesAll_id es]

end

end Expr

/-- The parameter with its site given by `f`. -/
def Parameter.mapSites (p : Parameter) : Parameter := { p with site := f p.site }

@[simp] theorem Parameter.name_mapSites (p : Parameter) : (p.mapSites f).name = p.name := rfl

@[simp] theorem Parameter.type_mapSites (p : Parameter) : (p.mapSites f).type = p.type := rfl

/-! ## Statements -/

mutual

/-- The statement with the site of every node given by `f`. -/
def Stmt.mapSites : Stmt → Stmt
  | .declare type name nameSite value site =>
    .declare type name (f nameSite) (value.mapSites f) (f site)
  | .reassign name nameSite value site => .reassign name (f nameSite) (value.mapSites f) (f site)
  | .define function => .define function.mapSites
  | .call name args site => .call name (args.map (Expr.mapSites f)) (f site)
  | .block body => .block body.mapSites
  | .branch chain => .branch chain.mapSites
  | .loop condition body site => .loop (condition.mapSites f) body.mapSites (f site)
  | .count start stop step body site =>
    .count (start.mapSites f) (stop.mapSites f) (step.mapSites f) body.mapSites (f site)
  | .ret value site => .ret (value.map (Expr.mapSites f)) (f site)
  | .empty site => .empty (f site)

/-- The same for several statements. -/
def Stmt.mapSitesAll : List Stmt → List Stmt
  | [] => []
  | s :: rest => s.mapSites :: Stmt.mapSitesAll rest

/-- The block with the site of every node given by `f`. -/
def Block.mapSites : Block → Block
  | ⟨statements, site⟩ => ⟨Stmt.mapSitesAll statements, f site⟩

/-- The conditional with the site of every node given by `f`. -/
def Conditional.mapSites : Conditional → Conditional
  | ⟨condition, body, next, site⟩ => ⟨condition.mapSites f, body.mapSites, next.mapSites, f site⟩

/-- The rest of an if chain with the site of every node given by `f`. -/
def Otherwise.mapSites : Otherwise → Otherwise
  | .done => .done
  | .elif link => .elif link.mapSites
  | .last body site => .last body.mapSites (f site)

/-- The function with the site of every node given by `f`. -/
def Function.mapSites : Function → Function
  | ⟨name, returnType, parameters, body, site⟩ =>
    ⟨name, returnType, parameters.map (Parameter.mapSites f), body.mapSites, f site⟩

end

@[simp] theorem Stmt.mapSitesAll_eq (ss : List Stmt) :
    Stmt.mapSitesAll f ss = ss.map (Stmt.mapSites f) := by
  induction ss with
  | nil => rfl
  | cons s ss ih => exact congrArg (s.mapSites f :: ·) ih

namespace Block

@[simp] theorem statements_mapSites (b : Block) :
    (b.mapSites f).statements = b.statements.map (Stmt.mapSites f) := by
  obtain ⟨statements, site⟩ := b
  exact Stmt.mapSitesAll_eq f statements

@[simp] theorem site_mapSites (b : Block) : (b.mapSites f).site = f b.site := by
  obtain ⟨statements, site⟩ := b
  rfl

end Block

namespace Function

variable (g : Function)

@[simp] theorem name_mapSites : (g.mapSites f).name = g.name := by
  obtain ⟨name, returnType, parameters, body, site⟩ := g
  rfl

@[simp] theorem returnType_mapSites : (g.mapSites f).returnType = g.returnType := by
  obtain ⟨name, returnType, parameters, body, site⟩ := g
  rfl

@[simp] theorem parameters_mapSites :
    (g.mapSites f).parameters = g.parameters.map (Parameter.mapSites f) := by
  obtain ⟨name, returnType, parameters, body, site⟩ := g
  rfl

@[simp] theorem body_mapSites : (g.mapSites f).body = g.body.mapSites f := by
  obtain ⟨name, returnType, parameters, body, site⟩ := g
  rfl

@[simp] theorem site_mapSites : (g.mapSites f).site = f g.site := by
  obtain ⟨name, returnType, parameters, body, site⟩ := g
  rfl

end Function

namespace Stmt

@[simp] theorem site_mapSites (s : Stmt) : (s.mapSites f).site = f s.site := by
  cases s with
  | define g => exact Function.site_mapSites f g
  | block body => exact Block.site_mapSites f body
  | branch chain =>
    obtain ⟨condition, body, next, place⟩ := chain
    rfl
  | declare | reassign | call | loop | count | ret | empty => rfl

@[simp] theorem kind_mapSites (s : Stmt) : (s.mapSites f).kind = s.kind := by
  cases s <;> rfl

@[simp] theorem isReturn_mapSites (s : Stmt) : (s.mapSites f).isReturn = s.isReturn := by
  cases s <;> rfl

@[simp] theorem carriesReturn_mapSites (s : Stmt) :
    (s.mapSites f).carriesReturn = s.carriesReturn := by
  cases s <;> rfl

end Stmt

@[simp] theorem Config.endsBlock_mapSites (config : Config) (s : Stmt) :
    config.endsBlock (s.mapSites f) = config.endsBlock s := by
  simp only [Config.endsBlock, Stmt.carriesReturn_mapSites]

/-- The result of a function is missed at the site of the same statement. -/
@[simp] theorem Eval.returnSite_mapSites (g : Function) :
    returnSite (g.mapSites f) = f (returnSite g) := by
  have found : (g.body.statements.map (Stmt.mapSites f)).find? Stmt.isReturn =
      (g.body.statements.find? Stmt.isReturn).map (Stmt.mapSites f) := by
    rw [List.find?_map]
    congr 2
    funext s
    exact Stmt.isReturn_mapSites f s
  simp only [returnSite, Block.return?, Function.body_mapSites, Block.statements_mapSites,
    Function.site_mapSites, found]
  cases g.body.statements.find? Stmt.isReturn with
  | none => rfl
  | some s => simp only [Option.map_some, Option.getD_some, Stmt.site_mapSites]

mutual

theorem Stmt.mapSites_id : ∀ s : Stmt, s.mapSites id = s
  | .declare .. | .reassign .. => by simp only [Stmt.mapSites, Expr.mapSites_id, id]
  | .define g => by rw [Stmt.mapSites, Function.mapSites_id g]
  | .call .. => by simp only [Stmt.mapSites, id, funext Expr.mapSites_id, List.map_id']
  | .block body => by rw [Stmt.mapSites, Block.mapSites_id body]
  | .branch chain => by rw [Stmt.mapSites, Conditional.mapSites_id chain]
  | .loop _ body _ => by
    rw [Stmt.mapSites, Expr.mapSites_id, Block.mapSites_id body, id]
  | .count _ _ _ body _ => by
    simp only [Stmt.mapSites, Expr.mapSites_id, Block.mapSites_id body, id]
  | .ret .. => by simp only [Stmt.mapSites, id, funext Expr.mapSites_id, Option.map_id']
  | .empty .. => by simp only [Stmt.mapSites, id]

theorem Stmt.mapSitesAll_id : ∀ ss : List Stmt, Stmt.mapSitesAll id ss = ss
  | [] => by rw [Stmt.mapSitesAll]
  | s :: rest => by rw [Stmt.mapSitesAll, Stmt.mapSites_id s, Stmt.mapSitesAll_id rest]

theorem Block.mapSites_id : ∀ b : Block, b.mapSites id = b
  | ⟨statements, _⟩ => by rw [Block.mapSites, Stmt.mapSitesAll_id statements, id]

theorem Conditional.mapSites_id : ∀ c : Conditional, c.mapSites id = c
  | ⟨_, body, next, _⟩ => by
    rw [Conditional.mapSites, Expr.mapSites_id, Block.mapSites_id body,
      Otherwise.mapSites_id next, id]

theorem Otherwise.mapSites_id : ∀ n : Otherwise, n.mapSites id = n
  | .done => by rw [Otherwise.mapSites]
  | .elif link => by rw [Otherwise.mapSites, Conditional.mapSites_id link]
  | .last body _ => by rw [Otherwise.mapSites, Block.mapSites_id body, id]

theorem Function.mapSites_id : ∀ g : Function, g.mapSites id = g
  | ⟨_, _, parameters, body, _⟩ => by
    have same : parameters.map (Parameter.mapSites id) = parameters := List.map_id' parameters
    rw [Function.mapSites, Block.mapSites_id body, same, id]

end

/-! ## Scopes -/

/-- The frame with the site of every node of its functions given by `f`. -/
def Frame.mapSites (frame : Frame) : Frame :=
  { frame with functions := frame.functions.map fun (name, g) => (name, g.mapSites f) }

/-- The scope with the site of every node of its functions given by `f`. -/
def Scope.mapSites (scope : Scope) : Scope := scope.map (Frame.mapSites f)

theorem Bindings.find?_map {α β : Type} (g : α → β) (name : String) (b : Bindings α) :
    find? name (b.map fun (n, a) => (n, g a)) = (find? name b).map g := by
  induction b with
  | nil => rfl
  | cons entry rest ih =>
    obtain ⟨n, a⟩ := entry
    simp only [List.map_cons, find?]
    split
    · rfl
    · exact ih

theorem Bindings.insert_map {α β : Type} (g : α → β) (name : String) (a : α) (b : Bindings α) :
    insert name (g a) (b.map fun (n, a) => (n, g a)) =
      (insert name a b).map fun (n, a) => (n, g a) := by
  induction b with
  | nil => rfl
  | cons entry rest ih =>
    obtain ⟨n, c⟩ := entry
    simp only [List.map_cons, insert]
    split
    · rfl
    · rw [ih, List.map_cons]

@[simp] theorem Frame.vars_mapSites (frame : Frame) : (frame.mapSites f).vars = frame.vars := rfl

theorem Frame.mapSites_id (frame : Frame) : frame.mapSites id = frame := by
  simp only [mapSites, Function.mapSites_id, List.map_id']

namespace Scope

@[simp] theorem mapSites_nil : mapSites f [] = [] := rfl

@[simp] theorem mapSites_cons (frame : Frame) (outer : Scope) :
    mapSites f (frame :: outer) = frame.mapSites f :: mapSites f outer := rfl

theorem mapSites_id (scope : Scope) : mapSites id scope = scope := by
  induction scope with
  | nil => rfl
  | cons frame outer ih => rw [mapSites_cons, Frame.mapSites_id, ih]

@[simp] theorem depth_mapSites (scope : Scope) : (mapSites f scope).depth = scope.depth := by
  simp only [depth, mapSites, List.length_map]

@[simp] theorem find?_mapSites (name : String) (scope : Scope) :
    find? name (mapSites f scope) = find? name scope := by
  induction scope with
  | nil => rfl
  | cons frame outer ih => rw [mapSites_cons, find?, find?, ih, Frame.vars_mapSites]

theorem function?_mapSites (name : String) (scope : Scope) :
    function? name (mapSites f scope) =
      (function? name scope).map fun (n, g) => (n, g.mapSites f) := by
  induction scope with
  | nil => rfl
  | cons frame outer ih =>
    rw [mapSites_cons, function?, function?, ih, Frame.mapSites, Bindings.find?_map]
    cases frame.functions.find? name with
    | some g => rfl
    | none => cases function? name outer <;> rfl

theorem declare_mapSites (name : String) (v : Value) (scope : Scope) :
    declare name v (mapSites f scope) = mapSites f (declare name v scope) := by
  cases scope <;> rfl

theorem assign?_mapSites (name : String) (v : Value) (scope : Scope) :
    assign? name v (mapSites f scope) = (assign? name v scope).map (mapSites f) := by
  induction scope with
  | nil => rfl
  | cons frame outer ih =>
    rw [mapSites_cons, assign?, assign?, ih, Frame.vars_mapSites]
    split
    · rfl
    · cases assign? name v outer <;> rfl

theorem define_mapSites (g : Function) (scope : Scope) :
    define (g.mapSites f) (mapSites f scope) = mapSites f (define g scope) := by
  cases scope with
  | nil => rfl
  | cons frame outer =>
    simp only [mapSites_cons, define, Frame.define, Frame.mapSites, Function.name_mapSites,
      Bindings.insert_map]

end Scope

/-! ## Events -/

/-- The event with its site given by `f`. -/
def Event.mapSites : Event → Event
  | .parsedStatement kind site => .parsedStatement kind (f site)
  | .folding op site => .folding op (f site)
  | .evaluating kind site => .evaluating kind (f site)
  | .ignoringUnknown name site => .ignoringUnknown name (f site)
  | e => e

theorem Event.mapSites_id (e : Event) : e.mapSites id = e := by
  cases e <;> rfl

end Scriptlet
