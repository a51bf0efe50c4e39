import Scriptlet.Proofs.Host.Effect
import Scriptlet.Proofs.Watch.Change

/-!
# Runs are paths of changes

Everything that a run does to the state is a sequence of changes, and the moments
that the watch keeps lie on it.

## Main definitions

* `Onward` — a machine later in the same run
* `Watch.Follows` — an evaluation from a given machine only goes onward

## Main statements

* `Watch.expr_follows`, `Watch.stmt_follows` — expressions and statements go onward
* `Machine.onward_executeWatched` — and so do sequences of programs

## Design decisions

* `Follows` starts at a fixed machine, so that what was read from the state is known
  to be still true when it is used.
* The results of expressions have to be held by the heap, since only then they may be
  stored.  The heap grows, so they stay held while other expressions are evaluated.
-/

namespace Scriptlet

variable {σ α β : Type}

/-- **Onward.**  What the run has done between two machines. -/
structure Onward (m m' : Machine (Watch σ)) : Prop where
  /-- It has made changes. -/
  reaches : m.now.Reaches m'.now
  /-- It has put back what it has set aside. -/
  aside : m'.now.aside = m.now.aside
  /-- The moments that it has kept lie on the way, in order. -/
  past : ∃ new, m'.past = new ++ m.past ∧
    (∀ p ∈ new, m.now.Reaches p ∧ p.Reaches m'.now) ∧ new.Pairwise fun q p => p.Reaches q

namespace Onward

variable {m m' m'' : Machine (Watch σ)}

theorem refl (m : Machine (Watch σ)) : Onward m m :=
  ⟨.refl, rfl, [], rfl, by simp, .nil⟩

theorem trans (first : Onward m m') (second : Onward m' m'') : Onward m m'' := by
  obtain ⟨new, hpast, between, ordered⟩ := first.past
  obtain ⟨new', hpast', between', ordered'⟩ := second.past
  refine ⟨first.reaches.trans second.reaches, second.aside.trans first.aside, new' ++ new, ?_, ?_,
    ?_⟩
  · rw [hpast', hpast, List.append_assoc]
  · intro p mem
    rcases List.mem_append.mp mem with late | early
    · exact ⟨first.reaches.trans (between' p late).1, (between' p late).2⟩
    · exact ⟨(between p early).1, (between p early).2.trans second.reaches⟩
  · exact List.pairwise_append.mpr ⟨ordered', ordered,
      fun q late p early => (between p early).2.trans (between' q late).1⟩

/-- A machine that differs in nothing that a moment has. -/
theorem of_eq (now : m'.now = m.now) (past : m'.past = m.past) : Onward m m' := by
  refine ⟨?_, ?_, [], past, by simp, .nil⟩
  · rw [now]
    exact .refl
  · rw [now]

/-- One change between moments with the same frames set aside. -/
theorem of_change (change : Change m.now m'.now) (aside : m'.now.aside = m.now.aside)
    (past : m'.past = m.past) : Onward m m' :=
  ⟨.single change, aside, [], past, by simp, .nil⟩

theorem look (m : Machine (Watch σ)) : Onward m m.look := by
  refine ⟨.refl, rfl, [m.now], rfl, ?_, List.pairwise_singleton _ _⟩
  intro p mem
  rw [List.mem_singleton.mp mem]
  exact ⟨.refl, .refl⟩

theorem valid (h : Onward m m') (valid : m.now.Valid) : m'.now.Valid := h.reaches.valid valid

theorem holds (h : Onward m m') {v : Value} (held : m.world.heap.Holds v) :
    m'.world.heap.Holds v :=
  h.reaches.grows.holds held

end Onward

namespace Watch

open Eval

/-- **Following.**  The evaluation `x` goes onward from `m`, and its result has the
property `Q`. -/
def Follows (m : Machine (Watch σ)) (x : Eval (Watch σ) α) (Q : α → Machine (Watch σ) → Prop) :
    Prop :=
  match x m with
  | .ok a m' => Onward m m' ∧ Q a m'
  | .error _ m' => Onward m m'

/-! ## Primitives -/

namespace Follows

variable {m : Machine (Watch σ)} {x : Eval (Watch σ) α} {f : α → Eval (Watch σ) β}
  {Q : α → Machine (Watch σ) → Prop} {R : β → Machine (Watch σ) → Prop}

theorem bind (first : Follows m x Q) (second : ∀ a m', Onward m m' → Q a m' → Follows m' (f a) R) :
    Follows m (x >>= f) R := by
  unfold Follows at first
  show Follows m (EStateM.bind x f) R
  unfold Follows EStateM.bind
  cases ran : x m with
  | error e m' =>
    rw [ran] at first
    exact first
  | ok a m' =>
    rw [ran] at first
    have next := second a m' first.1 first.2
    unfold Follows at next
    dsimp only
    split <;> rename_i result <;> rw [result] at next
    · exact ⟨first.1.trans next.1, next.2⟩
    · exact first.1.trans next

theorem map {g : α → β} (h : Follows m x fun a m' => R (g a) m') : Follows m (g <$> x) R := by
  unfold Follows at h
  show Follows m (EStateM.map g x) R
  unfold Follows EStateM.map
  cases ran : x m with
  | error e m' =>
    rw [ran] at h
    exact h
  | ok a m' =>
    rw [ran] at h
    exact h

theorem pure {a : α} (h : Q a m) : Follows m (pure a) Q := ⟨.refl m, h⟩

theorem fail {fault : Fault} {site : Site} : Follows m (Eval.fail fault site) Q := Onward.refl m

theorem fail_bind {fault : Fault} {site : Site} : Follows m (Eval.fail fault site >>= f) R :=
  Onward.refl m

theorem outOfFuel : Follows m Eval.outOfFuel Q := Onward.refl m

theorem check {site : Site} {r : Except Fault α} (h : ∀ a, r = .ok a → Q a m) :
    Follows m (Eval.check site r) Q := by
  cases r with
  | ok a => exact .pure (h a rfl)
  | error fault => exact .fail

/-- Reading the scope or the heap, and going on with what was read. -/
theorem scope_bind {f : Scope → Eval (Watch σ) β} (h : Follows m (f m.scope) R) :
    Follows m (Eval.scope >>= f) R := h

theorem heap_bind {f : Heap → Eval (Watch σ) β} (h : Follows m (f m.world.heap) R) :
    Follows m (Eval.heap >>= f) R := h

theorem note {e : Event} : Follows m (Eval.note e) fun _ m' => m'.now = m.now ∧ m'.past = m.past :=
  ⟨.of_eq rfl rfl, rfl, rfl⟩

end Follows

/-! ## Expressions -/

/-- A result, if there is one, is held by the heap. -/
def Result (r : Option Value) (m : Machine (Watch σ)) : Prop :=
  ∀ v, r = some v → m.world.heap.Holds v

theorem Result.some {m : Machine (Watch σ)} {v : Value} (held : m.world.heap.Holds v) :
    Result (some v) m := by
  rintro w ⟨⟩
  exact held

theorem Result.none (m : Machine (Watch σ)) : Result none m :=
  fun _ found => nomatch found

/-- What a statement uses in place of a result that is missing. -/
theorem Result.getD {m : Machine (Watch σ)} {r : Option Value} (h : Result r m) :
    m.world.heap.Holds (r.getD .void) := by
  cases r with
  | none => exact Heap.holds_of_tag_ne (by simp [Value.tag])
  | some v => exact h v rfl

theorem Follows.some {m : Machine (Watch σ)} {x : Eval (Watch σ) Value}
    (h : Follows m x fun v m' => m'.world.heap.Holds v) : Follows m (some <$> x) Result := by
  refine .map ?_
  unfold Follows at h ⊢
  split <;> rename_i result <;> rw [result] at h
  · exact ⟨h.1, .some h.2⟩
  · exact h

/-- The moments before and after a node are on its way. -/
theorem looking_follows {m : Machine (Watch σ)} {x : Eval (Watch σ) (Option Value)}
    (h : Follows m.look x Result) : Follows m (looking x) Result := by
  unfold Follows at h ⊢
  unfold looking
  cases ran : x m.look with
  | ok r m' =>
    rw [ran] at h
    exact ⟨((Onward.look m).trans h.1).trans (.look m'), h.2⟩
  | error e m' =>
    rw [ran] at h
    exact ((Onward.look m).trans h).trans (.look m')

section Constructs

variable {eval : Expr → Eval (Watch σ) (Option Value)} {m : Machine (Watch σ)}

theorem demand_follows (h : ∀ e m, m.now.Valid → Follows m (eval e) Result) (e : Expr)
    (valid : m.now.Valid) :
    Follows m (demand eval e) fun v m' => m'.world.heap.Holds v := by
  refine (h e m valid).bind fun r m' onward held => ?_
  cases r with
  | none => exact .fail
  | some v => exact .pure (held v rfl)

theorem demandAll_follows (h : ∀ e m, m.now.Valid → Follows m (eval e) Result) (es : List Expr)
    (valid : m.now.Valid) :
    Follows m (demandAll eval es) fun vs m' => ∀ v ∈ vs, m'.world.heap.Holds v := by
  induction es generalizing m with
  | nil => exact .pure (by simp)
  | cons e es ih =>
    refine (demand_follows h e valid).bind fun v m₁ onward held => ?_
    refine (ih (onward.valid valid)).bind fun vs m₂ onward' helds => .pure ?_
    rintro w (_ | ⟨_, mem⟩)
    · exact onward'.holds held
    · exact helds w mem

theorem demandNumber_follows (h : ∀ e m, m.now.Valid → Follows m (eval e) Result) (e : Expr)
    (valid : m.now.Valid) : Follows m (demandNumber eval e) fun _ _ => True :=
  (demand_follows h e valid).bind fun _ _ _ _ => .heap_bind (.check fun _ _ => trivial)

theorem demandBoolean_follows (h : ∀ e m, m.now.Valid → Follows m (eval e) Result) (e : Expr)
    (valid : m.now.Valid) : Follows m (demandBoolean eval e) fun _ _ => True :=
  (demand_follows h e valid).bind fun _ _ _ _ => .heap_bind (.check fun _ _ => trivial)

theorem holds_of_find? {heap : Heap} {scope : Scope} {name : String} {v : Value}
    (valid : ∀ f ∈ scope, f.Valid heap) (found : scope.find? name = some v) : heap.Holds v := by
  induction scope with
  | nil => cases found
  | cons f outer ih =>
    rw [Scope.find?] at found
    cases here : f.vars.find? name with
    | some w =>
      rw [here] at found
      cases found
      exact valid f (.head _) name _ here
    | none =>
      rw [here] at found
      exact ih (fun g mem => valid g (.tail _ mem)) found

theorem lookup_follows (name : String) (site : Site) (valid : m.now.Valid) :
    Follows m (lookup name site) fun v m' => m'.world.heap.Holds v := by
  refine .scope_bind ?_
  cases found : m.scope.find? name with
  | none => exact .fail
  | some v => exact .pure (holds_of_find? valid.scope found)

theorem tag_ne_of_unary {heap : Heap} {op : UnaryOp} {v w : Value}
    (h : Operation.unary heap op v = .ok w) : w.tag ≠ .array := by
  unfold Operation.unary at h
  split at h <;> cases h <;> simp [Value.tag]

theorem tag_ne_of_binary {heap : Heap} {op : BinaryOp} {u v w : Value}
    (h : Operation.binary heap op u v = .ok w) : w.tag ≠ .array := by
  unfold Operation.binary at h
  split at h
  · cases h
  · have arithmetic : ∀ {op}, Operation.arithmetic heap op u v = .ok w → w.tag ≠ .array := by
      intro op h
      unfold Operation.arithmetic at h
      split at h <;> cases h <;> simp [Value.tag]
    have comparison : ∀ {op}, Operation.comparison heap op u v = .ok w → w.tag ≠ .array := by
      intro op h
      unfold Operation.comparison at h
      split at h <;> cases h <;> simp [Value.tag]
    have logic : ∀ {op}, Operation.logic heap op u v = .ok w → w.tag ≠ .array := by
      intro op h
      unfold Operation.logic at h
      split at h <;> cases h <;> simp [Value.tag]
    cases op with
    | add | sub | mul | div | rem => exact arithmetic h
    | less | greater | lessEqual | greaterEqual | equal | notEqual => exact comparison h
    | and | or => exact logic h

theorem applyUnary_follows (h : ∀ e m, m.now.Valid → Follows m (eval e) Result) (op : UnaryOp)
    (e : Expr) (site : Site) (valid : m.now.Valid) :
    Follows m (applyUnary eval op e site) fun v m' => m'.world.heap.Holds v :=
  (demand_follows h e valid).bind fun _ _ _ _ => .heap_bind
    (.check fun _ checked => Heap.holds_of_tag_ne (tag_ne_of_unary checked))

theorem applyBinary_follows (h : ∀ e m, m.now.Valid → Follows m (eval e) Result) (op : BinaryOp)
    (l r : Expr) (site : Site) (valid : m.now.Valid) :
    Follows m (applyBinary eval op l r site) fun v m' => m'.world.heap.Holds v :=
  (demand_follows h l valid).bind fun _ _ onward _ =>
    (demand_follows h r (onward.valid valid)).bind fun _ _ _ _ => .heap_bind
      (.check fun _ checked => Heap.holds_of_tag_ne (tag_ne_of_binary checked))

theorem newArray_follows {items : List Value} (held : ∀ v ∈ items, m.world.heap.Holds v) :
    Follows m (newArray items) fun v m' => m'.world.heap.Holds v := by
  refine ⟨.of_change (.create held) rfl rfl, Heap.holds_array ?_⟩
  exact (Heap.size_alloc m.world.heap _ _).symm ▸ Nat.lt_succ_self _

/-! ## Variables -/

/-- A declaration together with what the watch keeps of it is one change. -/
theorem declare_follows (h : ∀ e m, m.now.Valid → Follows m (eval e) Result) (type : DeclaredType)
    (name : String) (value : Expr) (site : Site) (valid : m.now.Valid) :
    Follows m (do declare eval type name value site; declared name type.spec)
      fun _ _ => True := by
  simp only [declare, bind_assoc]
  refine (h value m valid).bind fun r m' onward held => .heap_bind ?_
  -- The check, the adoption and the note of the watch are one change, and it is only made
  -- if the value conforms.
  cases conforms : m'.world.heap.conforms (r.getD .void) type.spec with
  | false =>
    simp only [Operation.checkDeclared, conforms, Bool.false_eq_true, if_false]
    exact .fail_bind
  | true =>
    simp only [Operation.checkDeclared, conforms, if_true]
    exact ⟨.of_change (.declare held.getD conforms) rfl rfl, trivial⟩

theorem reassign_follows (h : ∀ e m, m.now.Valid → Follows m (eval e) Result) (name : String)
    (nameSite : Site) (value : Expr) (site : Site) (valid : m.now.Valid) :
    Follows m (reassign eval name nameSite value site) fun _ _ => True := by
  refine (h value m valid).bind fun r m' onward held => .scope_bind ?_
  cases found : m'.scope.find? name with
  | none => exact .fail
  | some before =>
    refine .heap_bind ?_
    split
    · next same =>
      -- The variable was found, so the assignment does not fail.
      obtain ⟨scope, assigned⟩ : ∃ scope, m'.scope.assign? name (r.getD .void) = some scope :=
        Option.isSome_iff_exists.mp (by rw [Scope.isSome_assign?, found]; rfl)
      have total : m'.scope.assign? name (r.getD .void) =
          some ((m'.scope.assign? name (r.getD .void)).getD m'.scope) := by
        rw [assigned, Option.getD_some]
      exact ⟨.of_change (.reassign held.getD found same total) rfl rfl, trivial⟩
    · exact .fail

/-! ## Frames -/

/-- **Running in a frame** goes onward: it opens the frame, and whatever happens in
it, closes it again. -/
theorem inFrame_follows {x : Eval (Watch σ) (Option Value)} {skipped : Nat} {frame : Frame}
    {types : Bindings TypeSpec} (held : frame.Valid m.world.heap)
    (typed : frame.Typed m.world.heap types)
    (body : Follows (m.enter skipped frame types) x Result) :
    Follows m (Watch.inFrame skipped frame types x) Result := by
  -- What was set aside is still there when the body ends, so it can be put back.
  have closed : ∀ {m'}, Onward (m.enter skipped frame types) m' →
      Onward m (m.leave skipped m') := by
    intro m' onward
    have opens : Change m.now (m.enter skipped frame types).now := .enter held typed
    have closes : Change m'.now (m.leave skipped m').now := .leave onward.aside
    obtain ⟨new, hpast, between, ordered⟩ := onward.past
    refine ⟨(Relation.ReflTransGen.head opens onward.reaches).tail closes, rfl, new, hpast, ?_,
      ordered⟩
    exact fun p mem => ⟨.head opens (between p mem).1, (between p mem).2.tail closes⟩
  unfold Follows at body
  unfold Follows Watch.inFrame
  cases ran : x (m.enter skipped frame types) with
  | ok r m' =>
    rw [ran] at body
    exact ⟨closed body.1, body.2⟩
  | error e m' =>
    rw [ran] at body
    exact closed body

/-- A frame that the evaluator opens and the watch describes. -/
theorem inFrame_inside (frame : Frame) (types : Bindings TypeSpec) (x : Eval (Watch σ) α) :
    Eval.inFrame 0 frame (inside types x) = Watch.inFrame 0 frame types x := by
  funext m
  simp only [Eval.inFrame, inside, Watch.inFrame, Machine.enter, List.drop_zero, List.take_zero]
  generalize x _ = result
  cases result with
  | ok a m' => rfl
  | error e m' => rfl

theorem inChild_follows {x : Eval (Watch σ) (Option Value)} {frame : Frame}
    {types : Bindings TypeSpec} (held : ∀ heap, frame.Valid heap)
    (typed : ∀ heap, frame.Typed heap types)
    (body : ∀ m : Machine (Watch σ), m.now.Valid → Follows m x Result) (valid : m.now.Valid) :
    Follows m (inChild frame (inside types x)) Result := by
  refine .scope_bind (.bind .note fun _ m' onward _ => ?_)
  rw [inFrame_inside]
  have opened : Change m'.now (m'.enter 0 frame types).now := .enter (held _) (typed _)
  exact inFrame_follows (held _) (typed _) (body _ (opened.valid (onward.valid valid)))

/-! ## Control flow -/

theorem statements_follows (config : Config) {exec : Stmt → Eval (Watch σ) (Option Value)}
    (h : ∀ s m, m.now.Valid → Follows m (exec s) Result) (ss : List Stmt) (valid : m.now.Valid) :
    Follows m (statements config exec ss) Result := by
  induction ss generalizing m with
  | nil => exact .pure (.none m)
  | cons s ss ih =>
    refine (h s m valid).bind fun r m' onward held => ?_
    cases r with
    | none => exact ih (onward.valid valid)
    | some v =>
      dsimp only
      split
      · exact .pure held
      · exact ih (onward.valid valid)

mutual

theorem branch_follows {run : Block → Eval (Watch σ) (Option Value)}
    (h : ∀ e m, m.now.Valid → Follows m (eval e) Result)
    (hrun : ∀ b m, m.now.Valid → Follows m (inChild .empty (run b)) Result) :
    ∀ chain m, m.now.Valid → Follows m (branch eval run chain) Result
  | ⟨condition, body, next, _⟩, m, valid => by
    unfold branch
    refine (demandBoolean_follows h condition valid).bind fun holds m' onward _ => ?_
    cases holds with
    | true => exact hrun body m' (onward.valid valid)
    | false => exact otherwise_follows h hrun next m' (onward.valid valid)

theorem otherwise_follows {run : Block → Eval (Watch σ) (Option Value)}
    (h : ∀ e m, m.now.Valid → Follows m (eval e) Result)
    (hrun : ∀ b m, m.now.Valid → Follows m (inChild .empty (run b)) Result) :
    ∀ next m, m.now.Valid → Follows m (otherwise eval run next) Result
  | .done, m, _ => .pure (.none m)
  | .elif link, m, valid => by
    unfold otherwise
    exact branch_follows h hrun link m valid
  | .last body _, m, valid => hrun body m valid

end

theorem repeatWhile_follows {condition : Eval (Watch σ) Bool} {body : Eval (Watch σ) (Option Value)}
    (hcondition : ∀ m, m.now.Valid → Follows m condition fun _ _ => True)
    (hbody : ∀ m, m.now.Valid → Follows m body Result) (fuel : Nat) (valid : m.now.Valid) :
    Follows m (repeatWhile condition body fuel) Result := by
  induction fuel generalizing m with
  | zero => exact .outOfFuel
  | succ fuel ih =>
    refine (hcondition m valid).bind fun holds m₁ onward _ => ?_
    cases holds with
    | false => exact .pure (.none m₁)
    | true =>
      refine (hbody m₁ (onward.valid valid)).bind fun r m₂ onward' held => ?_
      cases r with
      | some v => exact .pure held
      | none => exact ih (onward'.valid (onward.valid valid))

theorem countFrom_follows (stop step : Number) {body : Number → Eval (Watch σ) (Option Value)}
    (hbody : ∀ x m, m.now.Valid → Follows m (body x) Result) (fuel : Nat) (counter : Number)
    (valid : m.now.Valid) : Follows m (countFrom stop step body fuel counter) Result := by
  induction fuel generalizing m counter with
  | zero => exact .outOfFuel
  | succ fuel ih =>
    unfold countFrom
    split
    · refine (hbody counter m valid).bind fun r m' onward held => ?_
      cases r with
      | some v => exact .pure held
      | none => exact ih _ (onward.valid valid)
    · exact .pure (.none m)

theorem count_follows {run : Block → Eval (Watch σ) (Option Value)}
    (h : ∀ e m, m.now.Valid → Follows m (eval e) Result)
    (hrun : ∀ b x m, m.now.Valid → Follows m (inChild (counterFrame x) (run b)) Result)
    (start stop step : Expr) (body : Block) (site : Site) (fuel : Nat) (valid : m.now.Valid) :
    Follows m (count eval run start stop step body site fuel) Result := by
  refine (demandNumber_follows h start valid).bind fun first m₁ onward _ => ?_
  have valid₁ := onward.valid valid
  refine (demandNumber_follows h stop valid₁).bind fun last m₂ onward _ => ?_
  have valid₂ := onward.valid valid₁
  refine (demandNumber_follows h step valid₂).bind fun increment m₃ onward _ => ?_
  have valid₃ := onward.valid valid₂
  have checked : Follows m₃ (check site (Operation.checkLoop first last increment))
      fun _ _ => True := .check fun _ _ => trivial
  refine checked.bind fun _ m₄ onward _ => .bind .note fun _ m₅ onward' _ => ?_
  exact countFrom_follows _ _ (hrun body) _ _ (onward'.valid (onward.valid valid₃))

/-! ## Calls -/

/-- The parameters are bound one by one, and each of them conforms to its type when the
next argument is evaluated and when the body starts. -/
theorem bindArguments_follows (h : ∀ e m, m.now.Valid → Follows m (eval e) Result)
    (function : String) (pairs : List (Parameter × Expr)) {frame : Frame}
    {types : Bindings TypeSpec} (held : frame.Valid m.world.heap)
    (typed : frame.Typed m.world.heap types) (valid : m.now.Valid) :
    Follows m (bindArguments eval function pairs frame) fun frame' m' =>
      frame'.Valid m'.world.heap ∧ frame'.Typed m'.world.heap
        ((pairs.map Prod.fst).foldl (fun types p => types.insert p.name p.type.spec) types) := by
  induction pairs generalizing m frame types with
  | nil => exact .pure ⟨held, typed⟩
  | cons pair rest ih =>
    obtain ⟨p, e⟩ := pair
    refine (demand_follows h e valid).bind fun v m₁ onward hv => .heap_bind ?_
    split
    · next conforms =>
      have adopted : Follows m₁ (modifyHeap (·.adopt v p.type.spec))
          fun _ m₂ => m₂.world.heap = m₁.world.heap.adopt v p.type.spec :=
        ⟨.of_change (.adopt hv conforms) rfl rfl, rfl⟩
      refine adopted.bind fun _ m₂ onward' same => ?_
      -- The parameters before this one are typed in the heap as it was, which has grown.
      have grows := (onward.trans onward').reaches.grows
      have fits := Heap.conforms_adopt hv conforms
      rw [← same] at fits
      exact ih ((held.grows grows).declare (onward'.holds hv))
        ((typed.grows held grows).declare fits.1 fits.2) ((onward.trans onward').valid valid)
    · exact .fail

theorem callFunction_follows {run : Block → Eval (Watch σ) (Option Value)}
    (h : ∀ e m, m.now.Valid → Follows m (eval e) Result)
    (hrun : ∀ b m, m.now.Valid → Follows m (run b) Result) (f : Function) (skipped : Nat)
    (args : List Expr) (site : Site) (valid : m.now.Valid) :
    Follows m (Watch.callFunction eval run f skipped args site)
      fun v m' => m'.world.heap.Holds v := by
  have arity : Follows m (check site (Operation.checkArity f.name f.parameters.length args.length))
      fun _ _ => f.parameters.length = args.length := by
    refine .check fun _ checked => ?_
    unfold Operation.checkArity at checked
    split at checked
    · next same => exact same
    · cases checked
  -- With as many arguments as parameters, the frame declares all parameters.
  refine arity.bind fun _ m₁ onward₁ same => .scope_bind (.bind .note fun _ m₂ onward₂ _ =>
    .bind .note fun _ m₃ onward₃ _ => ?_)
  have valid₃ := ((onward₁.trans onward₂).trans onward₃).valid valid
  have fresh : Frame.empty.Typed m₃.world.heap [] := fun _ _ found => nomatch found
  refine (bindArguments_follows h f.name _ (Frame.valid_empty _) fresh valid₃).bind
    fun frame m₄ onward₄ ⟨held, typed⟩ => ?_
  rw [List.map_fst_zip (Nat.le_of_eq same)] at typed
  have valid₄ := onward₄.valid valid₃
  have opened : Change m₄.now (m₄.enter skipped frame (parameterTypes f.parameters)).now :=
    .enter held typed
  refine (inFrame_follows held typed (hrun f.body _ (opened.valid valid₄))).bind
    fun r m₅ onward₅ hr => .heap_bind ?_
  split
  · exact .pure hr.getD
  · exact .fail

end Constructs

/-! ## Calls of the standard host -/

section Standard

variable {m : Machine (Watch Sink)}

theorem holds_of_given {heap : Heap} (sound : heap.Sound) {v : Value}
    (given : Standard.Given heap v) : heap.Holds v := by
  rcases given with plain | ⟨a, i, found⟩
  · exact Heap.holds_of_tag_ne plain
  · exact sound a v (Array.mem_of_getElem? found)

theorem reaches_of_effect {p : Moment} {args : List Value} {heap' : Heap}
    (held : ∀ v ∈ args, p.heap.Holds v) (effect : Standard.Effect args p.heap heap') :
    p.Reaches { p with heap := heap' } := by
  cases effect with
  | none => exact .refl
  | set given plain inside fits => exact .single (.setItem (held _ given) plain inside fits)
  | add target given plain fits =>
    exact .single (.addItem (held _ given) plain (held _ target _ rfl) fits)

theorem ask_follows {name : String} {args : List Value} {site : Site} (valid : m.now.Valid)
    (held : ∀ v ∈ args, m.world.heap.Holds v) :
    Follows m (ask Standard.host.watched name args site)
      fun reply m' => ∀ v, reply = .returned v → m'.world.heap.Holds v := by
  obtain ⟨scope, heap, ⟨types, aside, past, sink⟩, log⟩ := m
  unfold Follows
  simp only [ask, Host.watched]
  cases ran : Standard.host.call name args site ⟨heap, sink, log⟩ with
  | ok reply w =>
    obtain ⟨effect, given⟩ := Standard.call_ok ran
    have reaches : Moment.Reaches ⟨heap, scope, types, aside⟩ ⟨w.heap, scope, types, aside⟩ :=
      reaches_of_effect held effect
    refine ⟨⟨reaches, rfl, [], rfl, by simp, .nil⟩, fun v returned => ?_⟩
    exact reaches.grows.holds (holds_of_given valid.heap (given v returned))
  | error fault w =>
    have same : w.heap = heap := Standard.call_error ran
    refine .of_eq ?_ rfl
    simp only [Machine.now, same]

theorem callHost_follows (config : Config) {eval : Expr → Eval (Watch Sink) (Option Value)}
    (h : ∀ e m, m.now.Valid → Follows m (eval e) Result) (name : String) (args : List Expr)
    (site : Site) (valid : m.now.Valid) :
    Follows m (callHost Standard.host.watched config eval name args site) Result := by
  refine (demandAll_follows h args valid).bind fun vs m₁ onward held => ?_
  refine (ask_follows (onward.valid valid) held).bind fun reply m₂ onward' given => ?_
  cases reply with
  | returned v => exact .pure (.some (given v rfl))
  | finished => exact .pure (.none m₂)
  | unrecognized =>
    dsimp only
    cases config.unknownFunctions with
    | error => exact .fail
    | ignore => exact .bind .note fun _ m₃ _ _ => .pure (.none m₃)

theorem invoke_follows (config : Config) {eval : Expr → Eval (Watch Sink) (Option Value)}
    {run : Block → Eval (Watch Sink) (Option Value)}
    (h : ∀ e m, m.now.Valid → Follows m (eval e) Result)
    (hrun : ∀ b m, m.now.Valid → Follows m (run b) Result) (name : String) (args : List Expr)
    (site : Site) (valid : m.now.Valid) :
    Follows m (Watch.invoke Standard.host config eval run name args site) Result := by
  refine .scope_bind ?_
  cases m.scope.function? name with
  | none => exact callHost_follows config h name args site valid
  | some found =>
    obtain ⟨skipped, f⟩ := found
    exact (callFunction_follows h hrun f skipped args site valid).some

end Standard

/-! ## The evaluator -/

section Evaluator

variable (config : Config)

theorem typed_empty (heap : Heap) : Frame.empty.Typed heap [] :=
  fun _ _ found => nomatch found

/-- The counter of a counted loop is a number. -/
theorem typed_counterFrame (x : Number) (heap : Heap) :
    (counterFrame x).Typed heap counterTypes := by
  have known : heap.typeOf (.number x) ≠ .arrayOf .unknown := by
    simp [Heap.typeOf, TypeSpec.scalar, TypeSpec.arrayOf]
  have conforms : heap.conforms (.number x) (.scalar .number) = true := rfl
  exact (typed_empty heap).declare conforms known

theorem valid_counterFrame (x : Number) (heap : Heap) : (counterFrame x).Valid heap := by
  have held : heap.Holds (.number x) := Heap.holds_of_tag_ne (by simp [Value.tag])
  exact (Frame.valid_empty heap).declare held

mutual

/-- **Expressions go onward.** -/
theorem expr_follows : ∀ fuel e (m : Machine (Watch Sink)), m.now.Valid →
    Follows m (Watch.expr Standard.host config fuel e) Result
  | 0, _, _, _ => .outOfFuel
  | fuel + 1, e, m, valid => by
    have eval := expr_follows fuel
    have run : ∀ (b : Block) (m : Machine (Watch Sink)), m.now.Valid →
        Follows m (statements config (Watch.stmt Standard.host config fuel) b.statements) Result :=
      fun b m valid => statements_follows config (stmt_follows fuel) b.statements valid
    unfold Watch.expr
    refine looking_follows (.bind .note fun _ m₁ onward _ => ?_)
    have valid₁ : m₁.now.Valid := onward.valid valid
    cases e with
    | literal value site =>
      exact .pure (.some (Heap.holds_of_tag_ne (by cases value <;> simp [Literal.dataType])))
    | var name site => exact (lookup_follows name site valid₁).some
    | unary op operand site => exact (applyUnary_follows eval op operand site valid₁).some
    | binary op left right site => exact (applyBinary_follows eval op left right site valid₁).some
    | array elements site =>
      exact (demandAll_follows eval elements valid₁).bind fun vs m₂ _ held =>
        (newArray_follows held).some
    | call name args site => exact invoke_follows config eval run name args site valid₁

/-- **Statements go onward.** -/
theorem stmt_follows : ∀ fuel s (m : Machine (Watch Sink)), m.now.Valid →
    Follows m (Watch.stmt Standard.host config fuel s) Result
  | 0, _, _, _ => .outOfFuel
  | fuel + 1, s, m, valid => by
    have eval := expr_follows fuel
    have run : ∀ (b : Block) (m : Machine (Watch Sink)), m.now.Valid →
        Follows m (statements config (Watch.stmt Standard.host config fuel) b.statements) Result :=
      fun b m valid => statements_follows config (stmt_follows fuel) b.statements valid
    have inner : ∀ (b : Block) (m : Machine (Watch Sink)), m.now.Valid → Follows m (inChild .empty
        (inside [] (statements config (Watch.stmt Standard.host config fuel) b.statements)))
          Result :=
      fun b m valid => inChild_follows Frame.valid_empty typed_empty (run b) valid
    unfold Watch.stmt
    refine looking_follows (.bind .note fun _ m₁ onward _ => ?_)
    have valid₁ : m₁.now.Valid := onward.valid valid
    cases s with
    | declare type name nameSite value site =>
      have whole : Follows m₁ ((do declare _ type name value site; declared name type.spec) >>=
          fun _ => pure none) Result :=
        (declare_follows eval type name value site valid₁).bind fun _ m₂ _ _ => .pure (.none m₂)
      rwa [bind_assoc] at whole
    | reassign name nameSite value site =>
      exact (reassign_follows eval name nameSite value site valid₁).bind fun _ m₂ _ _ =>
        .pure (.none m₂)
    | define f =>
      exact ⟨.of_change .define rfl rfl, .none _⟩
    | call name args site => exact invoke_follows config eval run name args site valid₁
    | block body => exact inner body m₁ valid₁
    | branch chain => exact branch_follows eval inner chain m₁ valid₁
    | loop condition body site =>
      exact repeatWhile_follows (fun m valid => demandBoolean_follows eval condition valid)
        (inner body) fuel valid₁
    | count start stop step body site =>
      exact count_follows eval (fun b x m valid => inChild_follows (valid_counterFrame x)
        (typed_counterFrame x) (run b) valid) start stop step body site fuel valid₁
    | ret value site =>
      cases value with
      | some value => exact (demand_follows eval value valid₁).some
      | none => exact .pure (.some (Heap.holds_of_tag_ne (by simp [Value.tag])))
    | empty site => exact .pure (.none m₁)

end

theorem block_follows (fuel : Nat) (b : Block) (m : Machine (Watch Sink)) (valid : m.now.Valid) :
    Follows m (Watch.block Standard.host config fuel b) Result :=
  statements_follows config (stmt_follows config fuel) b.statements valid

end Evaluator

end Watch

/-- **Sequences of programs go onward.** -/
theorem Machine.onward_executeWatched (m : Machine (Watch Sink)) (valid : m.now.Valid)
    (runs : List Run) : Onward m (m.executeWatched Standard.host runs) := by
  induction runs generalizing m with
  | nil => exact .refl m
  | cons r runs ih =>
    have first : Onward m (Eval.final (Watch.block Standard.host r.config r.fuel r.program m)) := by
      have follows := Watch.block_follows r.config r.fuel r.program m valid
      unfold Watch.Follows at follows
      -- A run goes onward also if it fails.
      split at follows <;> rename_i result <;> rw [result]
      · exact follows.1
      · exact follows
    exact first.trans (ih _ (first.valid valid))

end Scriptlet
