import Scriptlet.Proofs.Return.Source
import Scriptlet.Proofs.Scope.Isolation

/-!
# Which return is blamed for a wrong result

A result that does not conform to the return type of its function is reported at the first
`return` among the statements of the body, or at the function if there is none.  That is the
`return` that gave the result if it stands among these statements itself.  If it stands deeper, in
a block, a branch or a loop, then another `return` is blamed, which was not executed, or none.

## Main definitions

* `Eval.WrongResult` — a `return` was executed that gave a value of the wrong type
* `Eval.BlamesSource` — all wrong results are reported at the `return` that gave them

## Main statements

* `Eval.returnSite_of_split` — the blamed site, seen from the statement that gave the result
* `Eval.wrongResult_site` — where a wrong result is reported
* `Eval.not_blamesSource` — not always at the `return` that gave it

## Design decisions

* A wrong result is told by the parts of the call, the passing of the arguments and the body.  An
  error alone does not tell whose it is: the body may have called the same function itself.
-/

namespace Scriptlet

namespace Eval

variable {σ : Type}

/-- **The blamed site**, seen from a statement of the body without a `return` in front of it. -/
theorem returnSite_of_split {f : Function} {before after : List Stmt} {t : Stmt}
    (split : f.body.statements = before ++ t :: after)
    (none : ∀ s ∈ before, s.isReturn = false) :
    returnSite f =
      if t.isReturn then t.site else ((after.find? Stmt.isReturn).map Stmt.site).getD f.site := by
  have skipped : before.find? Stmt.isReturn = Option.none := by
    rw [List.find?_eq_none]
    intro s mem
    simp [none s mem]
  unfold returnSite Block.return?
  rw [split, List.find?_append, skipped, Option.none_or, List.find?_cons]
  cases t.isReturn <;> rfl

/-- **Wrong result** of a call: the arguments are passed, and the body gives the value of `r`,
which comes from a `return` and does not conform to the return type. -/
structure WrongResult (host : Host σ) (config : Config) (fuel : Nat) (f : Function)
    (skipped : Nat) (args : List Expr) (site : Site) (m : Machine σ) (r : Sourced)
    (m' : Machine σ) : Prop where
  /-- The body is run and gives the value. -/
  ran : ∃ frame m₁, passArguments (expr host config fuel) f skipped args site m = .ok frame m₁ ∧
    inFrame skipped frame (Sourced.block host config fuel f.body) m₁ = .ok (some r) m'
  /-- The value comes from a `return`. -/
  executed : r.source.isReturn = true
  /-- The value does not conform to the return type. -/
  wrong : m'.world.heap.conforms r.value f.returnType.spec = false

variable {host : Host σ} {config : Config} {fuel : Nat} {f : Function} {skipped : Nat}
  {args : List Expr} {site : Site} {m m' : Machine σ} {r : Sourced}

/-- A wrong result is an error of the call. -/
theorem WrongResult.call_eq (h : WrongResult host config fuel f skipped args site m r m') :
    callFunction (expr host config fuel) (block host config fuel) f skipped args site m =
      .error (.fault ⟨.returnType f.name f.returnType.spec (m'.world.heap.typeOf r.value),
        returnSite f⟩) m' := by
  obtain ⟨⟨frame, m₁, passed, ran⟩, -, wrong⟩ := h
  have plain : inFrame skipped frame (block host config fuel f.body) m₁ =
      .ok (some r.value) m' := by
    rw [← Sourced.value_block, ← Structured.map_inFrame]
    show EStateM.map Sourced.bare _ m₁ = _
    unfold EStateM.map
    rw [ran]
    rfl
  rw [callFunction_eq_bind]
  show EStateM.bind _ _ m = _
  unfold EStateM.bind
  rw [passed]
  show EStateM.bind _ _ m₁ = _
  unfold EStateM.bind
  rw [plain]
  show (if m'.world.heap.conforms r.value f.returnType.spec then _ else _ : Eval σ Value) m' = _
  rw [wrong]
  rfl

/-- The statement of the body that a wrong result comes from. -/
theorem WrongResult.exists_split (h : WrongResult host config fuel f skipped args site m r m') :
    ∃ before t after, f.body.statements = before ++ t :: after ∧
      (∀ s ∈ before, s.isReturn = false) ∧ r.source.Inside t ∧
      (t.isReturn = true → r.source = t) := by
  obtain ⟨⟨frame, m₁, -, ran⟩, -, -⟩ := h
  unfold inFrame at ran
  dsimp only at ran
  split at ran
  · next body =>
    cases ran
    obtain ⟨before, t, after, m₂, split, gave, none⟩ := Sourced.statements_split host config body
    refine ⟨before, t, after, split, none, Sourced.stmt_gives host config fuel t _ _ _ gave, ?_⟩
    intro isReturn
    obtain ⟨v, same⟩ := Sourced.stmt_of_isReturn host config isReturn gave
    cases same
    rfl
  · cases ran

/-- **Where a wrong result is reported.**  The call fails, and the site of the error depends on the
statement of the body that the result comes from.  If that is the executed `return` itself, it is
the site.  If the executed `return` stands inside of it, the site is that of the first `return`
among the statements behind it, none of which was executed, or else of the function. -/
theorem wrongResult_site (h : WrongResult host config fuel f skipped args site m r m') :
    callFunction (expr host config fuel) (block host config fuel) f skipped args site m =
        .error (.fault ⟨.returnType f.name f.returnType.spec (m'.world.heap.typeOf r.value),
          returnSite f⟩) m' ∧
      ∃ before t after, f.body.statements = before ++ t :: after ∧
        (∀ s ∈ before, s.isReturn = false) ∧ r.source.Inside t ∧
        returnSite f = if t.isReturn then r.source.site
          else ((after.find? Stmt.isReturn).map Stmt.site).getD f.site := by
  refine ⟨h.call_eq, ?_⟩
  obtain ⟨before, t, after, split, none, inside, direct⟩ := h.exists_split
  refine ⟨before, t, after, split, none, inside, ?_⟩
  rw [returnSite_of_split split none]
  cases isReturn : t.isReturn with
  | true => rw [direct isReturn]
  | false => rfl

/-- The only statement of a function that should return a number returns a text, and is blamed. -/
theorem wrongResult_site_of_only_statement :
    let returned : Stmt := .ret (some (.literal (.text "a") ⟨"t.shel", 1, 18⟩)) ⟨"t.shel", 1, 11⟩
    let f : Function := ⟨"f", ⟨.num, false⟩, [], ⟨[returned], ⟨"t.shel", 1, 9⟩⟩, ⟨"t.shel", 1, 1⟩⟩
    let m : Machine Sink := .start (.ofLimit none) .silent
    callFunction (expr Standard.host {} 3) (block Standard.host {} 3) f 0 [] .unknown m =
      .error (.fault ⟨.returnType "f" (.scalar .number) (.scalar .text), returned.site⟩) m := by
  intro returned f m
  have h : WrongResult Standard.host {} 3 f 0 [] .unknown m ⟨.text "a", returned⟩ m :=
    ⟨⟨.empty, m, rfl, rfl⟩, rfl, rfl⟩
  exact (wrongResult_site h).1

/-- **All wrong results are reported at the `return` that gave them.** -/
def BlamesSource (host : Host σ) (config : Config) : Prop :=
  ∀ fuel f skipped args site m r m', WrongResult host config fuel f skipped args site m r m' →
    ∃ fault, callFunction (expr host config fuel) (block host config fuel) f skipped args site m =
      .error (.fault ⟨fault, r.source.site⟩) m'

/-- A function that should return a number.  It returns a text from a block, and behind that block
there is another `return`. -/
def misleading : Function :=
  let place (line column : Nat) : Site := ⟨"t.shel", line, column⟩
  let returned : Stmt := .ret (some (.literal (.text "a") (place 2 12))) (place 2 5)
  let behind : Stmt := .ret (some (.literal (.number 1) (place 3 10))) (place 3 3)
  ⟨"f", ⟨.num, false⟩, [], ⟨[.block ⟨[returned], place 2 3⟩, behind], place 1 9⟩, place 1 1⟩

/-- The result of that function is wrong under both settings for the results of blocks. -/
theorem misleading_wrongResult (results : BlockResults) :
    WrongResult Standard.host ⟨results, .error⟩ 4 misleading 0 [] .unknown
      (.start (.ofLimit none) .silent)
      ⟨.text "a", .ret (some (.literal (.text "a") ⟨"t.shel", 2, 12⟩)) ⟨"t.shel", 2, 5⟩⟩
      (.start (.ofLimit none) .silent) := by
  cases results <;> exact ⟨⟨.empty, .start (.ofLimit none) .silent, rfl, rfl⟩, rfl, rfl⟩

/-- **Not all wrong results are reported at the `return` that gave them**, whatever the setting
for the results of blocks: the `return` behind the block is blamed. -/
theorem not_blamesSource : ¬ BlamesSource Standard.host ⟨.firstValue, .error⟩ ∧
    ¬ BlamesSource Standard.host ⟨.explicitReturn, .error⟩ := by
  have differs (results : BlockResults) : ¬ BlamesSource Standard.host ⟨results, .error⟩ := by
    intro blames
    have h := misleading_wrongResult results
    obtain ⟨fault, blamed⟩ := blames _ _ _ _ _ _ _ _ h
    have same := h.call_eq.symm.trans blamed
    injection same with same
    injection same with same
    injection same with _ sites
    exact absurd sites (by decide)
  exact ⟨differs _, differs _⟩

end Eval

end Scriptlet
