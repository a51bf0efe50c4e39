import Scriptlet.Program
import Scriptlet.Proofs.Append.Scan
import Scriptlet.Proofs.Host.Log

/-!
# Programs one behind the other

A text that consists of two programs with a line end between them runs as the two programs
in sequence.

## Main definitions

* `Parsed` — a source text has tokens, and these are a program
* `Eval.sequence` — two programs in one scope, the second one if the first has no result
* `Site.moved` — the site that a site of one file has further down in another one
* `Program.Matches` — a run with other sites

## Main statements

* `Eval.sequence_eq` — a sequence is the concatenation of the statements
* `Program.run_lines` — parsing and running two texts with a line end between them

## Design decisions

* Which sites come from the second text is told by parsing it under the name of a file of its
  own.  From that run both others arise by a function on sites: under the one name, and
  behind the first text.
-/

namespace Scriptlet

open Grammar Scan

variable {σ α : Type}

/-! ## Sites -/

namespace Site

/-- The site `k` lines further down. -/
def down (k : Nat) (s : Site) : Site := { s with line := s.line + k }

/-- The same place in another file. -/
def inFile (file : String) (s : Site) : Site := { s with file }

/-- What is in `mark` is in `file`, `k` lines further down.  Other sites stay. -/
def moved (mark file : String) (k : Nat) (s : Site) : Site :=
  if s.file = mark then ⟨file, s.line + k, s.column⟩ else s

theorem moved_inFile {mark file : String} (k : Nat) {s : Site} (here : s.file = file) :
    moved mark file k (inFile mark s) = down k s := by
  subst here
  exact if_pos rfl

theorem moved_of_ne {mark file : String} (other : mark ≠ file) (k : Nat) {s : Site}
    (here : s.file = file) : moved mark file k s = s := by
  subst here
  exact if_neg (Ne.symm other)

end Site

/-! ## Parsing -/

/-- **Parsed source.**  The text has tokens, and they are the given program. -/
def Parsed (source file : String) (b : Block) : Prop :=
  ∃ ts, tokenize source file = .ok ts ∧ parse ts = .ok b

/-- The token at the end of a source text. -/
def lastToken (source file : String) : Token :=
  endToken file (Position.start.advanceBy source.toList)

/-- A source text has the tokens of its pieces and the last one. -/
theorem tokenize_of_cut {source file : String} {pieces : List (List Char × Piece)}
    (cut : Cut source.toList pieces []) :
    tokenize source file = .ok (inner file .start pieces ++ [lastToken source file]) := by
  have whole : pieces.flatMap Prod.fst = source.toList := by
    rw [cut.eq_append, List.append_nil]
  rw [tokenize_eq_ok_iff.mpr ⟨pieces, cut, rfl⟩, tokens_eq_inner, whole, lastToken]

/-- **A parsed text** is cut up, and its tokens are those of the program. -/
theorem Parsed.exists_cut {source file : String} {b : Block} (h : Parsed source file b) :
    ∃ pieces, Cut source.toList pieces [] ∧
      Grammar.Program (lastToken source file) (inner file .start pieces) b := by
  obtain ⟨ts, scanned, parsed⟩ := h
  obtain ⟨pieces, cut, -⟩ := tokenize_eq_ok_iff.mp scanned
  rw [tokenize_of_cut cut] at scanned
  obtain rfl := Except.ok.inj scanned
  have regular : ∀ t ∈ inner file .start pieces ++ [lastToken source file], t.Regular := by
    intro t mem
    rcases List.mem_append.mp mem with mem | mem
    · exact (mem_inner mem).1
    · rw [List.mem_singleton.mp mem]
      rfl
  have noEnd : ∀ t ∈ inner file .start pieces, t.kind ≠ .endOfStream := by
    intro t mem ends
    obtain ⟨-, -, piece, isPiece, same⟩ := mem_inner mem
    exact cut.ne_endOfStream piece isPiece (same.trans (congrArg Piece.token ends))
  obtain ⟨used, last, us, split, ended, program⟩ := Parser.parse_sound regular parsed
  obtain ⟨rfl, rfl⟩ := append_eq_append_endOfStream noEnd ended split
  exact ⟨pieces, cut, program⟩

section Cut

variable {source file : String} {b : Block} {pieces : List (List Char × Piece)}
  (cut : Cut source.toList pieces [])
  (program : Grammar.Program (lastToken source file) (inner file .start pieces) b)

include cut program

theorem parsed_of_cut : Parsed source file b :=
  ⟨_, tokenize_of_cut cut, Parser.parse_complete rfl (fun _ mem => (mem_inner mem).1) program⟩

/-- A text that is cut up into the tokens of a program runs as the program, whatever the log
is. -/
theorem run_of_cut (host : Host σ) (config : Config) (fuel : Nat) (state : σ) (log : Log) :
    ∃ log', Program.run host config fuel source file state log =
      Program.ofEval (Eval.block host config fuel b) (.start state log') := by
  obtain ⟨log', read⟩ := Parser.program_reads program rfl (fun _ mem => (mem_inner mem).1)
    (Nat.le_refl _) (log.add (.tokenized file (inner file .start pieces ++
      [lastToken source file]).length))
  refine ⟨log'.add (.parsed file b.statements.length), ?_⟩
  have loaded : Program.load source file (.start state log) =
      .ok b (Machine.start state (log'.add (.parsed file b.statements.length))) := by
    unfold Program.load Parser.start
    rw [tokenize_of_cut cut]
    dsimp only
    rw [show (Machine.start state log).world.log = log from rfl, read]
    rfl
  show EStateM.bind (Program.load source file) _ (.start state log) = _
  unfold EStateM.bind
  rw [loaded]

end Cut

/-- Statements at other sites are those of the tokens at other sites. -/
theorem map_eq_of_tokens {ts us : List Token} {ss ss' : List Stmt} {f : Site → Site}
    (regular : ∀ t ∈ us, t.Regular) (many : Many Statement ts ss) (many' : Many Statement us ss')
    (same : ts.map (Token.mapSites f) = us) : ss.map (Stmt.mapSites f) = ss' :=
  many_unique regular (same ▸ many_moves f many) many'

section Moved

variable {file mark : String} {ts us : List Token} {ss ss' : List Stmt}
  (tokens : ∀ t ∈ ts ++ us, t.Regular ∧ t.site.file = file) (other : mark ≠ file)
  (first : Many Statement ts ss) (second : Many Statement us ss')

include tokens other first second

/-- When the second of two programs was in a file of its own, that file is moved. -/
theorem map_moved (k : Nat) :
    (ss ++ ss'.map (Stmt.mapSites (Site.inFile mark))).map
        (Stmt.mapSites (Site.moved mark file k)) =
      ss ++ ss'.map (Stmt.mapSites (Site.down k)) := by
  obtain ⟨tokens, tokens'⟩ := List.forall_mem_append.mp tokens
  have stays : ts.map (Token.mapSites (Site.moved mark file k)) = ts := by
    refine (List.map_congr_left fun t mem => ?_).trans (List.map_id ts)
    rw [Token.mapSites, Site.moved_of_ne other k (tokens t mem).2]
    rfl
  have goes : (us.map (Token.mapSites (Site.inFile mark))).map
      (Token.mapSites (Site.moved mark file k)) = us.map (Token.mapSites (Site.down k)) := by
    rw [List.map_map]
    refine List.map_congr_left fun t mem => ?_
    show Token.mk t.kind t.lexeme t.flags _ = _
    rw [Token.mapSites, Site.moved_inFile k (tokens' t mem).2]
    rfl
  have regular : ∀ t ∈ us.map (Token.mapSites (Site.down k)), t.Regular := by
    intro t mem
    obtain ⟨u, isToken, rfl⟩ := List.mem_map.mp mem
    exact (tokens' u isToken).1
  rw [List.map_append, map_eq_of_tokens (fun t mem => (tokens t mem).1) first first stays,
    map_eq_of_tokens regular (many_moves _ second) (many_moves _ second) goes]

end Moved

/-! ## Sequences -/

namespace Eval

/-- **Sequence** of two programs in one scope.  The second one runs only if the first one has
no result. -/
def sequence (host : Host σ) (config : Config) (fuel : Nat) (first second : Block) :
    Eval σ (Option Value) := do
  match ← block host config fuel first with
  | some v => return some v
  | none => block host config fuel second

theorem statements_append (config : Config) (exec : Stmt → Eval σ (Option Value))
    (ss ts : List Stmt) : statements config exec (ss ++ ts) = (do
      match ← statements config exec ss with
      | some v => return some v
      | none => statements config exec ts) := by
  induction ss with
  | nil => rw [List.nil_append, statements, pure_bind]
  | cons s ss ih =>
    rw [List.cons_append, statements, statements, bind_assoc]
    refine bind_congr fun r => ?_
    cases r with
    | none => exact ih
    | some v =>
      dsimp only
      split
      · rw [pure_bind]
      · exact ih

/-- **A sequence is the concatenation of the statements.** -/
theorem sequence_eq (host : Host σ) (config : Config) (fuel : Nat) (first second : Block) :
    sequence host config fuel first second =
      statements config (stmt host config fuel) (first.statements ++ second.statements) :=
  (statements_append config _ _ _).symm

end Eval

/-! ## Runs with other sites -/

namespace Program

/-- **Matching outcomes** of an evaluation and of a program, in states that are alike: the
same result, or the same fault at the site that `f` gives. -/
inductive Matches (f : Site → Site) :
    EStateM.Result Stop (Machine σ) α → EStateM.Result Halt (Machine σ) α → Prop where
  /-- Both succeed. -/
  | ok {m n : Machine σ} (a : α) : Alike f m n → Matches f (.ok a m) (.ok a n)
  /-- Both fail. -/
  | fault {m n : Machine σ} (fault : Fault) (site : Site) : Alike f m n →
      Matches f (.error (.fault ⟨fault, site⟩) m)
        (.error (.error (.runtime ⟨fault, f site⟩)) n)
  /-- Both run out of fuel. -/
  | outOfFuel {m n : Machine σ} : Alike f m n →
      Matches f (.error .outOfFuel m) (.error .outOfFuel n)

theorem matches_of_ends {f : Site → Site} {x y : Eval σ α} {m n : Machine σ}
    (h : Ends f (Alike f) (x m) (y n)) : Matches f (x m) (ofEval y n) := by
  unfold ofEval
  generalize x m = r at h
  generalize y n = r' at h
  cases h with
  | ok a alike => exact .ok a alike
  | error stop alike =>
    cases stop with
    | fault e => exact .fault e.fault e.site alike
    | outOfFuel => exact .outOfFuel alike

/-- **Statements at other sites** have matching outcomes. -/
theorem matches_statements (f : Site → Site) (config : Config) (fuel : Nat) (ss : List Stmt)
    (sink : Sink) (log log' : Log) :
    Matches f
      (Eval.statements config (Eval.stmt Standard.host config fuel) ss (.start sink log))
      (ofEval (Eval.statements config (Eval.stmt Standard.host config fuel)
        (ss.map (Stmt.mapSites f))) (.start sink log')) :=
  matches_of_ends
    ((simulation_alike f).congruence.statements
      (fun s _ => (simulation_alike f).framed.stmt config fuel s) _ _ (alike_start f sink log log'))

/-- The first `return` of two programs one behind the other. -/
theorem findIdx?_isReturn_append (f : Site → Site) (ss ts : List Stmt) :
    (ss ++ ts.map (Stmt.mapSites f)).findIdx? Stmt.isReturn =
      (ss.findIdx? Stmt.isReturn).or ((ts.findIdx? Stmt.isReturn).map (· + ss.length)) := by
  have same : Stmt.isReturn ∘ Stmt.mapSites f = Stmt.isReturn :=
    funext (Stmt.isReturn_mapSites f)
  rw [List.findIdx?_append, List.findIdx?_map, same]

theorem tokens_of_pieces (file : String) (pieces pieces' : List (List Char × Piece)) :
    ∀ t ∈ inner file .start pieces ++ inner file .start pieces',
      t.Regular ∧ t.site.file = file := by
  intro t mem
  rcases List.mem_append.mp mem with mem | mem
  · exact ⟨(mem_inner mem).1, (mem_inner mem).2.1⟩
  · exact ⟨(mem_inner mem).1, (mem_inner mem).2.1⟩

/-- What stands behind some statements does not matter if these have a result or fail. -/
theorem ends_append {f : Site → Site} {S : Machine σ → Machine σ → Prop} {config : Config}
    {exec : Stmt → Eval σ (Option Value)} {ss ts : List Stmt} {n : Machine σ}
    {r : EStateM.Result Stop (Machine σ) (Option Value)}
    (h : Ends f S r (Eval.statements config exec ss n)) (stopped : ∀ m, r ≠ .ok none m) :
    Ends f S r (Eval.statements config exec (ss ++ ts) n) := by
  rw [Eval.statements_append]
  show Ends f S r (EStateM.bind (Eval.statements config exec ss) _ n)
  unfold EStateM.bind
  generalize Eval.statements config exec ss n = r' at h
  cases h with
  | ok a related =>
    cases a with
    | none => exact absurd rfl (stopped _)
    | some v => exact .ok (some v) related
  | error e related => exact .error e related

/-- A sequence and the concatenation of the statements at other sites. -/
theorem matches_sequence (f : Site → Site) (config : Config) (fuel : Nat) (first second : Block)
    (sink : Sink) (log log' : Log) :
    Matches f (Eval.sequence Standard.host config fuel first second (.start sink log))
      (ofEval (Eval.statements config (Eval.stmt Standard.host config fuel)
        ((first.statements ++ second.statements).map (Stmt.mapSites f))) (.start sink log')) := by
  rw [Eval.sequence_eq]
  exact matches_statements f config fuel _ sink log log'

/-- The first of two programs does not get to the second one if it has a result or fails. -/
theorem matches_stopped {config : Config} {fuel : Nat} {first : Block} {sink : Sink} {log : Log}
    (stopped : ∀ m, Eval.block Standard.host config fuel first (.start sink log) ≠ .ok none m)
    (second : List Stmt) (log' : Log) :
    Matches id (Eval.block Standard.host config fuel first (.start sink log))
      (ofEval (Eval.statements config (Eval.stmt Standard.host config fuel)
        (first.statements ++ second)) (.start sink log')) := by
  have h := (simulation_alike id).framed.block config fuel first _ _
    (alike_start id sink log log')
  rw [Block.mapSites_id] at h
  exact matches_of_ends (ends_append h stopped)

/-- **Two programs in one text.**  If two texts are parsed, so is the text that consists of
them with a line end between: to the statements of the first and those of the second, which
are as many lines further down as the first one has.  Run by the standard host in a new
scope it does what the two programs do in sequence.  To tell the sites of the second program,
let it be parsed under the name of another file.  Then the results and the variables, arrays
and output at the end are the same for that sequence, for the whole text and for the sequence
of the programs as they are.  The sites of faults and functions are the same too, except that
those in the other file are in the one file, and for the whole text further down.  If the
first program ends with a value or fails, the whole text does just that. -/
theorem run_lines {s₁ s₂ file mark : String} {b₁ b₂ : Block} (first : Parsed s₁ file b₁)
    (second : Parsed s₂ file b₂) (other : mark ≠ file) :
    let lines := 1 + s₁.toList.count '\n'
    let tagged₂ := b₂.mapSites (Site.inFile mark)
    Parsed s₂ mark tagged₂ ∧
      ∃ b, Parsed (s₁ ++ "\n" ++ s₂) file b ∧
        b.statements = b₁.statements ++ (b₂.mapSites (Site.down lines)).statements ∧
        b.returnIndex? =
          b₁.returnIndex?.or (b₂.returnIndex?.map (· + b₁.statements.length)) ∧
        ∀ (config : Config) (fuel : Nat) (sink : Sink) (log : Log),
          let start := Machine.start sink log
          let whole := run Standard.host config fuel (s₁ ++ "\n" ++ s₂) file sink log
          let tagged := Eval.sequence Standard.host config fuel b₁ tagged₂ start
          let alone := Eval.block Standard.host config fuel b₁ start
          Matches (Site.moved mark file lines) tagged whole ∧
            Matches (Site.moved mark file 0) tagged
              (ofEval (Eval.sequence Standard.host config fuel b₁ b₂) start) ∧
            ((∃ m, alone = .ok none m) ∨ Matches id alone whole) := by
  intro lines tagged₂
  obtain ⟨pieces₁, cut₁, program₁⟩ := first.exists_cut
  obtain ⟨pieces₂, cut₂, program₂⟩ := second.exists_cut
  have cut : Cut (s₁ ++ "\n" ++ s₂).toList (pieces₁ ++ (['\n'], .skipped) :: pieces₂) [] := by
    have text : (s₁ ++ "\n" ++ s₂).toList = s₁.toList ++ '\n' :: s₂.toList := by simp
    rw [text]
    exact cut₁.lines cut₂
  have many : Many Statement (inner file .start (pieces₁ ++ (['\n'], .skipped) :: pieces₂))
      (b₁.statements ++ b₂.statements.map (Stmt.mapSites (Site.down lines))) := by
    have place : ∀ q, Site.down lines (.ofPosition file q) = .ofPosition file (q.down lines) :=
      fun _ => rfl
    rw [inner_lines cut₁ place]
    exact program₁.many.append (many_moves _ program₂.many)
  refine ⟨?_, _, parsed_of_cut cut (.intro many), ?_, ?_, ?_⟩
  · -- In the other file the text has the same pieces.
    have elsewhere : ∀ q, Site.inFile mark (.ofPosition file q) = .ofPosition mark (q.down 0) :=
      fun _ => rfl
    have moved := program₂.moves (Site.inFile mark)
    rw [← inner_down elsewhere] at moved
    exact parsed_of_cut cut₂ moved
  · rw [Block.statements_mapSites]
  · exact findIdx?_isReturn_append _ _ _
  · intro config fuel sink log start whole tagged alone
    obtain ⟨log', ran⟩ := run_of_cut cut (.intro many) Standard.host config fuel sink log
    have move := map_moved (tokens_of_pieces file pieces₁ pieces₂) other program₁.many program₂.many
    refine ⟨?_, ?_, ?_⟩
    · show Matches _ tagged whole
      have h := matches_sequence (Site.moved mark file lines) config fuel b₁ tagged₂ sink log log'
      rw [Block.statements_mapSites, move] at h
      rwa [show whole = _ from ran]
    · have stays : b₂.statements.map (Stmt.mapSites (Site.down 0)) = b₂.statements :=
        (List.map_congr_left fun s _ => s.mapSites_id).trans (List.map_id _)
      have h := matches_sequence (Site.moved mark file 0) config fuel b₁ tagged₂ sink log log
      rwa [Block.statements_mapSites, move, stays, ← Eval.sequence_eq] at h
    · by_cases stopped : ∀ m, alone ≠ .ok none m
      · right
        show Matches id alone whole
        rw [show whole = _ from ran]
        exact matches_stopped stopped _ log'
      · left
        simpa using stopped

/-- The texts `;` and `return x;`: the fault is at the variable, in the second line. -/
theorem run_lines_of_variable :
    let first : Block := ⟨[.empty ⟨"a", 1, 1⟩], ⟨"a", 1, 1⟩⟩
    let second : Block := ⟨[.ret (some (.var "x" ⟨"a", 1, 8⟩)) ⟨"a", 1, 1⟩], ⟨"a", 1, 1⟩⟩
    Parsed ";" "a" first ∧ Parsed "return x;" "a" second ∧ "b" ≠ "a" ∧
      ∃ b, Parsed (";" ++ "\n" ++ "return x;") "a" b ∧
        b.statements = [.empty ⟨"a", 1, 1⟩, .ret (some (.var "x" ⟨"a", 2, 8⟩)) ⟨"a", 2, 1⟩] := by
  intro first second
  have first_parsed : Parsed ";" "a" first := by
    refine ⟨[.ofKind (.mark .semicolon) ";" ⟨"a", 1, 1⟩,
      .ofKind .endOfStream "" ⟨"a", 1, 2⟩], ?_, rfl⟩
    decide +kernel
  have second_parsed : Parsed "return x;" "a" second := by
    refine ⟨[.ofKind (.keyword .returnWord) "return" ⟨"a", 1, 1⟩,
      .ofKind (.identifier "x") "x" ⟨"a", 1, 8⟩, .ofKind (.mark .semicolon) ";" ⟨"a", 1, 9⟩,
      .ofKind .endOfStream "" ⟨"a", 1, 10⟩], ?_, rfl⟩
    decide +kernel
  have other : "b" ≠ "a" := by decide
  obtain ⟨-, b, parsed, statements, -⟩ := run_lines first_parsed second_parsed other
  exact ⟨first_parsed, second_parsed, other, b, parsed, statements⟩

end Program

end Scriptlet
