import Scriptlet.Proofs.Append.Program
import Scriptlet.Proofs.Parser.Progress
import Scriptlet.Proofs.Report.Rows
import Scriptlet.Report

/-!
# Errors point into the source

Whatever ends a script points at a token of it, or at the first place where no token starts.
So a report can show the line, and the caret stands under it.

## Main definitions

* `Spot` — the site of a place in a source text that is not a line feed
* `Site.Within` — a site whose line and column exist in a source text
* `Report.Shows` — a report with the line of the error, or without if that is an empty last one

## Main statements

* `spot_of_mem_tokenize` — tokens start at spots
* `Program.fault_at_token` — faults are at tokens
* `Spot.within`, `Report.shows_of_spot` — spots are in the text, and their lines are shown
* `Program.error_pointing` — errors of a run

## Design decisions

* The evaluator makes no sites of its own.  That is used in this form: if sites are changed
  by a function that leaves those of the tokens alone, the program stays the same, and so
  the site of a fault is a value of that function.
-/

namespace Scriptlet

open Scan

/-! ## Spots -/

/-- **Spot.**  The site of the place behind `pre`, where no line feed stands. -/
structure Spot (source file : String) (site : Site) (pre post : List Char) : Prop where
  /-- The text in front of the place and the text from there on. -/
  text : source.toList = pre ++ post
  /-- No line feed stands there. -/
  inside : ∀ rest, post ≠ '\n' :: rest
  /-- The site is that of the place. -/
  site : site = .ofPosition file (Position.start.advanceBy pre)

/-- A piece that gives a token does not start with a line feed. -/
theorem Scan.Takes.ne_newline {cs w rest : List Char} {kind : TokenKind}
    (h : Takes cs w (.token kind)) : cs ≠ '\n' :: rest := by
  rintro rfl
  obtain ⟨c, w, rfl⟩ := List.exists_cons_of_ne_nil h.ne_nil
  obtain ⟨rfl, -⟩ := List.cons_prefix_cons.mp h.starts
  have same := h.spells.eq_newline List.mem_cons_self
  have meant := h.eq_meaning
  rw [same] at meant
  cases meant

/-- Tokens start at places in the text that are not line feeds. -/
theorem Scan.Cut.exists_place {cs rest : List Char} {pieces : List (List Char × Piece)}
    (h : Cut cs pieces rest) (finished : rest = []) {file : String} {p : Position} {t : Token}
    (mem : t ∈ tokens file p pieces) :
    ∃ pre post, cs = pre ++ post ∧ (∀ rest, post ≠ '\n' :: rest) ∧
      t.site = .ofPosition file (p.advanceBy pre) := by
  induction h generalizing p with
  | nil cs =>
    subst finished
    rw [List.mem_singleton.mp mem]
    exact ⟨[], [], rfl, fun rest => (List.cons_ne_nil '\n' rest).symm, rfl⟩
  | @cons w cs rest piece pieces first others ih =>
    have behind (mem : t ∈ tokens file (p.advanceBy w) pieces) :
        ∃ pre post, w ++ cs = pre ++ post ∧ (∀ rest, post ≠ '\n' :: rest) ∧
          t.site = .ofPosition file (p.advanceBy pre) := by
      obtain ⟨pre, post, same, inside, site⟩ := ih finished mem
      refine ⟨w ++ pre, post, by rw [same, List.append_assoc], inside, ?_⟩
      rw [site, Position.advanceBy_append]
    cases piece with
    | skipped => exact behind mem
    | token kind =>
      obtain rfl | mem := List.mem_cons.mp mem
      · exact ⟨[], w ++ cs, rfl, fun _ => first.ne_newline, rfl⟩
      · exact behind mem

/-- **Tokens start at spots.** -/
theorem spot_of_mem_tokenize {source file : String} {ts : List Token} {t : Token}
    (h : tokenize source file = .ok ts) (mem : t ∈ ts) :
    ∃ pre post, Spot source file t.site pre post := by
  obtain ⟨pieces, cut, rfl⟩ := tokenize_eq_ok_iff.mp h
  obtain ⟨pre, post, text, inside, site⟩ := cut.exists_place rfl mem
  exact ⟨pre, post, text, inside, site⟩

/-- Where no token starts there is no line feed, since that can be skipped. -/
theorem spot_of_stuck {source : String} {pieces : List (List Char × Piece)} {c : Char}
    {rest : List Char} (cut : Cut source.toList pieces (c :: rest)) (stuck : Stuck (c :: rest))
    (file : String) :
    Spot source file (.ofPosition file (Position.start.advanceBy (pieces.flatMap Prod.fst)))
      (pieces.flatMap Prod.fst) (c :: rest) where
  text := cut.eq_append
  inside rest' same := by
    rw [same] at stuck
    exact stuck _ _ .newline ⟨rest', rfl⟩
  site := rfl

/-! ## Faults -/

/-- Of two matching faults one is at the site that the function gives for the other. -/
theorem Program.Matches.site_eq {σ α : Type} {f : Site → Site} {e e' : RuntimeError}
    {m n : Machine σ}
    (h : Matches f (.error (.fault e) m : EStateM.Result Stop (Machine σ) α)
      (.error (.error (.runtime e')) n)) : e'.site = f e.site := by
  cases h
  rfl

/-- **Faults are at tokens.** -/
theorem Program.fault_at_token {source file : String} {b : Block} (parsed : Parsed source file b)
    {config : Config} {fuel : Nat} {sink : Sink} {log : Log} {e : RuntimeError}
    {m : Machine Sink}
    (failed : Eval.block Standard.host config fuel b (.start sink log) = .error (.fault e) m) :
    ∃ ts, tokenize source file = .ok ts ∧ ∃ t ∈ ts, t.site = e.site := by
  obtain ⟨pieces, cut, program⟩ := parsed.exists_cut
  refine ⟨_, tokenize_of_cut cut, ?_⟩
  -- Sites of tokens stay, and all others become that of the end token.
  let sites := (inner file .start pieces ++ [lastToken source file]).map Token.site
  let f (s : Site) : Site := if s ∈ sites then s else (lastToken source file).site
  have value (s : Site) : f s ∈ sites := by
    by_cases known : s ∈ sites
    · rwa [show f s = s from if_pos known]
    · rw [show f s = (lastToken source file).site from if_neg known]
      exact List.mem_map_of_mem (List.mem_append_right _ (List.mem_singleton_self _))
  have stays : (inner file .start pieces).map (Token.mapSites f) = inner file .start pieces := by
    refine (List.map_congr_left fun t mem => ?_).trans (List.map_id _)
    have known : t.site ∈ sites := List.mem_map_of_mem (List.mem_append_left _ mem)
    rw [Token.mapSites, show f t.site = t.site from if_pos known]
    rfl
  have same : b.statements.map (Stmt.mapSites f) = b.statements :=
    map_eq_of_tokens (fun t mem => (mem_inner mem).1) program.many program.many stays
  have matched := matches_statements f config fuel b.statements sink log log
  have ran : Eval.statements config (Eval.stmt Standard.host config fuel) b.statements
      (.start sink log) = .error (.fault e) m := failed
  rw [same, Program.ofEval, ran] at matched
  obtain ⟨t, mem, site⟩ := List.mem_map.mp (value e.site)
  exact ⟨t, mem, site.trans matched.site_eq.symm⟩

/-! ## Lines -/

/-- **Within a text.**  The line and the column of the site exist, where behind the end of a
row there is one more column. -/
structure Site.Within (source file : String) (site : Site) : Prop where
  /-- The file is the one that the text was given out as. -/
  file : site.file = file
  /-- Lines count from one. -/
  line_pos : 1 ≤ site.line
  /-- There is one more line than there are line feeds. -/
  line_le : site.line ≤ 1 + source.toList.count '\n'
  /-- Columns count from one. -/
  column_pos : 1 ≤ site.column
  /-- The column is in the row, or right behind it. -/
  column_le : ∃ row, (source.toList.splitOn '\n')[site.line - 1]? = some row ∧
    site.column ≤ row.length + 1

/-- **Shown.**  The report of an error has the row that it points at, except for a carriage
return at the end, and the caret under one of its characters or right behind them.  It has no
row only if the site is in an empty last one. -/
inductive Report.Shows (source : String) (e : Error) : Prop where
  /-- The row is shown. -/
  | row {row : List Char} {line : String} :
      (source.toList.splitOn '\n')[e.site.line - 1]? = some row →
      line.toList = row ∨ line.toList ++ ['\r'] = row →
      e.site.column - 1 ≤ line.length →
      render e source = "[FATAL ERROR] " ++ e.message ++ snippet e.site line →
      Shows source e
  /-- The last row is empty and not shown. -/
  | nothing : source = "" ∨ (∃ s, source = s ++ "\n") →
      e.site.line = 1 + source.toList.count '\n' → e.site.column = 1 →
      render e source = "[FATAL ERROR] " ++ e.message →
      Shows source e

/-- The line that a site points at is a shown row. -/
theorem Report.line?_eq {source : String} {site : Site} (h : 1 ≤ site.line) :
    line? site source =
      ((Text.shown (source.toList.splitOn '\n'))[site.line - 1]?).map String.ofList := by
  obtain ⟨row, rest, rows⟩ := List.exists_cons_of_ne_nil (List.splitOn_ne_nil '\n' source.toList)
  rw [line?, if_neg (by omega), Text.lines, Text.linesFrom_eq, List.getElem?_map, rows]
  rfl

section Spot

variable {source file : String} {site : Site} {pre post : List Char}
  (spot : Spot source file site pre post)

include spot

/-- **Spots are in the text.** -/
theorem Spot.within : site.Within source file := by
  obtain ⟨text, -, rfl⟩ := spot
  obtain ⟨rows, before, -, -, -, -, place⟩ := exists_rows pre post
  have inText := exists_row_of_place post place
  rw [← text] at inText
  rw [place]
  exact ⟨rfl, Nat.le_add_left 1 _, inText.1, Nat.le_add_left 1 _, inText.2⟩

/-- **The line of a spot is shown.** -/
theorem Report.shows_of_spot {e : Error} (same : e.site = site) : Shows source e := by
  have within := spot.within
  obtain ⟨text, inside, rfl⟩ := spot
  have line : line? e.site source = _ := line?_eq (same ▸ within.line_pos)
  have place : e.site.line = (Position.start.advanceBy pre).line ∧
      e.site.column = (Position.start.advanceBy pre).column := by
    rw [same]
    exact ⟨rfl, rfl⟩
  have shown := exists_line_of_place (rfl : Position.start.advanceBy pre = _) inside
  rw [← text, ← place.1, ← place.2] at shown
  obtain ⟨row, most, isRow, isLine, parts, caret⟩ | ⟨isNone, finished, last, first⟩ := shown
  · rw [isLine] at line
    refine .row isRow (by rwa [String.toList_ofList]) ?_ (by rw [render, line]; rfl)
    rwa [String.length_ofList]
  · rw [isNone] at line
    rw [finished, List.append_nil] at text
    refine .nothing ?_ last first ?_
    · obtain rfl | ⟨ds, rfl⟩ := eq_nil_or_of_column (place.2.symm.trans first)
      · exact .inl (String.toList_eq_nil_iff.mp text)
      · exact .inr ⟨String.ofList ds, String.toList_injective (by simp [text])⟩
    · rw [render, line]
      exact String.append_empty

end Spot

/-! ## Errors -/

/-- **Locating.**  The error is at a token of the source, or where the tokens end because no
rule of the language matches. -/
def Located (source file : String) (e : Error) : Prop :=
  (∃ ts, tokenize source file = .ok ts ∧ ∃ t ∈ ts, t.site = e.site) ∨
    ∃ l pieces c rest, e = .lex l ∧ Cut source.toList pieces (c :: rest) ∧ Stuck (c :: rest) ∧
      e.site = .ofPosition file (Position.start.advanceBy (pieces.flatMap Prod.fst))

/-- What is located is at a spot. -/
theorem Located.exists_spot {source file : String} {e : Error} (h : Located source file e) :
    ∃ pre post, Spot source file e.site pre post := by
  obtain ⟨ts, scanned, t, mem, same⟩ | ⟨l, pieces, c, rest, -, cut, stuck, same⟩ := h
  · rw [← same]
    exact spot_of_mem_tokenize scanned mem
  · rw [same]
    exact ⟨_, _, spot_of_stuck cut stuck file⟩

/-- A text that is not scanned has its error where no rule matches. -/
theorem located_of_lex {source file : String} {l : LexError}
    (h : tokenize source file = .error l) : Located source file (.lex l) := by
  obtain ⟨pieces, rest, cut, stuck, run⟩ :=
    scan_eq_cutResult file source.toList.length .start source.toList (Nat.le_refl _)
  have result : cutResult file .start pieces rest = .error l := by rw [← run, ← h]; rfl
  cases rest with
  | nil => cases result
  | cons c rest =>
    obtain rfl := Except.error.inj result
    refine .inr ⟨_, pieces, c, rest, rfl, cut, stuck, ?_⟩
    show (Scan.failure file _ c).site = _
    unfold Scan.failure
    split <;> rfl

/-- Parsing does not depend on the log. -/
theorem parse_eq_ok_of_log {ts : List Token} {log : Log} {b : Block} {c : Cursor}
    (regular : ∀ t ∈ ts, t.Regular) (h : Parser.start Parser.program ts log = .ok b c) :
    parse ts = .ok b := by
  obtain ⟨used, last, us, rfl, ended, program⟩ := Parser.program_ok regular (Nat.le_refl _) h
  exact Parser.parse_complete ended (fun t mem => regular t (List.mem_append_left _ mem)) program

/-- **Errors of a run are located.** -/
theorem Program.located {config : Config} {fuel : Nat} {source file : String} {sink : Sink}
    {log : Log} {e : Error} {m : Machine Sink}
    (failed : run Standard.host config fuel source file sink log = .error (.error e) m) :
    Located source file e := by
  change EStateM.bind (load source file) _ (.start sink log) = _ at failed
  unfold EStateM.bind load at failed
  cases scanned : tokenize source file with
  | error l =>
    rw [scanned] at failed
    cases failed
    exact located_of_lex scanned
  | ok ts =>
    obtain ⟨regular, ended⟩ := regular_and_ended scanned
    rw [scanned] at failed
    dsimp only at failed
    cases parsed : Parser.start Parser.program ts (log.add (.tokenized file ts.length)) with
    | error pe c =>
      rw [show (Machine.start sink log).world.log = log from rfl, parsed] at failed
      cases failed
      exact .inl ⟨ts, scanned, exists_token_of_parse_error ended parsed⟩
    | ok b c =>
      rw [show (Machine.start sink log).world.log = log from rfl, parsed] at failed
      have program : Parsed source file b := ⟨ts, scanned, parse_eq_ok_of_log regular parsed⟩
      change ofEval (Eval.block Standard.host config fuel b)
        (.start sink (c.log.add (.parsed file b.statements.length))) = _ at failed
      unfold ofEval at failed
      cases ran : Eval.block Standard.host config fuel b
          (.start sink (c.log.add (.parsed file b.statements.length))) with
      | ok v n =>
        rw [ran] at failed
        cases failed
      | error stop n =>
        rw [ran] at failed
        cases stop with
        | outOfFuel => cases failed
        | fault re =>
          cases failed
          exact .inl (fault_at_token program ran)

end Scriptlet
