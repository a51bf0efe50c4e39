import Scriptlet.Proofs.Scan.Lexeme
import Scriptlet.Proofs.Scan.Sites

/-!
# Writing texts as literals

Every text can be written as a literal, and reading the literal gives the text back.

## Main definitions

* `Scan.Rendered` — the ways to write a text between quotes
* `Scan.dangles` — resolving escapes comes to a backslash at the end

## Main statements

* `Scan.exists_rendered` — there is a way to write every text
* `Scan.Rendered.quoted` — what is written means the text
* `Scan.Quoted.dangles_eq_false` — between the quotes of a literal, backslashes pair off
* `tokenize_rendered` — literals are read back, and all literals are of this kind

## Design decisions

* A tab may be written as it is or by an escape, at every place as one likes.  So writing is a
  relation and not a function.
* Where a literal ends and what it means is said by two definitions, `Quoted` for the one and
  `unescape` for the other.  That they agree on every run of backslashes is `Quoted.unescape_eq`
  together with `Quoted.dangles_eq_false`.
-/

namespace Scriptlet

namespace Scan

/-- **Writing a text** between quotes.  The first argument is what is written, the second the
text: backslashes are doubled, a quote has a backslash in front, line feeds are written as
`\n`, and tabs as `\t` or as they are. -/
inductive Rendered : List Char → List Char → Prop where
  | nil : Rendered [] []
  | backslash {w s : List Char} (rest : Rendered w s) : Rendered ('\\' :: '\\' :: w) ('\\' :: s)
  | quote {w s : List Char} (rest : Rendered w s) : Rendered ('\\' :: '"' :: w) ('"' :: s)
  | newline {w s : List Char} (rest : Rendered w s) : Rendered ('\\' :: 'n' :: w) ('\n' :: s)
  | tab {w s : List Char} (rest : Rendered w s) : Rendered ('\\' :: 't' :: w) ('\t' :: s)
  | plain {c : Char} {w s : List Char} (other : c ∉ ['\\', '"', '\n']) (rest : Rendered w s) :
      Rendered (c :: w) (c :: s)

/-- There is a way to write every text. -/
theorem exists_rendered (s : List Char) : ∃ w, Rendered w s := by
  induction s with
  | nil => exact ⟨[], .nil⟩
  | cons c s ih =>
    obtain ⟨w, rest⟩ := ih
    by_cases other : c ∈ ['\\', '"', '\n']
    · simp only [List.mem_cons, List.not_mem_nil, or_false] at other
      rcases other with rfl | rfl | rfl
      · exact ⟨_, rest.backslash⟩
      · exact ⟨_, rest.quote⟩
      · exact ⟨_, rest.newline⟩
    · exact ⟨_, rest.plain other⟩

/-- **What is written means the text.** -/
theorem Rendered.quoted {w s : List Char} (written : Rendered w s) : Quoted w s := by
  induction written with
  | nil => exact .nil
  | backslash _ ih | quote _ ih | newline _ ih | tab _ ih => exact .escape (by decide) ih
  | plain other _ ih =>
    simp only [List.mem_cons, List.not_mem_nil, or_false, not_or] at other
    exact .plain other.2.1 other.1 other.2.2 ih

/-- Whether resolving escapes comes to a backslash that has nothing behind it. -/
def dangles : List Char → Bool
  | [] => false
  | ['\\'] => true
  | '\\' :: _ :: rest => dangles rest
  | _ :: rest => dangles rest

/-- **Backslashes pair off** between the quotes of a literal. -/
theorem Quoted.dangles_eq_false {w v : List Char} (inner : Quoted w v) : dangles w = false := by
  induction inner with
  | nil => rfl
  | plain quote backslash newline rest ih =>
    rw [dangles, ih]
    all_goals
      intros
      contradiction
  | escape newline rest ih => rw [dangles, ih]

/-- A piece that means a text is that text between quotes. -/
theorem Spells.exists_quoted {w : List Char} {v : String}
    (spells : Spells w (.token (.literal (.text v)))) :
    ∃ inner, w = '"' :: inner ++ ['"'] ∧ Quoted inner v.toList := by
  generalize means : Piece.token (.literal (.text v)) = p at spells
  cases spells with
  | @text inner s quoted =>
    obtain rfl : v = String.ofList s := by simpa using means
    exact ⟨inner, rfl, by rwa [String.toList_ofList]⟩
  | @fixed word kind mem =>
    obtain rfl : TokenKind.literal (.text v) = kind := Piece.token.inj means
    exact absurd mem List.not_mem_nil
  | whole | fraction | name | comment | newline | blanks => simp at means

/-- A literal alone is one token. -/
theorem Quoted.tokenize_eq {w : List Char} {s : String} (inner : Quoted w s.toList)
    (file : String) :
    let lexeme := String.ofList ('"' :: w ++ ['"'])
    tokenize lexeme file =
      .ok [.ofKind (.literal (.text s)) lexeme (.behind file []),
        .ofKind .endOfStream "" (.behind file lexeme.toList)] := by
  intro lexeme
  have text : lexeme.toList = '"' :: w ++ ['"'] := String.toList_ofList
  have spells := Spells.text inner
  rw [String.ofList_toList, ← text] at spells
  have taken := spells.takes (by simp)
  refine tokenize_eq_ok_iff.mpr ⟨_, taken.cut, ?_⟩
  rw [tokens, String.ofList_toList, Site.behind_eq, Site.behind_eq]
  rfl

end Scan

open Scan

/-- **Literals are read back.**  However a text is written between quotes, and there is a way to
write every text, what is read is one token, with the literal as its lexeme and the text as its
meaning.  Conversely, between the quotes of a text token of any source the backslashes pair off,
resolving escapes gives its meaning, and if this is written again it is read as a text token of
the same meaning. -/
theorem tokenize_rendered :
    (∀ s : String, ∃ w, Rendered w s.toList) ∧
    (∀ (s file : String) (w : List Char), Rendered w s.toList →
      let lexeme := String.ofList ('"' :: w ++ ['"'])
      tokenize lexeme file =
        .ok [.ofKind (.literal (.text s)) lexeme (.behind file []),
          .ofKind .endOfStream "" (.behind file lexeme.toList)]) ∧
    ∀ (source file : String) (ts : List Token) (t : Token) (v : String),
      tokenize source file = .ok ts → t ∈ ts → t.kind = .literal (.text v) →
        ∃ inner, t.lexeme = String.ofList ('"' :: inner ++ ['"']) ∧ Quoted inner v.toList ∧
          dangles inner = false ∧ unescape inner = v.toList ∧
          ∀ w, Rendered w v.toList →
            ∃ t' last, tokenize (String.ofList ('"' :: w ++ ['"'])) file = .ok [t', last] ∧
              t'.kind = .literal (.text v) ∧ last.kind = .endOfStream := by
  refine ⟨fun s => exists_rendered s.toList,
    fun s file w written => written.quoted.tokenize_eq file, ?_⟩
  intro source file ts t v scanned mem kind
  obtain ⟨pieces, cut, rfl⟩ := tokenize_eq_ok_iff.mp scanned
  rcases mem_tokens mem with ended | piece
  · rw [ended] at kind
    cases kind
  · rw [kind] at piece
    obtain ⟨inner, lexeme, quoted⟩ := (cut.exists_takes _ piece).spells.exists_quoted
    refine ⟨inner, String.toList_injective (lexeme.trans String.toList_ofList.symm), quoted,
      quoted.dangles_eq_false, quoted.unescape_eq, fun w written => ?_⟩
    exact ⟨_, _, written.quoted.tokenize_eq file, rfl, rfl⟩

end Scriptlet
