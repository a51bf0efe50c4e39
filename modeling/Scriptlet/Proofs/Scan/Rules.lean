import Scriptlet.Proofs.Scan.Basic

/-!
# What the rules measure

Every rule of the scanner measures the longest piece that it spells: the length it
gives is that of a piece (`_spells`), and no piece of its kind at the start of a text
is longer (`_le`).

## Main statements

* `Scan.spells_of_mem_rules` — what a rule of the scanner takes is a piece
* `Scan.length_le_of_rules` — no piece reaches further than all rules
* `Scan.longest_eq_some` — the chosen rule reaches furthest
* `Scan.takes_of_piece?` — the scanner takes what maximal munch takes
* `Scan.stuck_of_piece?` — and it takes nothing only if there is nothing to take
-/

namespace Scriptlet

namespace Scan

/-! ## Runs -/

/-- The longest run of characters with a property at the start of a text. -/
theorem exists_run (q : Char → Bool) (cs : List Char) :
    ∃ w rest, cs = w ++ rest ∧ (∀ c ∈ w, q c) ∧ cs.takeWhile q = w :=
  ⟨cs.takeWhile q, cs.dropWhile q, List.takeWhile_append_dropWhile.symm,
    fun _ => List.mem_takeWhile_imp, rfl⟩

/-- Every run at the start of a text is part of the longest one. -/
theorem length_le_takeWhile {q : Char → Bool} {w cs : List Char} (all : ∀ c ∈ w, q c)
    (starts : w <+: cs) : w.length ≤ (cs.takeWhile q).length := by
  obtain ⟨rest, rfl⟩ := starts
  rw [List.takeWhile_append_of_pos all, List.length_append]
  exact Nat.le_add_right _ _

/-! ## Numbers -/

theorem digitCount_append {w rest : List Char} (run : (w ++ rest).takeWhile Char.isDigit = w) :
    digitCount (w ++ rest) = w.length := by
  rw [digitCount, run]

/-- A number goes on behind a point if there are more digits. -/
theorem numberLength_point {w behind : List Char} (ne : w ≠ [])
    (run : (w ++ '.' :: behind).takeWhile Char.isDigit = w) :
    numberLength (w ++ '.' :: behind) =
      if digitCount behind = 0 then w.length else w.length + 1 + digitCount behind := by
  have some : w.length ≠ 0 := by simpa using ne
  simp only [numberLength, digitCount_append run, if_neg some, List.drop_left]

/-- Without a point a number ends behind its first digits. -/
theorem numberLength_whole {w rest : List Char} (ne : w ≠ [])
    (run : (w ++ rest).takeWhile Char.isDigit = w) (point : rest.head? ≠ some '.') :
    numberLength (w ++ rest) = w.length := by
  have some : w.length ≠ 0 := by simpa using ne
  simp only [numberLength, digitCount_append run, if_neg some, List.drop_left]
  split
  · exact absurd rfl point
  · rfl

theorem number_spells {cs : List Char} (ne : numberLength cs ≠ 0) :
    Spells (cs.take (numberLength cs))
      (.token (.literal (.number (numberValue (cs.take (numberLength cs)))))) := by
  obtain ⟨w, rest, rfl, digits, run⟩ := exists_run Char.isDigit cs
  have some : w ≠ [] := by
    rintro rfl
    exact ne (if_pos (digitCount_append run))
  have whole : Spells ((w ++ rest).take w.length)
      (.token (.literal (.number (numberValue ((w ++ rest).take w.length))))) := by
    rw [List.take_left, numberValue_whole digits]
    exact .whole ⟨some, digits⟩
  by_cases point : rest.head? = Option.some '.'
  · obtain ⟨behind, rfl⟩ := List.head?_eq_some_iff.mp point
    obtain ⟨places, rest, rfl, digits', run'⟩ := exists_run Char.isDigit behind
    have reach := numberLength_point some run
    rw [digitCount_append run'] at reach
    by_cases none : places.length = 0
    -- A point with no digit behind it is left to the next piece.
    · rw [reach, if_pos none]
      exact whole
    · have size : numberLength (w ++ '.' :: (places ++ rest)) = (w ++ '.' :: places).length := by
        rw [reach, if_neg none, List.length_append, List.length_cons]
        omega
      rw [size, ← List.cons_append, ← List.append_assoc, List.take_left,
        numberValue_fraction digits digits']
      exact .fraction ⟨some, digits⟩ ⟨List.ne_nil_of_length_pos (Nat.pos_of_ne_zero none), digits'⟩
  · rw [numberLength_whole some run point]
    exact whole

theorem digitCount_le_numberLength (cs : List Char) : digitCount cs ≤ numberLength cs := by
  simp only [numberLength]
  split
  · omega
  · split
    · split
      all_goals omega
    · omega

theorem whole_le {w cs : List Char} (digits : IsDigits w) (starts : w <+: cs) :
    w.length ≤ numberLength cs :=
  (length_le_takeWhile digits.2 starts).trans (digitCount_le_numberLength cs)

theorem fraction_le {w places cs : List Char} (digits : IsDigits w) (digits' : IsDigits places)
    (starts : w ++ '.' :: places <+: cs) : (w ++ '.' :: places).length ≤ numberLength cs := by
  obtain ⟨rest, rfl⟩ := starts
  have run : (w ++ '.' :: (places ++ rest)).takeWhile Char.isDigit = w := by
    rw [List.takeWhile_append_of_pos digits.2]
    simp
  have more : places.length ≤ digitCount (places ++ rest) :=
    length_le_takeWhile digits'.2 (List.prefix_append places rest)
  have some : places.length ≠ 0 := by simpa using digits'.1
  rw [List.append_assoc, List.cons_append, numberLength_point digits.1 run, if_neg (by omega),
    List.length_append, List.length_cons]
  omega

/-! ## Texts -/

/-- What is measured behind the opening quote is quoted text and a quote. -/
theorem exists_quoted {cs : List Char} {n : Nat} (reach : textTail cs = some n) :
    ∃ w v rest, cs = w ++ '"' :: rest ∧ Quoted w v ∧ n = w.length + 1 := by
  -- The cases are those of `textTail`: in the last one the character is none of those
  -- that the cases before it are about.
  induction cs using textTail.induct generalizing n with
  | case1 | case3 | case4 | case5 => simp [textTail] at reach
  | case2 rest =>
    rw [textTail] at reach
    exact ⟨[], [], rest, rfl, .nil, (Option.some.inj reach).symm⟩
  | case6 c rest newline ih =>
    rw [textTail] at reach
    · obtain ⟨m, behind, rfl⟩ := Option.map_eq_some_iff.mp reach
      obtain ⟨w, v, rest, rfl, inner, rfl⟩ := ih behind
      exact ⟨'\\' :: c :: w, escaped c :: v, rest, rfl, .escape newline inner, rfl⟩
    · exact newline
  | case7 c rest quote newline last newline' escape ih =>
    have backslash : c ≠ '\\' := by
      intro eq
      cases rest with
      | nil => exact last eq rfl
      | cons d rest => exact escape d rest eq rfl
    rw [textTail] at reach
    · obtain ⟨m, behind, rfl⟩ := Option.map_eq_some_iff.mp reach
      obtain ⟨w, v, rest, rfl, inner, rfl⟩ := ih behind
      exact ⟨c :: w, c :: v, rest, rfl, .plain quote backslash newline inner, rfl⟩
    all_goals assumption

/-- Quoted text and a quote are measured, whatever comes behind. -/
theorem Quoted.textTail_eq {w v : List Char} (inner : Quoted w v) (rest : List Char) :
    textTail (w ++ '"' :: rest) = some (w.length + 1) := by
  induction inner with
  | nil => rfl
  | plain quote backslash newline inner ih =>
    rw [List.cons_append, textTail, ih]
    · rfl
    all_goals
      intros
      contradiction
  | escape newline inner ih =>
    rw [List.cons_append, List.cons_append, textTail, ih]
    · rfl
    · assumption

theorem textLength_quote (cs : List Char) :
    textLength ('"' :: cs) = ((textTail cs).map (· + 1)).getD 0 := rfl

theorem text_spells {cs : List Char} (ne : textLength cs ≠ 0) :
    Spells (cs.take (textLength cs))
      (.token (.literal (.text (textValue (cs.take (textLength cs)))))) := by
  have opening : ∃ behind, cs = '"' :: behind := by
    unfold textLength at ne
    split at ne
    · exact ⟨_, rfl⟩
    · exact absurd rfl ne
  obtain ⟨behind, rfl⟩ := opening
  cases reach : textTail behind with
  | none => simp [textLength_quote, reach] at ne
  | some n =>
    obtain ⟨w, v, rest, rfl, inner, rfl⟩ := exists_quoted reach
    have size : textLength ('"' :: (w ++ '"' :: rest)) = ('"' :: w ++ ['"']).length := by
      simp [textLength_quote, reach]
    have piece : '"' :: (w ++ '"' :: rest) = '"' :: w ++ ['"'] ++ rest := by simp
    rw [size, piece, List.take_left, inner.textValue_eq]
    exact .text inner

theorem text_le {w v cs : List Char} (inner : Quoted w v) (starts : '"' :: w ++ ['"'] <+: cs) :
    ('"' :: w ++ ['"']).length ≤ textLength cs := by
  obtain ⟨rest, rfl⟩ := starts
  have reach : textTail (w ++ ['"'] ++ rest) = some (w.length + 1) := by
    rw [List.append_assoc]
    exact inner.textTail_eq rest
  have size : textLength ('"' :: (w ++ ['"'] ++ rest)) = w.length + 1 + 1 := by
    rw [textLength_quote, reach]
    rfl
  rw [List.cons_append, List.cons_append, size]
  simp

/-! ## Words -/

theorem wordLength_cons {c : Char} (start : isNameStart c) (cs : List Char) :
    wordLength (c :: cs) = 1 + (cs.takeWhile isNamePart).length := if_pos start

theorem exists_start {cs : List Char} (ne : wordLength cs ≠ 0) :
    ∃ c rest, cs = c :: rest ∧ isNameStart c := by
  cases cs with
  | nil => exact absurd rfl ne
  | cons c rest =>
    by_cases start : isNameStart c
    · exact ⟨c, rest, rfl, start⟩
    · exact absurd (if_neg start) ne

theorem word_spells {cs : List Char} (ne : wordLength cs ≠ 0) :
    Spells (cs.take (wordLength cs)) (.token (wordMeaning (cs.take (wordLength cs)))) := by
  obtain ⟨c, rest, rfl, start⟩ := exists_start ne
  obtain ⟨w, rest, rfl, part, run⟩ := exists_run isNamePart rest
  have piece : (c :: (w ++ rest)).take (wordLength (c :: (w ++ rest))) = c :: w := by
    rw [wordLength_cons start, run, Nat.add_comm, List.take_succ_cons, List.take_left]
  rw [piece, wordMeaning]
  cases found : reserved.lookup (String.ofList (c :: w)) with
  | none => exact .name (by simpa [isNameStart] using start) (by simpa [isNamePart] using part)
  | some kind =>
    have entry := mem_spellings_of_mem_reserved (mem_reserved_of_lookup found)
    have word := Spells.fixed entry
    rwa [String.toList_ofList] at word

theorem word_meaning {cs : List Char} (ne : wordLength cs ≠ 0) :
    .token (wordMeaning (cs.take (wordLength cs))) = meaning (cs.take (wordLength cs)) := by
  obtain ⟨c, rest, rfl, start⟩ := exists_start ne
  rw [wordLength_cons start, Nat.add_comm, List.take_succ_cons]
  exact (meaning_of_isNameStart start _).symm

theorem name_le {c : Char} {w cs : List Char} (start : isNameStart c)
    (part : ∀ d ∈ w, isNamePart d) (starts : c :: w <+: cs) :
    (c :: w).length ≤ wordLength cs := by
  obtain ⟨rest, rfl⟩ := starts
  have run := length_le_takeWhile part (List.prefix_append w rest)
  rw [List.cons_append, wordLength_cons start, List.length_cons]
  omega

/-- Reserved words are names. -/
theorem exists_name_of_mem {word : String} {kind : TokenKind} (mem : (word, kind) ∈ reserved) :
    ∃ c w, word.toList = c :: w ∧ isNameStart c ∧ ∀ d ∈ w, isNamePart d := by
  have table : ∀ entry ∈ reserved, entry.1.toList ≠ [] ∧
      entry.1.toList.head?.all isNameStart ∧ entry.1.toList.tail.all isNamePart := by decide
  obtain ⟨ne, start, part⟩ := table _ mem
  obtain ⟨c, w, eq⟩ := List.exists_cons_of_ne_nil ne
  rw [eq] at start part
  exact ⟨c, w, eq, by simpa using start, by simpa using part⟩

/-! ## Signs and marks -/

theorem symbol_spells {w cs : List Char} {kind : TokenKind} (mem : (w, kind) ∈ symbols)
    (ne : (symbolRule w kind).length cs ≠ 0) :
    Spells (cs.take ((symbolRule w kind).length cs)) (.token kind) := by
  by_cases starts : w.isPrefixOf cs
  · have reach : (symbolRule w kind).length cs = w.length := if_pos starts
    have mark := Spells.fixed (mem_spellings_of_mem_symbols mem)
    rw [reach, ← List.prefix_iff_eq_take.mp (List.isPrefixOf_iff_prefix.mp starts)]
    rwa [String.toList_ofList] at mark
  · exact absurd (if_neg starts) ne

theorem symbol_le {w cs : List Char} (kind : TokenKind) (starts : w <+: cs) :
    w.length ≤ (symbolRule w kind).length cs :=
  Nat.le_of_eq (if_pos (List.isPrefixOf_iff_prefix.mpr starts)).symm

/-! ## What is skipped -/

theorem comment_spells {cs : List Char} (ne : commentLength cs ≠ 0) :
    Spells (cs.take (commentLength cs)) .skipped := by
  unfold commentLength at ne ⊢
  split at ne
  · rename_i behind
    obtain ⟨w, rest, rfl, line, run⟩ := exists_run (· != '\n') behind
    rw [run, Nat.add_comm, List.take_succ_cons, List.take_succ_cons, List.take_left]
    exact .comment fun c mem => by simpa using line c mem
  · exact absurd rfl ne

theorem comment_le {w cs : List Char} (line : ∀ c ∈ w, c ≠ '\n') (starts : '/' :: '/' :: w <+: cs) :
    ('/' :: '/' :: w).length ≤ commentLength cs := by
  obtain ⟨rest, rfl⟩ := starts
  have run := length_le_takeWhile (q := (· != '\n')) (fun c mem => by simpa using line c mem)
    (List.prefix_append w rest)
  show w.length + 1 + 1 ≤ 2 + ((w ++ rest).takeWhile (· != '\n')).length
  omega

theorem lineEnd_spells {cs : List Char} (ne : lineEndLength cs ≠ 0) :
    Spells (cs.take (lineEndLength cs)) .skipped := by
  unfold lineEndLength at ne ⊢
  split at ne
  · exact .newline
  · exact absurd rfl ne

theorem lineEnd_le {cs : List Char} (starts : ['\n'] <+: cs) : 1 ≤ lineEndLength cs := by
  obtain ⟨rest, rfl⟩ := starts
  exact Nat.le_refl 1

theorem blank_spells {cs : List Char} (ne : blankLength cs ≠ 0) :
    Spells (cs.take (blankLength cs)) .skipped := by
  obtain ⟨w, rest, rfl, blank, run⟩ := exists_run isBlank cs
  have size : blankLength (w ++ rest) = w.length := by rw [blankLength, run]
  rw [size] at ne ⊢
  rw [List.take_left]
  exact .blanks (List.ne_nil_of_length_pos (Nat.pos_of_ne_zero ne)) fun c mem =>
    by simpa [isBlank, or_assoc] using blank c mem

theorem blank_le {w cs : List Char} (blank : ∀ c ∈ w, c ∈ [' ', '\t', '\r', '\x0c'])
    (starts : w <+: cs) : w.length ≤ blankLength cs := by
  refine length_le_takeWhile ?_ starts
  intro c mem
  simpa [isBlank, or_assoc] using blank c mem

/-! ## All rules -/

/-- **Soundness.**  What a rule of the scanner takes is a piece, with the meaning that
the rule gives to it. -/
theorem spells_of_mem_rules {r : Rule} (mem : r ∈ rules) {cs : List Char} (ne : r.length cs ≠ 0) :
    Spells (cs.take (r.length cs)) (r.meaning (cs.take (r.length cs))) := by
  rcases List.mem_append.mp mem with mem | mem
  · simp only [List.mem_cons, List.not_mem_nil, or_false] at mem
    rcases mem with rfl | rfl | rfl | rfl | rfl | rfl
    · exact number_spells ne
    · exact text_spells ne
    · exact word_spells ne
    · exact comment_spells ne
    · exact lineEnd_spells ne
    · exact blank_spells ne
  · obtain ⟨⟨w, kind⟩, entry, rfl⟩ := List.mem_map.mp mem
    exact symbol_spells entry ne

/-- **Completeness.**  No piece at the start of a text reaches further than all rules of
the scanner. -/
theorem length_le_of_rules {w cs : List Char} {p : Piece} {n : Nat}
    (bound : ∀ r ∈ rules, r.length cs ≤ n) (spells : Spells w p) (starts : w <+: cs) :
    w.length ≤ n := by
  simp only [rules, List.forall_mem_append, List.forall_mem_cons] at bound
  obtain ⟨⟨number, text, word, comment, lineEnd, blank, -⟩, symbol⟩ := bound
  cases spells with
  | whole digits => exact (whole_le digits starts).trans number
  | fraction digits digits' => exact (fraction_le digits digits' starts).trans number
  | text inner => exact (text_le inner starts).trans text
  | @fixed _ kind mem =>
    rcases mem_tables_of_mem_spellings mem with entry | entry
    · obtain ⟨c, w, eq, start, part⟩ := exists_name_of_mem entry
      rw [eq] at starts ⊢
      exact (name_le start part starts).trans word
    · exact (symbol_le kind starts).trans (symbol _ (List.mem_map_of_mem entry))
  | name start part =>
    exact (name_le (by simpa [isNameStart] using start) (by simpa [isNamePart] using part)
      starts).trans word
  | comment line => exact (comment_le line starts).trans comment
  | newline => exact (lineEnd_le starts).trans lineEnd
  | blanks ne blanks => exact (blank_le blanks starts).trans blank

/-! ## The choice between the rules -/

/-- If no rule is chosen then no rule matches. -/
theorem length_eq_zero_of_longest {cs : List Char} {rs : List Rule} (none : longest cs rs = none) :
    ∀ r ∈ rs, r.length cs = 0 := by
  induction rs with
  | nil => simp
  | cons s rs ih =>
    rw [longest] at none
    split at none
    · split at none
      all_goals contradiction
    · rename_i others
      by_cases zero : s.length cs = 0
      · exact List.forall_mem_cons.mpr ⟨zero, ih others⟩
      · rw [if_neg zero] at none
        contradiction

/-- The chosen rule matches and reaches as far as any. -/
theorem longest_eq_some {cs : List Char} {rs : List Rule} {n : Nat} {r : Rule}
    (chosen : longest cs rs = some (n, r)) :
    r ∈ rs ∧ r.length cs = n ∧ n ≠ 0 ∧ ∀ r' ∈ rs, r'.length cs ≤ n := by
  induction rs generalizing n r with
  | nil => simp [longest] at chosen
  | cons s rs ih =>
    rw [longest] at chosen
    split at chosen
    -- A rule further on stays chosen only if this one does not reach as far.
    · rename_i m best others
      obtain ⟨mem, reach, ne, bound⟩ := ih others
      by_cases further : m ≤ s.length cs
      · rw [if_pos further] at chosen
        obtain ⟨rfl, rfl⟩ := Prod.mk.inj (Option.some.inj chosen)
        exact ⟨List.mem_cons_self, rfl, by omega, List.forall_mem_cons.mpr
          ⟨Nat.le_refl _, fun r' mem' => (bound r' mem').trans further⟩⟩
      · rw [if_neg further] at chosen
        obtain ⟨rfl, rfl⟩ := Prod.mk.inj (Option.some.inj chosen)
        exact ⟨List.mem_cons_of_mem s mem, reach, ne, List.forall_mem_cons.mpr
          ⟨Nat.le_of_not_le further, bound⟩⟩
    · rename_i others
      by_cases zero : s.length cs = 0
      · rw [if_pos zero] at chosen
        contradiction
      · rw [if_neg zero] at chosen
        obtain ⟨rfl, rfl⟩ := Prod.mk.inj (Option.some.inj chosen)
        exact ⟨List.mem_cons_self, rfl, zero, List.forall_mem_cons.mpr
          ⟨Nat.le_refl _, fun r' mem' => by simp [length_eq_zero_of_longest others r' mem']⟩⟩

/-- Every rule gives its pieces the meaning that their first character tells. -/
theorem meaning_of_mem_rules {r : Rule} (mem : r ∈ rules) {cs : List Char} (ne : r.length cs ≠ 0) :
    r.meaning (cs.take (r.length cs)) = meaning (cs.take (r.length cs)) := by
  have other (named : ∀ name, r.meaning (cs.take (r.length cs)) ≠ .token (.identifier name)) :
      r.meaning (cs.take (r.length cs)) = meaning (cs.take (r.length cs)) :=
    (spells_of_mem_rules mem ne).eq_meaning fun _ _ => named _
  -- Only the rule for words gives names, and it looks the word up first.
  rcases List.mem_append.mp mem with mem | mem
  · simp only [List.mem_cons, List.not_mem_nil, or_false] at mem
    rcases mem with rfl | rfl | rfl | rfl | rfl | rfl
    · exact other (by simp)
    · exact other (by simp)
    · exact word_meaning ne
    · exact other (by simp)
    · exact other (by simp)
    · exact other (by simp)
  · obtain ⟨⟨w, kind⟩, symbol, rfl⟩ := List.mem_map.mp mem
    refine other fun name named => ?_
    cases (Piece.token.inj named : kind = .identifier name)
    exact absurd (mem_spellings_of_mem_symbols symbol) List.not_mem_nil

/-- **The scanner takes what maximal munch takes.** -/
theorem takes_of_piece? {cs : List Char} {n : Nat} {p : Piece} (found : piece? cs = some (n, p)) :
    Takes cs (cs.take n) p := by
  obtain ⟨⟨m, r⟩, chosen, eq⟩ := Option.map_eq_some_iff.mp found
  obtain ⟨rfl, rfl⟩ := Prod.mk.inj eq
  obtain ⟨mem, rfl, ne, bound⟩ := longest_eq_some chosen
  refine ⟨List.take_prefix _ _, spells_of_mem_rules mem ne, ?_, ?_⟩
  -- The length that a rule gives could be more than the text has, were it not for the
  -- pieces: those that are compared stand in the text.
  · intro w' p' starts' spells'
    rw [List.length_take]
    exact Nat.le_min.mpr ⟨length_le_of_rules bound spells' starts', starts'.length_le⟩
  · intro word kind fixed eq
    rw [meaning_of_mem_rules mem ne, ← eq]
    exact meaning_of_mem_spellings fixed

/-- The scanner takes nothing only where there is nothing to take. -/
theorem stuck_of_piece? {cs : List Char} (found : piece? cs = none) : Stuck cs := by
  intro w p spells starts
  have zero := length_eq_zero_of_longest (Option.map_eq_none_iff.mp found)
  have := length_le_of_rules (n := 0) (fun r mem => Nat.le_of_eq (zero r mem)) spells starts
  exact spells.ne_nil (List.length_eq_zero_iff.mp (Nat.le_zero.mp this))

end Scan

end Scriptlet
