import Mathlib.Data.List.Basic
import OrderAdmission.Text.Blank

/-!
# Lines and words

How a text is made of lines, and a line of words. Both are said twice: as what is put together (`Ruled`,
`Laid`), and by the two functions that take a text apart.

**To take apart is to undo putting together** (`ruled_iff`, `laid_iff`): every text is made of lines in
exactly one way, and every line of words. Everything about the two functions follows from one equation each,
which says what they do at a line feed (`lines_append_newline`) and at white space (`words_append_blank`).
-/
namespace OrderAdmission.Text

/-! ### Words -/

/-- A piece of white space, maybe an empty one. -/
def Gap (cs : List Char) : Prop := ∀ c ∈ cs, isBlank c = true

/-- A word has characters, and none of them is white space. -/
structure Word (cs : List Char) : Prop where
  some : cs ≠ []
  solid : ∀ c ∈ cs, isBlank c = false

/-- The line is made of these words, with white space around them and between any two of them. -/
inductive Laid : List (List Char) → List Char → Prop where
  | gap {gap : List Char} (hgap : Gap gap) : Laid [] gap
  | last {gap word : List Char} (hgap : Gap gap) (hword : Word word) : Laid [word] (gap ++ word)
  | word {gap word rest : List Char} {c : Char} {ws : List (List Char)} (hgap : Gap gap)
      (hword : Word word) (hblank : isBlank c = true) (hrest : Laid ws rest) :
      Laid (word :: ws) (gap ++ (word ++ c :: rest))

/-- One character more in front of the first piece, which may be a word, and the words behind it. -/
def cutWord (c : Char) : List Char × List (List Char) → List Char × List (List Char) :=
  fun (word, rest) =>
    if isBlank c then ([], if word.isEmpty then rest else word :: rest) else (c :: word, rest)

theorem words_eq (cs : List Char) : words cs =
    if (cs.foldr cutWord ([], [])).1.isEmpty then (cs.foldr cutWord ([], [])).2
    else (cs.foldr cutWord ([], [])).1 :: (cs.foldr cutWord ([], [])).2 :=
  rfl

theorem foldr_cutWord_blank {c : Char} (hblank : isBlank c = true) (cs : List Char) :
    (c :: cs).foldr cutWord ([], []) = ([], words cs) := by
  rw [List.foldr_cons, words_eq, cutWord, if_pos hblank]

theorem foldr_cutWord_append (cs : List Char) (complete : List (List Char)) :
    cs.foldr cutWord ([], complete) =
      ((cs.foldr cutWord ([], [])).1, (cs.foldr cutWord ([], [])).2 ++ complete) := by
  induction cs with
  | nil => rfl
  | cons c rest ih =>
    rw [List.foldr_cons, List.foldr_cons, ih]
    simp only [cutWord]
    split
    · split <;> rfl
    · rfl

/-- **Words end at white space.** -/
theorem words_append_blank {c : Char} (hblank : isBlank c = true) (front back : List Char) :
    words (front ++ c :: back) = words front ++ words back := by
  rw [words_eq, List.foldr_append, foldr_cutWord_blank hblank, foldr_cutWord_append, words_eq front]
  split <;> rfl

theorem words_gap_append {gap : List Char} (hgap : Gap gap) (cs : List Char) :
    words (gap ++ cs) = words cs := by
  induction gap with
  | nil => rfl
  | cons c rest ih =>
    have hfirst := words_append_blank (hgap c List.mem_cons_self) [] (rest ++ cs)
    exact hfirst.trans (ih fun d hd => hgap d (List.mem_cons_of_mem c hd))

theorem words_gap {gap : List Char} (hgap : Gap gap) : words gap = [] := by
  have hall := words_gap_append hgap []
  rwa [List.append_nil] at hall

theorem words_word {word : List Char} (hword : Word word) : words word = [word] := by
  have hsolid : ∀ cs : List Char, (∀ c ∈ cs, isBlank c = false) → cs.foldr cutWord ([], []) = (cs, []) := by
    intro cs hcs
    induction cs with
    | nil => rfl
    | cons c rest ih =>
      rw [List.foldr_cons, ih fun d hd => hcs d (List.mem_cons_of_mem c hd)]
      simp [cutWord, hcs c List.mem_cons_self]
  rw [words_eq, hsolid word hword.solid]
  exact if_neg (by simpa using hword.some)

theorem Laid.words_eq {ws : List (List Char)} {line : List Char} (h : Laid ws line) :
    words line = ws := by
  induction h with
  | gap hgap => exact words_gap hgap
  | last hgap hword => rw [words_gap_append hgap, words_word hword]
  | word hgap hword hblank _ ih =>
    rw [words_gap_append hgap, words_append_blank hblank, words_word hword, ih]
    rfl

theorem Gap.nil : Gap [] := nofun

theorem gap_cons {c : Char} {gap : List Char} : Gap (c :: gap) ↔ isBlank c = true ∧ Gap gap :=
  List.forall_mem_cons

theorem Word.cons {c : Char} {word : List Char} (hsolid : isBlank c = false) (hword : Word word) :
    Word (c :: word) :=
  ⟨List.cons_ne_nil c word, List.forall_mem_cons.mpr ⟨hsolid, hword.solid⟩⟩

theorem Word.single {c : Char} (hsolid : isBlank c = false) : Word [c] :=
  ⟨List.cons_ne_nil c [], by simpa using hsolid⟩

theorem Laid.cons_blank {c : Char} {ws : List (List Char)} {line : List Char}
    (hblank : isBlank c = true) (h : Laid ws line) : Laid ws (c :: line) := by
  cases h with
  | gap hgap => exact .gap (gap_cons.mpr ⟨hblank, hgap⟩)
  | last hgap hword => exact .last (gap_cons.mpr ⟨hblank, hgap⟩) hword
  | word hgap hword hnext hrest => exact .word (gap_cons.mpr ⟨hblank, hgap⟩) hword hnext hrest

/-- Any other character in front of a line is a word of its own before white space, and else the beginning
of the first word. -/
theorem Laid.cons_solid {c : Char} {ws : List (List Char)} {line : List Char}
    (hsolid : isBlank c = false) (h : Laid ws line) : ∃ ws', Laid ws' (c :: line) := by
  cases h with
  | gap hgap =>
    cases line with
    | nil => exact ⟨_, .last .nil (.single hsolid)⟩
    | cons d gap =>
      obtain ⟨hblank, hgap⟩ := gap_cons.mp hgap
      exact ⟨_, .word .nil (.single hsolid) hblank (.gap hgap)⟩
  | @last gap word hgap hword =>
    cases gap with
    | nil => exact ⟨_, .last .nil (hword.cons hsolid)⟩
    | cons d gap =>
      obtain ⟨hblank, hgap⟩ := gap_cons.mp hgap
      exact ⟨_, .word .nil (.single hsolid) hblank (.last hgap hword)⟩
  | @word gap word rest e ws hgap hword hnext hrest =>
    cases gap with
    | nil => exact ⟨_, .word .nil (hword.cons hsolid) hnext hrest⟩
    | cons d gap =>
      obtain ⟨hblank, hgap⟩ := gap_cons.mp hgap
      exact ⟨_, .word .nil (.single hsolid) hblank (.word hgap hword hnext hrest)⟩

theorem exists_laid (line : List Char) : ∃ ws, Laid ws line := by
  induction line with
  | nil => exact ⟨[], .gap .nil⟩
  | cons c line ih =>
    obtain ⟨ws, hlaid⟩ := ih
    cases hc : isBlank c with
    | true => exact ⟨ws, hlaid.cons_blank hc⟩
    | false => exact hlaid.cons_solid hc

/-- **Every line is made of words in exactly one way.** -/
theorem laid_iff {ws : List (List Char)} {line : List Char} : Laid ws line ↔ words line = ws := by
  refine ⟨Laid.words_eq, ?_⟩
  rintro rfl
  obtain ⟨ws, hlaid⟩ := exists_laid line
  rw [hlaid.words_eq]
  exact hlaid

/-! ### Lines -/

/-- The text is made of these lines: each ends with a line feed, or with a carriage return and a line feed,
but the last line may also have neither, if it has any characters. A line has no line feed, and if it ends
with a carriage return, then only because a carriage return and a line feed stand behind it. -/
inductive Ruled : List (List Char) → List Char → Prop where
  | nil : Ruled [] []
  | last {line : List Char} (hsome : line ≠ []) (hline : '\n' ∉ line) : Ruled [line] line
  | ended {line rest : List Char} {ls : List (List Char)} (hline : '\n' ∉ line)
      (hreturn : line.getLast? ≠ some '\r') (hrest : Ruled ls rest) :
      Ruled (line :: ls) (line ++ '\n' :: rest)
  | returned {line rest : List Char} {ls : List (List Char)} (hline : '\n' ∉ line)
      (hrest : Ruled ls rest) : Ruled (line :: ls) (line ++ '\r' :: '\n' :: rest)

/-- One character more in front of the first piece, and the pieces behind it. -/
def cutLine (c : Char) : List Char × List (List Char) → List Char × List (List Char) :=
  fun (line, rest) => if c == '\n' then ([], line :: rest) else (c :: line, rest)

/-- The pieces between the line feeds, of which there is always one. -/
def pieces (cs : List Char) : List (List Char) :=
  (cs.foldr cutLine ([], [])).1 :: (cs.foldr cutLine ([], [])).2

/-- A line without the carriage return of its ending. -/
def dropReturn (line : List Char) : List Char :=
  if line.getLast? == some '\r' then line.dropLast else line

theorem lines_eq (cs : List Char) : lines cs =
    match (pieces cs).getLast? with
    | some (c :: last) => (pieces cs).dropLast.map dropReturn ++ [c :: last]
    | _ => (pieces cs).dropLast.map dropReturn :=
  rfl

theorem foldr_cutLine_append {line : List Char} (hline : '\n' ∉ line)
    (cut : List Char × List (List Char)) :
    line.foldr cutLine cut = (line ++ cut.1, cut.2) := by
  induction line with
  | nil => rfl
  | cons c rest ih =>
    obtain ⟨hc, hrest⟩ := List.ne_and_not_mem_of_not_mem_cons hline
    rw [List.foldr_cons, ih hrest, cutLine, if_neg (by simpa using Ne.symm hc)]
    rfl

theorem pieces_append_newline {line : List Char} (hline : '\n' ∉ line) (rest : List Char) :
    pieces (line ++ '\n' :: rest) = line :: pieces rest := by
  have hcut : ('\n' :: rest).foldr cutLine ([], []) = ([], pieces rest) := rfl
  rw [pieces, List.foldr_append, hcut, foldr_cutLine_append hline, List.append_nil]

theorem pieces_line {line : List Char} (hline : '\n' ∉ line) : pieces line = [line] := by
  rw [pieces, foldr_cutLine_append hline, List.append_nil]

/-- **A line ends at its line feed.** -/
theorem lines_append_newline {line : List Char} (hline : '\n' ∉ line) (rest : List Char) :
    lines (line ++ '\n' :: rest) = dropReturn line :: lines rest := by
  have hsome : pieces rest ≠ [] := List.cons_ne_nil _ _
  rw [lines_eq, lines_eq rest, pieces_append_newline hline, List.getLast?_cons_of_ne_nil hsome,
    List.dropLast_cons_of_ne_nil hsome, List.map_cons]
  split <;> rfl

theorem lines_line {line : List Char} (hline : '\n' ∉ line) (hsome : line ≠ []) :
    lines line = [line] := by
  obtain ⟨c, rest, rfl⟩ := List.exists_cons_of_ne_nil hsome
  rw [lines_eq, pieces_line hline]
  rfl

theorem Ruled.lines_eq {ls : List (List Char)} {text : List Char} (h : Ruled ls text) :
    lines text = ls := by
  induction h with
  | nil => rfl
  | last hsome hline => exact lines_line hline hsome
  | @ended line rest ls hline hreturn hrest ih =>
    rw [lines_append_newline hline, ih, dropReturn, if_neg (by simpa using hreturn)]
  | @returned line rest ls hline hrest ih =>
    have hreturn : '\n' ∉ line ++ ['\r'] := by simpa using hline
    have hassoc : line ++ '\r' :: '\n' :: rest = (line ++ ['\r']) ++ '\n' :: rest := by simp
    rw [hassoc, lines_append_newline hreturn, ih]
    simp [dropReturn]

theorem Ruled.cons {c : Char} {ls : List (List Char)} {text : List Char} (hc : c ≠ '\n')
    (h : Ruled ls text) : ∃ ls', Ruled ls' (c :: text) := by
  cases h with
  | nil => exact ⟨_, .last (List.cons_ne_nil c []) (by simpa using hc.symm)⟩
  | last hsome hline =>
    exact ⟨_, .last (List.cons_ne_nil c text) (List.not_mem_cons_of_ne_of_not_mem hc.symm hline)⟩
  | @ended line rest ls hline hreturn hrest =>
    have hmore : '\n' ∉ c :: line := List.not_mem_cons_of_ne_of_not_mem hc.symm hline
    by_cases hlast : (c :: line).getLast? = some '\r'
    · cases line with
      | nil =>
        obtain rfl : c = '\r' := by simpa using hlast
        exact ⟨_, .returned List.not_mem_nil hrest⟩
      | cons d line =>
        rw [List.getLast?_cons_of_ne_nil (List.cons_ne_nil d line)] at hlast
        exact absurd hlast hreturn
    · exact ⟨_, .ended hmore hlast hrest⟩
  | returned hline hrest =>
    exact ⟨_, .returned (List.not_mem_cons_of_ne_of_not_mem hc.symm hline) hrest⟩

theorem exists_ruled (text : List Char) : ∃ ls, Ruled ls text := by
  induction text with
  | nil => exact ⟨[], .nil⟩
  | cons c text ih =>
    obtain ⟨ls, hruled⟩ := ih
    by_cases hc : c = '\n'
    · rw [hc]
      exact ⟨_, .ended List.not_mem_nil nofun hruled⟩
    · exact hruled.cons hc

/-- **Every text is made of lines in exactly one way.** -/
theorem ruled_iff {ls : List (List Char)} {text : List Char} : Ruled ls text ↔ lines text = ls := by
  refine ⟨Ruled.lines_eq, ?_⟩
  rintro rfl
  obtain ⟨ls, hruled⟩ := exists_ruled text
  rw [hruled.lines_eq]
  exact hruled

end OrderAdmission.Text
