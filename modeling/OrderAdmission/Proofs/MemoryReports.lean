import Mathlib.Logic.Relation
import OrderAdmission.MemInfo
import OrderAdmission.Proofs.LinesAndWords

/-!
# What counts in a memory report

A memory report is read line by line until both quantities are known. What is known so far may be lost
again, and what stands behind the last line that is read is never looked at.

**If neither name begins two lines, none of this can be told from the share**: it is a function of the two
numbers that the report tells (`Tells`), wherever they stand, and these are the same after any change of
the report that leaves the two lines their first two words (`Edit`).
-/
namespace OrderAdmission.MemInfo

open Text

/-! ### The two lines -/

/-- The names of the two quantities. -/
def totalKey : List Char := "MemTotal:".toList

def availableKey : List Char := "MemAvailable:".toList

/-- Whether the first word of a line is this name. -/
def headed (key line : List Char) : Bool := (words line).head? == some key

/-- Neither name is the first word of two lines. -/
structure Single (ls : List (List Char)) : Prop where
  total : ls.countP (headed totalKey) ≤ 1
  available : ls.countP (headed availableKey) ≤ 1

/-- The lines tell this number under this name: the name is the first word of a line, and its second word
is the number, in the range of 64-bit words. -/
def Tells (ls : List (List Char)) (key : List Char) (n : Nat) : Prop :=
  ∃ line ∈ ls, ∃ number more, Laid (key :: number :: more) line ∧
    Number.natural? number = some n ∧ n < UInt64.size

/-- One change of the lines of a report. -/
inductive Edit : List (List Char) → List (List Char) → Prop where
  /-- The lines come in another order. -/
  | permute {ls ls' : List (List Char)} (hperm : ls.Perm ls') : Edit ls ls'
  /-- A line comes in that begins with neither name. -/
  | insert {before after : List (List Char)} {line : List Char}
      (hother : headed totalKey line = false ∧ headed availableKey line = false) :
      Edit (before ++ after) (before ++ line :: after)
  /-- A line goes that begins with neither name. -/
  | remove {before after : List (List Char)} {line : List Char}
      (hother : headed totalKey line = false ∧ headed availableKey line = false) :
      Edit (before ++ line :: after) (before ++ after)
  /-- A line has other white space around its words. -/
  | respace {before after ws : List (List Char)} {line line' : List Char} (hline : Laid ws line)
      (hline' : Laid ws line') : Edit (before ++ line :: after) (before ++ line' :: after)
  /-- A line has other words after its second. -/
  | reword {before after more more' : List (List Char)} {first second line line' : List Char}
      (hline : Laid (first :: second :: more) line) (hline' : Laid (first :: second :: more') line') :
      Edit (before ++ line :: after) (before ++ line' :: after)

/-! ### Reading a line -/

def number? (line : List Char) : Option Nat := word? (words line)[1]?

theorem word?_eq_some_iff {w : Option (List Char)} {n : Nat} :
    word? w = some n ↔ ∃ cs, w = some cs ∧ Number.natural? cs = some n ∧ n < UInt64.size := by
  cases w with
  | none => simp [word?]
  | some cs => simp [word?, Option.filter_eq_some_iff]

theorem headed_and_number?_iff {key line : List Char} {n : Nat} :
    headed key line = true ∧ number? line = some n ↔ ∃ number more,
      Laid (key :: number :: more) line ∧ Number.natural? number = some n ∧ n < UInt64.size := by
  simp only [headed, number?, word?_eq_some_iff, laid_iff]
  match words line with
  | [] => simp
  | [first] => simp
  | first :: second :: more => simp

theorem tells_iff {ls : List (List Char)} {key : List Char} {n : Nat} :
    Tells ls key n ↔ ∃ line ∈ ls, headed key line = true ∧ number? line = some n := by
  simp only [Tells, headed_and_number?_iff]

/-- What is known of a quantity after one more line. -/
def told (key : List Char) (known : Option Nat) (line : List Char) : Option Nat :=
  if headed key line then number? line else known

theorem line_eq (f : Found) (line : List Char) :
    f.line line = ⟨told totalKey f.total line, told availableKey f.available line⟩ := by
  unfold Found.line told headed number?
  cases words line with
  | nil => rfl
  | cons first rest =>
    have hsecond : (first :: rest)[1]? = rest.head? := by cases rest <;> rfl
    have hdifferent : totalKey ≠ availableKey := by decide
    simp only [hsecond, List.head?_cons, Option.some_beq_some, beq_iff_eq]
    change (if first = totalKey then _ else if first = availableKey then _ else f) = _
    by_cases htotal : first = totalKey
    · rw [if_pos htotal, if_pos htotal, if_neg fun h => hdifferent (htotal.symm.trans h)]
    · rw [if_neg htotal, if_neg htotal]
      split <;> rfl

/-! ### Reading a report -/

/-- What the first line with this name tells. -/
def reading (key : List Char) (ls : List (List Char)) : Option Nat :=
  (ls.find? (headed key)).bind number?

/-- The lines still to be read tell a quantity at most once, and not at all if it is known. -/
structure Fresh (key : List Char) (known : Option Nat) (ls : List (List Char)) : Prop where
  once : ls.countP (headed key) ≤ 1
  done : known.isSome → ls.countP (headed key) = 0

section Reading

variable {key line : List Char} {known : Option Nat} {ls : List (List Char)}

theorem reading_of_none (hnone : ls.countP (headed key) = 0) : reading key ls = none := by
  have hfind : ls.find? (headed key) = none :=
    List.find?_eq_none.mpr fun line hline => by simpa using List.countP_eq_zero.mp hnone line hline
  rw [reading, hfind]
  rfl

theorem reading_eq_some_iff (honce : ls.countP (headed key) ≤ 1) {n : Nat} :
    reading key ls = some n ↔ Tells ls key n := by
  rw [tells_iff]
  constructor
  · intro h
    obtain ⟨line, hfind, hnumber⟩ := Option.bind_eq_some_iff.mp h
    exact ⟨line, List.mem_of_find?_eq_some hfind, List.find?_some hfind, hnumber⟩
  · rintro ⟨line, hline, hheaded, hnumber⟩
    obtain ⟨before, after, rfl⟩ := List.append_of_mem hline
    have hbefore : before.countP (headed key) = 0 := by
      rw [List.countP_append, List.countP_cons_of_pos hheaded] at honce
      omega
    rw [reading, List.find?_append, List.find?_eq_none.mpr (List.countP_eq_zero.mp hbefore),
      Option.none_or, List.find?_cons_of_pos hheaded]
    exact hnumber

theorem Fresh.of_headed (h : Fresh key known (line :: ls)) (hheaded : headed key line = true) :
    known = none ∧ ls.countP (headed key) = 0 := by
  obtain ⟨honce, hdone⟩ := h
  rw [List.countP_cons_of_pos hheaded] at honce hdone
  constructor
  · cases known with
    | none => rfl
    | some n => exact absurd (hdone rfl) (Nat.succ_ne_zero _)
  · omega

theorem Fresh.told (h : Fresh key known (line :: ls)) : Fresh key (told key known line) ls := by
  by_cases hheaded : headed key line = true
  · have hrest := (h.of_headed hheaded).2
    exact ⟨hrest ▸ Nat.zero_le 1, fun _ => hrest⟩
  · obtain ⟨honce, hdone⟩ := h
    rw [List.countP_cons_of_neg hheaded] at honce hdone
    rw [MemInfo.told, if_neg hheaded]
    exact ⟨honce, hdone⟩

theorem Fresh.or_reading (h : Fresh key known (line :: ls)) :
    (MemInfo.told key known line).or (reading key ls) = known.or (reading key (line :: ls)) := by
  by_cases hheaded : headed key line = true
  · obtain ⟨rfl, hrest⟩ := h.of_headed hheaded
    rw [MemInfo.told, if_pos hheaded, reading_of_none hrest, Option.or_none, Option.none_or, reading,
      List.find?_cons_of_pos hheaded]
    rfl
  · rw [MemInfo.told, if_neg hheaded, reading, reading, List.find?_cons_of_neg hheaded]

end Reading

/-- **Where nothing is told twice, to stop early is to read everything.** -/
theorem scan_eq {ls : List (List Char)} {f : Found} (htotal : Fresh totalKey f.total ls)
    (havailable : Fresh availableKey f.available ls) :
    scan ls f = ⟨f.total.or (reading totalKey ls), f.available.or (reading availableKey ls)⟩ := by
  induction ls generalizing f with
  | nil =>
    have hnone (key : List Char) : reading key [] = none := rfl
    rw [hnone, hnone, Option.or_none, Option.or_none]
    rfl
  | cons line rest ih =>
    rw [← htotal.or_reading, ← havailable.or_reading, scan, line_eq]
    split
    · rename_i hboth
      obtain ⟨hknown, hknown'⟩ := Bool.and_eq_true_iff.mp hboth
      rw [Option.or_of_isSome hknown, Option.or_of_isSome hknown']
    · exact ih htotal.told havailable.told

/-- **The share of a report in which nothing is told twice.** -/
theorem utilization_eq_some_iff {report : String} {ls : List (List Char)} (hlines : Ruled ls report.toList)
    (hsingle : Single ls) {share : Float} :
    utilization report = some share ↔ ∃ total available,
      Tells ls totalKey total ∧ Tells ls availableKey available ∧ 0 < total ∧
        share = 1.0 - Number.ofWord (min available total) / Number.ofWord total := by
  have hscan : scan ls ⟨none, none⟩ = ⟨reading totalKey ls, reading availableKey ls⟩ :=
    scan_eq ⟨hsingle.total, nofun⟩ ⟨hsingle.available, nofun⟩
  unfold utilization
  rw [hlines.lines_eq, hscan]
  simp only [← reading_eq_some_iff hsingle.total, ← reading_eq_some_iff hsingle.available]
  cases reading totalKey ls with
  | none => simp
  | some total =>
    cases reading availableKey ls with
    | none => simp
    | some available =>
      by_cases hpositive : 0 < total
      · simp [hpositive, eq_comm]
      · simp [hpositive]

/-! ### Changing a report -/

/-- Two reports say the same under a name. -/
structure Agree (key : List Char) (ls ls' : List (List Char)) : Prop where
  count : ls'.countP (headed key) = ls.countP (headed key)
  tells : ∀ n, Tells ls' key n ↔ Tells ls key n

section Agreeing

variable {key line line' : List Char} {ls ls' ls'' before after : List (List Char)}

theorem Agree.refl (key : List Char) (ls : List (List Char)) : Agree key ls ls :=
  ⟨rfl, fun _ => Iff.rfl⟩

theorem Agree.symm (h : Agree key ls ls') : Agree key ls' ls :=
  ⟨h.count.symm, fun n => (h.tells n).symm⟩

theorem Agree.trans (h : Agree key ls ls') (h' : Agree key ls' ls'') : Agree key ls ls'' :=
  ⟨h'.count.trans h.count, fun n => (h'.tells n).trans (h.tells n)⟩

theorem Agree.permute (hperm : ls.Perm ls') : Agree key ls ls' :=
  ⟨(hperm.countP_eq _).symm, fun n => by simp only [Tells, hperm.mem_iff]⟩

theorem Agree.insert (hother : headed key line = false) :
    Agree key (before ++ after) (before ++ line :: after) := by
  refine ⟨by simp [hother], fun n => ?_⟩
  simp only [tells_iff, List.mem_append, List.mem_cons]
  constructor
  · rintro ⟨l, hl | rfl | hl, hheaded, hnumber⟩
    · exact ⟨l, .inl hl, hheaded, hnumber⟩
    · rw [hother] at hheaded
      cases hheaded
    · exact ⟨l, .inr hl, hheaded, hnumber⟩
  · rintro ⟨l, hl, htells⟩
    exact ⟨l, hl.imp_right .inr, htells⟩

theorem Agree.change (hsame : (words line').take 2 = (words line).take 2) :
    Agree key (before ++ line :: after) (before ++ line' :: after) := by
  have hheaded : headed key line' = headed key line := by
    have hfirst : (words line').head? = (words line).head? := by
      simpa [List.head?_take] using congrArg List.head? hsame
    rw [headed, headed, hfirst]
  have hnumber : number? line' = number? line := by
    have hsecond := congrArg (·[1]?) hsame
    rw [List.getElem?_take_of_lt Nat.one_lt_two, List.getElem?_take_of_lt Nat.one_lt_two] at hsecond
    rw [number?, number?, hsecond]
  refine ⟨by simp [List.countP_cons, hheaded], fun n => ?_⟩
  simp only [tells_iff, List.mem_append, List.mem_cons, or_and_right, exists_or, exists_eq_left, hheaded,
    hnumber]

end Agreeing

/-- **No change touches what is told.** -/
theorem Edit.agree {ls ls' : List (List Char)} (hedit : Edit ls ls') :
    Agree totalKey ls ls' ∧ Agree availableKey ls ls' := by
  cases hedit with
  | permute hperm => exact ⟨.permute hperm, .permute hperm⟩
  | insert hother => exact ⟨.insert hother.1, .insert hother.2⟩
  | remove hother => exact ⟨.symm (.insert hother.1), .symm (.insert hother.2)⟩
  | respace hline hline' =>
    have hsame := congrArg (List.take 2) (hline'.words_eq.trans hline.words_eq.symm)
    exact ⟨.change hsame, .change hsame⟩
  | @reword before after more more' first second line line' hline hline' =>
    have hsame : (words line').take 2 = (words line).take 2 := by
      rw [hline.words_eq, hline'.words_eq]
      rfl
    exact ⟨.change hsame, .change hsame⟩

theorem agree_of_edits {ls ls' : List (List Char)} (hedits : Relation.ReflTransGen Edit ls ls') :
    Agree totalKey ls ls' ∧ Agree availableKey ls ls' := by
  induction hedits with
  | refl => exact ⟨.refl _ _, .refl _ _⟩
  | tail _ hedit ih => exact ⟨ih.1.trans hedit.agree.1, ih.2.trans hedit.agree.2⟩

/-- **The share depends on the two lines only.** If neither name is the first word of two lines of a report,
its share is known exactly if both numbers are told and the total is positive, and it is then one less the
quotient of what is available, at most the total, and the total. It stays as it is in every report that is
made from this one by any number of changes: the lines come in another order, lines that begin with neither
name come in or go, and lines get other white space around their words or other words after their second. -/
theorem share_depends_on_two_lines {report : String} {ls : List (List Char)}
    (hlines : Ruled ls report.toList) (hsingle : Single ls) :
    (∀ share, utilization report = some share ↔ ∃ total available,
      Tells ls totalKey total ∧ Tells ls availableKey available ∧ 0 < total ∧
        share = 1.0 - Number.ofWord (min available total) / Number.ofWord total) ∧
      ∀ report' ls', Ruled ls' report'.toList → Relation.ReflTransGen Edit ls ls' →
        utilization report' = utilization report := by
  refine ⟨fun share => utilization_eq_some_iff hlines hsingle, ?_⟩
  intro report' ls' hlines' hedits
  obtain ⟨htotal, havailable⟩ := agree_of_edits hedits
  have hsingle' : Single ls' :=
    ⟨htotal.count ▸ hsingle.total, havailable.count ▸ hsingle.available⟩
  refine Option.ext fun share => ?_
  rw [utilization_eq_some_iff hlines hsingle, utilization_eq_some_iff hlines' hsingle']
  simp only [htotal.tells, havailable.tells]

/-- The lines of a report in another order, with a line more, other white space and other words behind the
numbers. -/
theorem rearranged_report_tells_same_share :
    let report := "MemTotal:  16000000 kB\nMemAvailable:  4000000 kB\n"
    let report' := "Swap: 0 kB\r\nMemAvailable:\t4000000 of the pages\n MemTotal: 16000000 kB"
    let share := 1.0 - Number.ofWord (min 4000000 16000000) / Number.ofWord 16000000
    utilization report = some share ∧ utilization report' = some share := by
  intro report report' share
  let total := "MemTotal:  16000000 kB".toList
  let available := "MemAvailable:  4000000 kB".toList
  let swap := "Swap: 0 kB".toList
  let available' := "MemAvailable:\t4000000 of the pages".toList
  let total' := " MemTotal: 16000000 kB".toList
  have hlines : Ruled [total, available] report.toList := ruled_iff.mpr (by decide +kernel)
  have hlines' : Ruled [swap, available', total'] report'.toList := ruled_iff.mpr (by decide +kernel)
  have hsingle : Single [total, available] := ⟨by decide +kernel, by decide +kernel⟩
  obtain ⟨hknown, hsame⟩ := share_depends_on_two_lines hlines hsingle
  have htotal : Laid [totalKey, "16000000".toList, "kB".toList] total := laid_iff.mpr (by decide +kernel)
  have htotal' : Laid [totalKey, "16000000".toList, "kB".toList] total' :=
    laid_iff.mpr (by decide +kernel)
  have havailable : Laid [availableKey, "4000000".toList, "kB".toList] available :=
    laid_iff.mpr (by decide +kernel)
  have havailable' : Laid [availableKey, "4000000".toList, "of".toList, "the".toList, "pages".toList]
      available' := laid_iff.mpr (by decide +kernel)
  have hshare : utilization report = some share :=
    (hknown share).mpr ⟨16000000, 4000000,
      ⟨total, by simp, _, _, htotal, by decide +kernel, by decide⟩,
      ⟨available, by simp, _, _, havailable, by decide +kernel, by decide⟩, by decide, rfl⟩
  have hpermuted : Edit [total, available] [available, total] := .permute (.swap available total [])
  have hinserted : Edit ([] ++ [available, total]) ([] ++ swap :: [available, total]) :=
    .insert (by decide +kernel)
  have hreworded : Edit ([swap] ++ available :: [total]) ([swap] ++ available' :: [total]) :=
    .reword havailable havailable'
  have hrespaced : Edit ([swap, available'] ++ total :: []) ([swap, available'] ++ total' :: []) :=
    .respace htotal htotal'
  have hedits := (((Relation.ReflTransGen.single hpermuted).tail hinserted).tail hreworded).tail hrespaced
  exact ⟨hshare, (hsame report' _ hlines' hedits).trans hshare⟩

end OrderAdmission.MemInfo
