import Mathlib
import OrderAdmission.Proofs.Floor

/-!
# Spellings, remembered and read

Execution services report the status of an order in words of their own. Reading such a text takes two
steps: it is looked up among the texts that are remembered, and if it is not there it is reduced to a key.

**What is remembered never shows in an answer, only in the size of the memory.** `Remembers` is what a
cache and the texts read so far have to do with each other: the entries are readings of different texts
among them, and as long as there is room, of all of them. From it both the answers and the exact size can
be read off (`memory_is_transparent_and_bounded`).

**The stored name of a status stands for all its spellings.** A spelling may write each letter small or
capital, leave out underscores, put separators anywhere, and stand between white space of any kind
(`OrderStatus.Spells`). Only the space is both a separator and white space. So whether trimming takes a
separator away or the filter does, what is left of a spelling is its letters
(`filter_trim`), and these are small in the key.
-/
namespace OrderAdmission

namespace StatusCache

/-! ### What a cache remembers -/

def texts (c : StatusCache) : List String := c.entries.map Prod.fst

theorem length_texts (c : StatusCache) : c.texts.length = c.size := List.length_map _

/-- A cache that has read these texts, and no others: what it remembers are readings of different texts
among them, no more than there is room for, and all of them while there is room. -/
structure Remembers (c : StatusCache) (raws : List String) : Prop where
  faithful : c.Faithful
  size_le : c.size ≤ c.capacity
  nodup : c.texts.Nodup
  mem : ∀ raw ∈ c.texts, raw ∈ raws
  all : c.size < c.capacity → ∀ raw ∈ raws, raw ∈ c.texts

theorem read_capacity (c : StatusCache) (raw : String) : (c.read raw).2.capacity = c.capacity := by
  unfold read
  split
  · rfl
  · dsimp only
    split <;> rfl

theorem remembers_empty (capacity : Nat) : (empty capacity).Remembers [] where
  faithful := by
    intro raw known hknown
    cases hknown
  size_le := Nat.zero_le _
  nodup := List.nodup_nil
  mem := by
    intro raw hmem
    exact hmem
  all := by
    intro _ raw hmem
    cases hmem

namespace Remembers

variable {c : StatusCache} {raws : List String}

/-- A text that is remembered already, or for which there is no room, leaves the cache as it is. -/
theorem stays (h : c.Remembers raws) {raw : String} (hraw : c.size < c.capacity → raw ∈ c.texts) :
    c.Remembers (raws ++ [raw]) := by
  refine ⟨h.faithful, h.size_le, h.nodup, ?_, ?_⟩
  · intro other hother
    exact List.mem_append_left _ (h.mem other hother)
  · intro hroom other hother
    rcases List.mem_append.mp hother with hold | hnew
    · exact h.all hroom other hold
    · rw [List.mem_singleton.mp hnew]
      exact hraw hroom

/-- A new text is remembered while there is room. -/
theorem grows (h : c.Remembers raws) {raw : String} (hunknown : raw ∉ c.texts)
    (hroom : c.size < c.capacity) {c' : StatusCache} (hfaithful : c'.Faithful)
    (htexts : c'.texts = raw :: c.texts) (hcapacity : c'.capacity = c.capacity) :
    c'.Remembers (raws ++ [raw]) := by
  refine ⟨hfaithful, ?_, ?_, ?_, ?_⟩
  · rw [← length_texts, htexts, hcapacity, List.length_cons, length_texts]
    exact hroom
  · rw [htexts]
    exact List.nodup_cons.mpr ⟨hunknown, h.nodup⟩
  · intro other hother
    rw [htexts] at hother
    rcases List.mem_cons.mp hother with rfl | hold
    · exact List.mem_append_right _ List.mem_cons_self
    · exact List.mem_append_left _ (h.mem other hold)
  · intro _ other hother
    rw [htexts]
    rcases List.mem_append.mp hother with hold | hnew
    · exact List.mem_cons_of_mem _ (h.all hroom other hold)
    · exact List.mem_cons.mpr (.inl (List.mem_singleton.mp hnew))

theorem read (h : c.Remembers raws) (raw : String) :
    (c.read raw).2.Remembers (raws ++ [raw]) := by
  cases hlookup : c.entries.lookup raw with
  | some known =>
    have hknown : raw ∈ c.texts := by
      obtain ⟨before, after, hentries, -⟩ := List.lookup_eq_some_iff.mp hlookup
      simp [texts, hentries]
    simp only [StatusCache.read, hlookup]
    exact h.stays fun _ => hknown
  | none =>
    have hunknown : raw ∉ c.texts := by
      intro hmem
      obtain ⟨entry, hentry, rfl⟩ := List.mem_map.mp hmem
      simpa using List.lookup_eq_none_iff.mp hlookup entry hentry
    by_cases hroom : c.size < c.capacity
    · have hfaithful := (h.faithful.read raw).2
      simp only [StatusCache.read, hlookup, if_pos hroom] at hfaithful ⊢
      exact h.grows hunknown hroom hfaithful rfl rfl
    · simp only [StatusCache.read, hlookup, if_neg hroom]
      exact h.stays fun hroom' => absurd hroom' hroom

/-- **The size of a cache** is the number of different texts that it has read, up to its capacity. -/
theorem size_eq (h : c.Remembers raws) : c.size = min c.capacity raws.toFinset.card := by
  have hcard : c.texts.toFinset.card = c.size := by
    rw [List.toFinset_card_of_nodup h.nodup, length_texts]
  have hsub : c.texts.toFinset ⊆ raws.toFinset := by
    intro raw hraw
    exact List.mem_toFinset.mpr (h.mem raw (List.mem_toFinset.mp hraw))
  rcases Nat.lt_or_eq_of_le h.size_le with hroom | hfull
  · have hsup : raws.toFinset ⊆ c.texts.toFinset := by
      intro raw hraw
      exact List.mem_toFinset.mpr (h.all hroom raw (List.mem_toFinset.mp hraw))
    rw [← Finset.Subset.antisymm hsub hsup, hcard, Nat.min_eq_right h.size_le]
  · have hle : c.size ≤ raws.toFinset.card := hcard ▸ Finset.card_le_card hsub
    rw [← hfull, Nat.min_eq_left hle]

end Remembers

theorem readAll_snoc (c : StatusCache) (raws : List String) (raw : String) :
    c.readAll (raws ++ [raw]) = ((c.readAll raws).read raw).2 := by
  simp [readAll]

theorem remembers_readAll (capacity : Nat) (raws : List String) :
    ((empty capacity).readAll raws).Remembers raws ∧
      ((empty capacity).readAll raws).capacity = capacity := by
  induction raws using List.reverseRecOn with
  | nil => exact ⟨remembers_empty capacity, rfl⟩
  | append_singleton raws raw ih =>
    rw [readAll_snoc, read_capacity]
    exact ⟨ih.1.read raw, ih.2⟩

/-- **The memory of a cache is transparent and bounded.** Whatever has been read before, a text is read as
if it were the first one. After each reading as many texts are remembered as have been read, each counted
once, but no more than the capacity. -/
theorem memory_is_transparent_and_bounded (capacity : Nat) (raws : List String) (raw : String) :
    let c : StatusCache := (empty capacity).readAll raws
    (c.read raw).1 = OrderStatus.ofSpelling? raw ∧
      (c.read raw).2 = (empty capacity).readAll (raws ++ [raw]) ∧
      (c.read raw).2.size = min capacity (raws ++ [raw]).toFinset.card := by
  intro c
  obtain ⟨hremembers, hcapacity⟩ := remembers_readAll capacity raws
  refine ⟨(hremembers.faithful.read raw).1, (readAll_snoc _ raws raw).symm, ?_⟩
  rw [(hremembers.read raw).size_eq, read_capacity, hcapacity]

example : ((empty 3).readAll ["filled", "FILLED", "Filled", "filled ", "open", "live"]).size = 3 := by
  decide +kernel

end StatusCache

/-! ### Trimming and filtering -/

namespace Text

theorem trim_surrounded {before after : List Char} (cs : List Char)
    (hbefore : ∀ c ∈ before, isBlank c = true) (hafter : ∀ c ∈ after, isBlank c = true) :
    trim (before ++ cs ++ after) = trim cs := by
  have hfront : (before ++ cs ++ after).dropWhile isBlank = (cs ++ after).dropWhile isBlank := by
    rw [List.append_assoc, List.dropWhile_append, List.dropWhile_eq_nil_iff.mpr hbefore]
    rfl
  unfold trim
  rw [hfront, List.dropWhile_append]
  split
  · rename_i hblank
    -- The text is white space itself, and nothing is left of either.
    rw [List.dropWhile_eq_nil_iff.mpr hafter, List.isEmpty_iff.mp hblank]
  · have hback : ∀ c ∈ after.reverse, isBlank c = true := by
      intro c hc
      exact hafter c (List.mem_reverse.mp hc)
    rw [List.reverse_append, List.dropWhile_append, List.dropWhile_eq_nil_iff.mpr hback]
    rfl

theorem filter_dropWhile {p keep : Char → Bool} {cs : List Char}
    (h : ∀ c ∈ cs, p c = true → keep c = false) : (cs.dropWhile p).filter keep = cs.filter keep := by
  induction cs with
  | nil => rfl
  | cons c cs ih =>
    have hrest := ih fun c' hc' => h c' (List.mem_cons_of_mem _ hc')
    by_cases hdrop : p c = true
    · rw [List.dropWhile_cons_of_pos hdrop, hrest,
        List.filter_cons_of_neg (by simp [h c List.mem_cons_self hdrop])]
    · rw [List.dropWhile_cons_of_neg hdrop]

/-- Trimming takes nothing from a text that a filter keeps, if the filter drops its white space. -/
theorem filter_trim {keep : Char → Bool} {cs : List Char}
    (h : ∀ c ∈ cs, isBlank c = true → keep c = false) : (trim cs).filter keep = cs.filter keep := by
  have hback : ∀ c ∈ (cs.dropWhile isBlank).reverse, isBlank c = true → keep c = false := by
    intro c hc
    exact h c ((List.dropWhile_sublist _).subset (List.mem_reverse.mp hc))
  rw [trim, List.filter_reverse, filter_dropWhile hback, List.filter_reverse, List.reverse_reverse,
    filter_dropWhile h]

theorem eq_of_toLower_eq {c d : Char} (h : d.toLower = c.toLower) (hc : c.isAlpha = false) :
    d = c := by
  have hd : d.isAlpha = false := by
    rw [← Char.isAlpha_toLower_eq_isAlpha, h, Char.isAlpha_toLower_eq_isAlpha, hc]
  have hsame {c : Char} (hc : c.isAlpha = false) : c.toLower = c := by
    apply Char.toLower_eq_of_not_isUpper
    intro hupper
    simp [Char.isAlpha, hupper] at hc
  rw [← hsame hd, h, hsame hc]

/-- Characters that are the same letter, small or capital, have the same small letter. -/
theorem small_eq_of_toLower_eq {c d : Char} (h : d.toLower = c.toLower) : small d = small c := by
  by_cases hc : c.isAlpha = true
  · have hd : d.isAlpha = true := by
      rw [← Char.isAlpha_toLower_eq_isAlpha, h, Char.isAlpha_toLower_eq_isAlpha, hc]
    -- The Kelvin sign is none of these letters.
    have hkelvin {c : Char} (hc : c.isAlpha = true) : c ≠ Char.ofNat 0x212A := by
      rintro rfl
      exact absurd hc (by decide)
    rw [small, small, if_neg (hkelvin hd), if_neg (hkelvin hc), h]
  · rw [eq_of_toLower_eq h (by simpa using hc)]

theorem isBlank_of_isAlpha {c : Char} (h : c.isAlpha = true) : isBlank c = false := by
  simp only [Char.isAlpha, Char.isUpper, Char.isLower, UInt32.le_iff_toNat_le, Bool.or_eq_true,
    Bool.and_eq_true, decide_eq_true_eq, ge_iff_le, Char.reduceVal, UInt32.reduceToNat,
    Char.toNat_val] at h
  simp only [isBlank, Bool.or_eq_false_iff, Bool.and_eq_false_iff, decide_eq_false_iff_not,
    beq_eq_false_iff_ne]
  omega

end Text

namespace OrderStatus

/-! ### Spellings of a name -/

/-- A text that spells a name. -/
inductive Respells : List Char → List Char → Prop
  | done : Respells [] []
  /-- A character of the name, if it is a letter small or capital. -/
  | kept {c d : Char} {name text : List Char} (h : d.toLower = c.toLower)
      (rest : Respells name text) : Respells (c :: name) (d :: text)
  /-- An underscore of the name is left out. -/
  | dropped {name text : List Char} (rest : Respells name text) : Respells ('_' :: name) text
  /-- A separator that the name does not have. -/
  | inserted {d : Char} {name text : List Char} (h : isSeparator d = true)
      (rest : Respells name text) : Respells name (d :: text)

/-- **A spelling of a status**: its stored name, respelled, between white space. -/
def Spells (s : OrderStatus) (raw : String) : Prop :=
  ∃ before text after, raw.toList = before ++ text ++ after ∧
    (∀ c ∈ before, Text.isBlank c = true) ∧ (∀ c ∈ after, Text.isBlank c = true) ∧
    Respells s.name.toList text

theorem isSeparator_of_isAlpha {c : Char} (h : c.isAlpha = true) : isSeparator c = false := by
  have hne (separator : Char) (hsep : separator.isAlpha = false) : c ≠ separator := by
    rintro rfl
    exact absurd (h.symm.trans hsep) (by decide)
  simp [isSeparator, hne '_' rfl, hne '-' rfl, hne ' ' rfl]

/-- A letter is no separator in either case, and whatever else a name has stays as it is. -/
theorem isSeparator_eq_of_toLower_eq {c d : Char} (h : d.toLower = c.toLower) :
    isSeparator d = isSeparator c := by
  by_cases hc : c.isAlpha = true
  · have hd : d.isAlpha = true := by
      rw [← Char.isAlpha_toLower_eq_isAlpha, h, Char.isAlpha_toLower_eq_isAlpha, hc]
    rw [isSeparator_of_isAlpha hc, isSeparator_of_isAlpha hd]
  · rw [Text.eq_of_toLower_eq h (by simpa using hc)]

namespace Respells

variable {name text : List Char}

theorem isSeparator_of_isBlank (h : Respells name text)
    (hname : ∀ c ∈ name, Text.isBlank c = false) :
    ∀ d ∈ text, Text.isBlank d = true → isSeparator d = true := by
  induction h with
  | done =>
    intro d hd
    cases hd
  | @kept c d name text hcase _ ih =>
    intro d' hd' hblank
    rcases List.mem_cons.mp hd' with rfl | hrest
    · exfalso
      by_cases hc : d'.isAlpha = true
      · rw [Text.isBlank_of_isAlpha hc] at hblank
        cases hblank
      · have hsame := Text.eq_of_toLower_eq hcase.symm (by simpa using hc)
        rw [← hsame, hname c List.mem_cons_self] at hblank
        cases hblank
    · exact ih (fun c' hc' => hname c' (List.mem_cons_of_mem _ hc')) d' hrest hblank
  | dropped _ ih => exact ih fun c' hc' => hname c' (List.mem_cons_of_mem _ hc')
  | inserted hsep _ ih =>
    intro d' hd' hblank
    rcases List.mem_cons.mp hd' with rfl | hrest
    · exact hsep
    · exact ih hname d' hrest hblank

theorem letters (h : Respells name text) :
    (text.filter fun c => !isSeparator c).map Text.small =
      (name.filter fun c => !isSeparator c).map Text.small := by
  induction h with
  | done => rfl
  | @kept c d name text hcase _ ih =>
    have hsep := isSeparator_eq_of_toLower_eq hcase
    cases hc : isSeparator c with
    | true => simpa [hsep, hc] using ih
    | false => simpa [hsep, hc, Text.small_eq_of_toLower_eq hcase] using ih
  | dropped _ ih => simpa [isSeparator] using ih
  | inserted hsep _ ih => simpa [hsep] using ih

end Respells

/-- The key of a text between white space whose own white space are separators: its letters. -/
theorem spellingKey_surrounded {before text after : List Char}
    (hbefore : ∀ c ∈ before, Text.isBlank c = true) (hafter : ∀ c ∈ after, Text.isBlank c = true)
    (htext : ∀ c ∈ text, Text.isBlank c = true → isSeparator c = true) :
    spellingKey (before ++ text ++ after) =
      (text.filter fun c => !isSeparator c).map Text.small := by
  rw [spellingKey, Text.trim_surrounded text hbefore hafter, Text.filter_trim]
  intro c hc hblank
  rw [htext c hc hblank]
  rfl

theorem isBlank_name (s : OrderStatus) : ∀ c ∈ s.name.toList, Text.isBlank c = false := by
  cases s <;> simp [name, Text.isBlank]

theorem ofSpelling?_name (s : OrderStatus) : ofSpelling? s.name = some s := by
  cases s <;> decide +kernel

theorem Spells.spellingKey {s : OrderStatus} {raw : String} (h : s.Spells raw) :
    spellingKey raw.toList = OrderStatus.spellingKey s.name.toList := by
  obtain ⟨before, text, after, hraw, hbefore, hafter, hrespells⟩ := h
  have hname := isBlank_name s
  have hbare : OrderStatus.spellingKey ([] ++ s.name.toList ++ []) = _ :=
    spellingKey_surrounded (by simp) (by simp) (by simp_all)
  rw [List.nil_append, List.append_nil] at hbare
  rw [hraw, spellingKey_surrounded hbefore hafter (hrespells.isSeparator_of_isBlank hname),
    hrespells.letters, hbare]

theorem Spells.ofSpelling? {s : OrderStatus} {raw : String} (h : s.Spells raw) :
    ofSpelling? raw = some s := by
  rw [OrderStatus.ofSpelling?, h.spellingKey]
  exact ofSpelling?_name s

/-- **Every spelling of a status is read as that status**, whatever a cache has read before and however
much it remembers. So no text is a spelling of two statuses. -/
theorem spellings_are_read_as_their_status {s : OrderStatus} {raw : String} (h : s.Spells raw) :
    (∀ capacity raws, (((StatusCache.empty capacity).readAll raws).read raw).1 = some s) ∧
      ∀ other : OrderStatus, other.Spells raw → other = s := by
  constructor
  · intro capacity raws
    obtain ⟨hremembers, -⟩ := StatusCache.remembers_readAll capacity raws
    rw [(hremembers.faithful.read raw).1, h.ofSpelling?]
  · intro other hother
    exact Option.some.inj (hother.ofSpelling?.symm.trans h.ofSpelling?)

/-- A name in two words with a hyphen in front, between an ideographic space and the end of a line. -/
theorem partially_filled_in_two_words :
    let raw := "\u3000-Partially filled \n"
    partiallyFilled.Spells raw ∧
      (∀ capacity raws, (((StatusCache.empty capacity).readAll raws).read raw).1 =
        some partiallyFilled) ∧
      ∀ other : OrderStatus, other.Spells raw → other = partiallyFilled := by
  intro raw
  have hspells : partiallyFilled.Spells raw := by
    refine ⟨['\u3000'], "-Partially filled".toList, [' ', '\n'], by decide +kernel,
      by simp [Text.isBlank], by simp [Text.isBlank], ?_⟩
    exact .inserted rfl <| .kept rfl <| .kept rfl <| .kept rfl <| .kept rfl <| .kept rfl <|
      .kept rfl <| .kept rfl <| .kept rfl <| .kept rfl <| .dropped <| .inserted rfl <|
      .kept rfl <| .kept rfl <| .kept rfl <| .kept rfl <| .kept rfl <| .kept rfl .done
  exact ⟨hspells, spellings_are_read_as_their_status hspells⟩

end OrderStatus

end OrderAdmission
