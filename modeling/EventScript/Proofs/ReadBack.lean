import EventScript.Proofs.NumberTexts
import EventScript.Proofs.Numerals

/-! Numbers survive being written as text. The shortest digits have the rank of the number,
and both notations spell them without change: positional digits, and one digit before the
point with an exponent that makes up for the rest. Neither has a blank in it, so blanks
around the text are all that trimming takes away. -/
namespace EventScript

namespace Text

theorem dropWhileRun {p : Char → Bool} {run cs : List Char} (all : ∀ c ∈ run, p c = true)
    (stops : ∀ c, cs.head? = some c → p c = false) : (run ++ cs).dropWhile p = cs := by
  rw [List.dropWhile_append_of_pos all]
  cases cs with
  | nil => rfl
  | cons c cs => rw [List.dropWhile_cons_of_neg (by simp [stops c rfl])]

theorem trimPadded {before cs after : List Char} (first : ∀ c ∈ before, isBlank c = true)
    (last : ∀ c ∈ after, isBlank c = true) (some : cs ≠ []) (solid : ∀ c ∈ cs, isBlank c = false) :
    trim (before ++ (cs ++ after)) = cs := by
  have start : ∀ c, (cs ++ after).head? = .some c → isBlank c = false := by
    obtain ⟨c, rest, rfl⟩ := List.exists_cons_of_ne_nil some
    rintro _ ⟨⟩
    exact solid c List.mem_cons_self
  have reversed : ∀ c ∈ after.reverse, isBlank c = true :=
    fun c member => last c (List.mem_reverse.mp member)
  have finish : ∀ c, cs.reverse.head? = .some c → isBlank c = false :=
    fun c found => solid c (List.mem_reverse.mp (List.mem_of_head? found))
  rw [trim, dropWhileRun first start, dropEndWhile, List.reverse_append,
    dropWhileRun reversed finish, List.reverse_reverse]

end Text

namespace Decimal
open Lexical

theorem splitsSignificand {cs ds fs : List Char} (h : Splits cs ds fs) :
    Significand cs (ofParts ds fs) := by
  obtain ⟨some, whole, fraction, joined⟩ := h
  cases fs with
  | nil =>
    rw [joined]
    exact .whole some whole
  | cons f fs =>
    rw [joined]
    exact .pointed some whole fraction

theorem spellsWhole {sign cs : List Char} {negative : Bool} {d : Decimal}
    (signed : Sign sign negative) (significand : Significand cs d) :
    Spells (sign ++ cs) (d.toNumber negative) := by
  have whole := Spells.mk signed significand .none
  rwa [List.append_nil, shiftZero] at whole

theorem positionalSpells {sign : List Char} {negative : Bool} {d : Decimal}
    (signed : Sign sign negative) (some : d.digits ≠ 0) (finite : d.rank < Number.top) :
    Spells (sign ++ d.positional) (d.toNumber negative) := by
  obtain ⟨ds, fs, splits, same⟩ := positionalSplits some finite
  have spells := spellsWhole signed (splitsSignificand splits)
  rwa [toNumber, same] at spells

/- The first digit before the point, the others behind it. -/
def lead (cs : List Char) : List Char :=
  match cs.drop 1 with
  | [] => cs
  | rest => cs.take 1 ++ '.' :: rest

def powerMark (plus : Bool) (exponent : Int) : List Char :=
  if exponent < 0 then ['e', '-'] else if plus then ['e', '+'] else ['e']

theorem scientificParts (plus : Bool) (d : Decimal) :
    d.scientific plus = lead d.digitChars ++
      (powerMark plus (d.exponent + d.digitChars.length - 1) ++
        Nat.toDigits 10 (d.exponent + d.digitChars.length - 1).natAbs) := by
  rw [← List.append_assoc]
  rfl

theorem leadSignificand {cs : List Char} (some : cs ≠ []) (digits : ∀ c ∈ cs, IsDigit c) :
    Significand (lead cs) ⟨ofDigits cs, 1 - cs.length⟩ := by
  obtain ⟨c, rest, rfl⟩ := List.exists_cons_of_ne_nil some
  cases rest with
  | nil => exact .whole some digits
  | cons r rest =>
    have parts := Significand.pointed (List.cons_ne_nil c []) (List.forall_mem_singleton.mpr
      (digits c List.mem_cons_self)) fun x member => digits x (List.mem_cons_of_mem c member)
    have places : -((r :: rest).length : Int) = 1 - ((c :: r :: rest).length : Int) := by
      simp only [List.length_cons]
      omega
    rwa [ofParts, places] at parts

theorem naturalDigits (n : Nat) : ∀ c ∈ Nat.toDigits 10 n, IsDigit c := by
  intro c member
  exact (Lexer.digitIff c).mp (Nat.isDigit_of_mem_toDigits (by decide) (by decide) member)

theorem powerExponent (plus : Bool) (e : Int) :
    Exponent (powerMark plus e ++ Nat.toDigits 10 e.natAbs) e := by
  have digits := naturalDigits e.natAbs
  have some : Nat.toDigits 10 e.natAbs ≠ [] := Nat.toDigits_ne_nil
  have value := ofDigitsToDigits e.natAbs
  have power {sign : List Char} {negative : Bool} (signed : Sign sign negative)
      (same : (if negative then -(e.natAbs : Int) else e.natAbs) = e) :
      Exponent ('e' :: (sign ++ Nat.toDigits 10 e.natAbs)) e := by
    have whole := Exponent.marked (.inl rfl) (.mk signed some digits)
    rwa [value, same] at whole
  unfold powerMark
  split
  · rename_i below
    exact power .minus (by rw [if_pos rfl]; omega)
  · rename_i above
    have same : (e.natAbs : Int) = e := by omega
    split
    · exact power .plus same
    · exact power .none same

theorem scientificSpells {sign : List Char} {negative : Bool} (signed : Sign sign negative)
    (plus : Bool) (d : Decimal) : Spells (sign ++ d.scientific plus) (d.toNumber negative) := by
  have some : d.digitChars ≠ [] := Nat.toDigits_ne_nil
  have spells := Spells.mk signed (leadSignificand some (digitCharsDigits d))
    (powerExponent plus (d.exponent + d.digitChars.length - 1))
  have value : ofDigits d.digitChars = d.digits := ofDigitsToDigits d.digits
  have shifted : 1 - (d.digitChars.length : Int) + (d.exponent + d.digitChars.length - 1) =
      d.exponent := by omega
  rwa [← scientificParts, shift, value, shifted] at spells

end Decimal

namespace Value
open Decimal Text

theorem digitSolid {c : Char} (digit : Lexical.IsDigit c) : isBlank c = false := by
  have low : 48 ≤ c.toNat := digit.1
  have high : c.toNat ≤ 57 := digit.2
  simp only [isBlank, blank, List.any_cons, List.any_nil, Bool.or_false, Bool.or_eq_false_iff,
    Bool.and_eq_false_imp, decide_eq_true_eq, decide_eq_false_iff_not]
  omega

theorem numericSolid {c : Char} (numeric : isNumeric c = true) : isBlank c = false := by
  simp only [isNumeric, Bool.or_eq_true, beq_iff_eq] at numeric
  rcases numeric with ((((digit | rfl) | rfl) | rfl) | rfl) | rfl
  · exact digitSolid ((Lexer.digitIff c).mp digit)
  all_goals decide

theorem magnitudeSpells {rank : Nat} (some : rank ≠ 0) (bounded : rank ≤ Number.top)
    (finite : rank ≠ Number.top) {sign : List Char} {negative : Bool} (signed : Sign sign negative) :
    Spells (sign ++ numberFormat.magnitude rank) (.signed negative rank bounded) := by
  have found := Shortest.digitsRank .up some
  have nonzero : (Shortest.digits .up rank).digits ≠ 0 := by
    intro none
    have nothing : (Shortest.digits .up rank).rank = 0 := by rw [Decimal.rank, if_pos none]
    exact some (found.symm.trans nothing)
  have number : (Shortest.digits .up rank).toNumber negative = .signed negative rank bounded := by
    simp [Decimal.toNumber, Number.ofRank, found, Nat.min_eq_left bounded]
  have below : (Shortest.digits .up rank).rank < Number.top := by
    rw [found]
    exact Nat.lt_of_le_of_ne bounded finite
  rw [← number]
  unfold NumberFormat.magnitude
  rewrite [if_neg some]
  split
  · exact positionalSpells signed nonzero below
  · exact scientificSpells signed true _

theorem solidAll {cs : List Char} (none : cs.any isBlank = false) : ∀ c ∈ cs, isBlank c = false := by
  simpa using none

/- A text without blanks, and the number it is read as. -/
structure ReadsAs (cs : List Char) (x : Number) : Prop where
  some : cs ≠ []
  solid : ∀ c ∈ cs, isBlank c = false
  read : readTrimmed cs = x

theorem readsSpells {cs : List Char} {n : Number} (h : Spells cs n) : ReadsAs cs n where
  some := spellsSome h
  solid c member := numericSolid (spellsNumeric h c member)
  read := readTrimmedSpells h

theorem readsInfinity {sign : List Char} {negative : Bool} (signed : Sign sign negative) :
    ReadsAs (sign ++ "Infinity".toList) (.infinity negative) where
  some := by simp
  solid := by cases signed <;> exact solidAll rfl
  read := readTrimmedInfinity signed

theorem readsNan : ReadsAs "NaN".toList .nan where
  some := by simp
  solid := solidAll rfl
  read := by
    have bare : ∀ mark ds, mark = 'x' ∨ mark = 'X' → "NaN".toList ≠ '0' :: mark :: ds := by simp
    have finite : ∀ sign negative, Sign sign negative → "NaN".toList ≠ sign ++ "Infinity".toList := by
      rintro _ _ ⟨⟩ <;> decide
    rw [readTrimmedDecimal (by simp) finite bare, if_neg (by decide)]

/- What is read where a number was written: negative zero has lost its sign. -/
def unsignedZero (x : Number) : Number := if x = .zero true then .zero false else x

theorem zeroSpells : Spells ['0'] (.zero false) := by
  have digit : ∀ c ∈ ['0'], Lexical.IsDigit c := List.forall_mem_singleton.mpr (by decide)
  exact spellsWhole .none (.whole (List.cons_ne_nil _ _) digit)

theorem zeroUnsigned (negative : Bool) (bounded : 0 ≤ Number.top) :
    unsignedZero (.signed negative 0 bounded) = .zero false := by
  cases negative <;> rfl

theorem otherUnchanged {x : Number} (other : x ≠ .zero true) : unsignedZero x = x := if_neg other

theorem someNotZero {negative : Bool} {rank : Nat} {bounded : rank ≤ Number.top} (some : rank ≠ 0) :
    Number.signed negative rank bounded ≠ .zero true := by
  intro same
  cases same
  exact some rfl

theorem readsInfinite (negative : Bool) (bounded : Number.top ≤ Number.top) :
    ReadsAs (numberFormat.chars (.signed negative Number.top bounded))
      (.signed negative Number.top bounded) := by
  unfold NumberFormat.chars
  dsimp only
  rewrite [if_pos rfl]
  cases negative with
  | true => exact readsInfinity .minus
  | false => exact readsInfinity .none

theorem charsFinite {negative : Bool} {rank : Nat} {bounded : rank ≤ Number.top}
    (finite : rank ≠ Number.top) : numberFormat.chars (.signed negative rank bounded) =
      if negative && rank != 0 then '-' :: numberFormat.magnitude rank
      else numberFormat.magnitude rank := by
  unfold NumberFormat.chars
  dsimp only
  rewrite [if_neg finite]
  rfl

theorem readsFormatted (x : Number) : ReadsAs (numberFormat.chars x) (unsignedZero x) := by
  obtain _ | ⟨negative, rank, bounded⟩ := x
  · exact readsNan
  by_cases infinite : rank = Number.top
  · subst infinite
    have some : Number.top ≠ 0 := by decide
    rw [otherUnchanged (someNotZero some)]
    exact readsInfinite negative bounded
  rw [charsFinite infinite]
  by_cases zero : rank = 0
  · subst zero
    rw [zeroUnsigned, if_neg (by simp)]
    exact readsSpells zeroSpells
  · rw [otherUnchanged (someNotZero zero)]
    cases negative with
    | true =>
      rw [if_pos (by simpa using zero)]
      exact readsSpells (magnitudeSpells zero bounded infinite .minus)
    | false => exact readsSpells (magnitudeSpells zero bounded infinite .none)

theorem equalSelf {x : Number} (number : x ≠ .nan) : (unsignedZero x).equal x = true := by
  obtain _ | ⟨negative, rank, bounded⟩ := x
  · contradiction
  by_cases zero : rank = 0
  · subst zero
    rw [zeroUnsigned]
    cases negative <;> rfl
  · rw [otherUnchanged (someNotZero zero)]
    simp [Number.equal]

end Value

open Value Text

theorem formattedNumbersReadBack (x : Number) (before after : List Char)
    (first : ∀ c ∈ before, isBlank c = true) (last : ∀ c ∈ after, isBlank c = true) :
    let y := readNumber (String.ofList (before ++ ((formatNumber x).toList ++ after)))
    (x ≠ .nan → y.equal x = true) ∧ (x = .nan → y = .nan) ∧
      (x ≠ .zero true → y.toBits? = x.toBits?) ∧ (x = .zero true → y = .zero false) := by
  obtain ⟨some, solid, read⟩ := readsFormatted x
  have trimmed := trimPadded first last some solid
  have back : readNumber (String.ofList (before ++ ((formatNumber x).toList ++ after))) =
      unsignedZero x := by
    rw [readNumber, formatNumber, NumberFormat.render, String.toList_ofList, String.toList_ofList,
      trimmed, read]
  intro y
  have same : y = unsignedZero x := back
  rw [same]
  refine ⟨equalSelf, ?_, ?_, ?_⟩
  · rintro rfl
    rfl
  · intro other
    rw [otherUnchanged other]
  · rintro rfl
    rfl

/- The nearest number below zero. -/
def leastNegative : Number := .signed true 1 (by decide)

theorem leastNegativeReadsBack :
    (∀ c ∈ ['\u2003'], isBlank c = true) ∧ (∀ c ∈ ['\r', '\n'], isBlank c = true) ∧
      formatNumber leastNegative = "-5e-324" ∧
      (readNumber "\u2003-5e-324\r\n").equal leastNegative = true ∧
      (readNumber "\u2003-5e-324\r\n").toBits? = leastNegative.toBits? := by
  have first : ∀ c ∈ ['\u2003'], isBlank c = true := List.all_eq_true.mp rfl
  have last : ∀ c ∈ ['\r', '\n'], isBlank c = true := List.all_eq_true.mp rfl
  have formatted : formatNumber leastNegative = "-5e-324" := by decide +kernel
  have back := formattedNumbersReadBack leastNegative _ _ first last
  rw [formatted] at back
  exact ⟨first, last, formatted, back.1 (by decide), back.2.2.1 (by decide)⟩

end EventScript
