import EventScript.Emit
import EventScript.Proofs.Scanning

/-! Numerals read back. Every magnitude below infinity is the nearest one to its own
units, so the digits that are searched for, or failing that the exact ones, have its
rank; and writing a decimal in full changes neither its value nor its rank. -/
namespace EventScript

namespace Number

def isFinite : Number → Bool
  | .nan => false
  | .signed _ rank _ => rank != top

def isUnsigned : Number → Bool
  | .signed false _ _ => true
  | _ => false

theorem roundDivExact {q d : Nat} (positive : 0 < d) : roundDiv (q * d) d = q := by
  have quotient : q * d / d = q := Nat.mul_div_cancel q positive
  have rest : q * d % d = 0 := Nat.mul_mod_left q d
  simp [roundDiv, quotient, rest, positive]

theorem unitsBelow {rank : Nat} (h : rank < binade) : units rank = rank := if_pos h

theorem unitsAbove {rank : Nat} (h : binade ≤ rank) :
    units rank = (binade + rank % binade) * Nat.pow 2 (rank / binade - 1) :=
  if_neg (Nat.not_lt.mpr h)

theorem unitsPositive {rank : Nat} (h : rank ≠ 0) : 0 < units rank := by
  by_cases small : rank < binade
  · rw [unitsBelow small]
    omega
  · have power : 0 < Nat.pow 2 (rank / binade - 1) := Nat.two_pow_pos _
    have one : 0 < binade := Nat.two_pow_pos 52
    rw [unitsAbove (Nat.not_lt.mp small)]
    exact Nat.mul_pos (by omega) power

/- The exponent of the last place, as `nearest` finds it from the units. -/
theorem unitsLog {rank : Nat} (h : binade ≤ rank) :
    (units rank).log2 - 52 = rank / binade - 1 := by
  have positive : 0 < binade := Nat.two_pow_pos 52
  have low : Nat.pow 2 52 ≤ binade + rank % binade := Nat.le_add_right _ _
  have high : binade + rank % binade < Nat.pow 2 53 := by
    have below := Nat.mod_lt rank positive
    have double : Nat.pow 2 53 = binade + binade := by rw [binade]
    omega
  have nonzero : units rank ≠ 0 := by
    have some : rank ≠ 0 := by omega
    exact Nat.ne_of_gt (unitsPositive some)
  have log : (units rank).log2 = 52 + (rank / binade - 1) := by
    rw [Nat.log2_eq_iff nonzero, unitsAbove h]
    constructor
    · rw [Nat.pow_add]
      exact Nat.mul_le_mul_right _ low
    · rw [show 52 + (rank / binade - 1) + 1 = 53 + (rank / binade - 1) by omega, Nat.pow_add]
      exact Nat.mul_lt_mul_of_pos_right high (Nat.two_pow_pos _)
  omega

theorem nearestUnits {rank d : Nat} (nonzero : rank ≠ 0) (positive : 0 < d) :
    nearest (units rank * d) d = rank := by
  have quotient : units rank * d / d = units rank := Nat.mul_div_cancel _ positive
  simp only [nearest, quotient]
  by_cases small : rank < binade
  · have log : rank.log2 - 52 = 0 := by
      have := (Nat.log2_lt nonzero).mpr small
      omega
    have one : d * Nat.pow 2 0 = d := Nat.mul_one d
    rw [unitsBelow small, log, one, roundDivExact positive, Nat.zero_mul, Nat.zero_add]
  · have big := Nat.not_lt.mp small
    have power : 0 < d * Nat.pow 2 (rank / binade - 1) := Nat.mul_pos positive (Nat.two_pow_pos _)
    have shape : units rank * d =
        (binade + rank % binade) * (d * Nat.pow 2 (rank / binade - 1)) := by
      rw [unitsAbove big, Nat.mul_assoc, Nat.mul_comm (Nat.pow 2 _) d]
    rw [unitsLog big, shape, roundDivExact power]
    have least : 1 ≤ rank / binade := Nat.div_pos big (Nat.two_pow_pos 52)
    have whole := Nat.div_add_mod rank binade
    obtain ⟨k, same⟩ : ∃ k, rank / binade = k + 1 := ⟨rank / binade - 1, by omega⟩
    rw [same] at whole ⊢
    rw [Nat.add_sub_cancel, ← Nat.add_assoc, ← Nat.succ_mul, Nat.mul_comm]
    exact whole

end Number

namespace Shortest
open Number

theorem powersOfFive (k : Nat) : Nat.pow 2 (2 * k) ≤ Nat.pow 5 k := by
  have square : Nat.pow 2 (2 * k) = Nat.pow 4 k := Nat.pow_mul (a := 2) (m := 2) (n := k)
  rw [square]
  exact Nat.pow_le_pow_left (by decide) k

theorem powersOfTen (k : Nat) : Nat.pow 5 k * Nat.pow 2 k = Nat.pow 10 k :=
  (Nat.mul_pow 5 2 k).symm

theorem exactDigits (rank : Nat) : (exact rank).digits = units rank * Nat.pow 5 1074 := rfl

theorem exactSome {rank : Nat} (nonzero : rank ≠ 0) : (exact rank).digits ≠ 0 := by
  rw [exactDigits]
  generalize 1074 = k
  exact Nat.ne_of_gt (Nat.mul_pos (unitsPositive nonzero) (Nat.pow_pos (by decide)))

theorem exactWide {rank : Nat} (nonzero : rank ≠ 0) : 2 * 1074 ≤ (exact rank).digits.log2 := by
  rw [Nat.le_log2 (exactSome nonzero), exactDigits]
  generalize 1074 = k
  exact Nat.le_trans (powersOfFive k) (Nat.le_mul_of_pos_left _ (unitsPositive nonzero))

/- The digits keep far from the exponents that `Decimal.rank` settles at once. -/
theorem exactLarge {rank : Nat} (nonzero : rank ≠ 0) :
    ¬ (exact rank).digits.log2 + 1200 < 3 * 1073 := by
  have wide := exactWide nonzero
  omega

theorem exactUnits (rank : Nat) :
    (exact rank).digits * whole = units rank * Nat.pow 10 1074 := by
  rewrite [exactDigits]
  unfold whole
  generalize 1074 = k
  rw [Nat.mul_assoc, powersOfTen]

theorem exactRank {rank : Nat} (nonzero : rank ≠ 0) : (exact rank).rank = rank := by
  have exponent : (exact rank).exponent = .negSucc 1073 := rfl
  have step : 1073 + 1 = 1074 := rfl
  rw [Decimal.rank, if_neg (exactSome nonzero), exponent]
  dsimp only
  rw [if_neg (exactLarge nonzero), exactUnits, step]
  generalize 1074 = k
  exact nearestUnits nonzero (Nat.pow_pos (by decide))

theorem digitsRank (tie : Tie) {rank : Nat} (nonzero : rank ≠ 0) : (digits tie rank).rank = rank := by
  unfold digits
  simp only
  cases hit : (List.range' 1 17).findSome? fun count =>
      (neighbours tie rank (leading rank) count).find? fun d => d.rank == rank with
  | none => exact exactRank nonzero
  | some d =>
    obtain ⟨count, _, found⟩ := List.exists_of_findSome?_eq_some hit
    have same := List.find?_some found
    exact eq_of_beq same

end Shortest

namespace Decimal
open Lexical Lexer

theorem ofDigitsAppend (cs ds : List Char) :
    ofDigits (cs ++ ds) = ds.foldl (fun n c => 10 * n + digitValue c) (ofDigits cs) :=
  List.foldl_append

theorem ofDigitsZeros (n : Nat) (cs : List Char) :
    ofDigits (cs ++ zeros n) = ofDigits cs * Nat.pow 10 n := by
  induction n generalizing cs with
  | zero => simp [zeros]
  | succ n ih =>
    have step : cs ++ zeros (n + 1) = (cs ++ ['0']) ++ zeros n := by
      simp [zeros, List.replicate_succ]
    have one : ofDigits (cs ++ ['0']) = ofDigits cs * 10 := by
      rw [ofDigitsAppend]
      simp [digitValue, Nat.mul_comm]
    rw [step, ih, one, Nat.mul_assoc]
    exact congrArg _ (Nat.pow_succ' (m := 10) (n := n)).symm

theorem ofDigitsLeading (n : Nat) (cs : List Char) : ofDigits (zeros n ++ cs) = ofDigits cs := by
  have none : ofDigits (zeros n) = 0 := by
    have all := ofDigitsZeros n []
    simpa [ofDigits] using all
  rw [ofDigitsAppend, none]
  rfl

theorem digitValueChar {d : Nat} (h : d < 10) : digitValue (Nat.digitChar d) = d := by
  revert d
  decide

theorem ofDigitsToDigits (n : Nat) : ofDigits (Nat.toDigits 10 n) = n := by
  induction n using Nat.strongRecOn with
  | ind n ih =>
    by_cases small : n < 10
    · rw [Nat.toDigits_of_lt_base small]
      simp [ofDigits, digitValueChar small]
    · have large : 10 ≤ n := Nat.not_lt.mp small
      have last := digitValueChar (Nat.mod_lt n (by decide : 10 > 0))
      rw [Nat.toDigits_of_base_le (by decide) large, ofDigitsAppend, ih (n / 10) (by omega)]
      simp only [List.foldl_cons, List.foldl_nil, last]
      exact Nat.div_add_mod n 10

theorem digitCharsDigits (d : Decimal) : ∀ c ∈ d.digitChars, IsDigit c := by
  intro c member
  exact (digitIff c).mp (Nat.isDigit_of_mem_toDigits (by decide) (by decide) member)

theorem zerosDigits (n : Nat) : ∀ c ∈ zeros n, IsDigit c := by
  intro c member
  rw [List.eq_of_mem_replicate member]
  decide

/- The parts of a numeral: digits, and after a point, if there is one, more digits. -/
structure Splits (cs ds fs : List Char) : Prop where
  some : ds ≠ []
  whole : ∀ c ∈ ds, IsDigit c
  fraction : ∀ c ∈ fs, IsDigit c
  joined : cs = if fs.isEmpty then ds else ds ++ '.' :: fs

theorem rankShifted {n e : Nat} (small : ¬ 400 < e) :
    (Decimal.mk (n * Nat.pow 10 e) 0).rank = (Decimal.mk n (.ofNat e)).rank := by
  by_cases none : n = 0
  · simp [rank, none]
  · have some : n * Nat.pow 10 e ≠ 0 :=
      Nat.ne_of_gt (Nat.mul_pos (Nat.pos_of_ne_zero none) (Nat.pow_pos (by decide)))
    have one : n * Nat.pow 10 e * Nat.pow 10 0 = n * Nat.pow 10 e := Nat.mul_one _
    have zero : (0 : Int) = .ofNat 0 := rfl
    rw [rank, if_neg some, zero, rank, if_neg none]
    dsimp only
    rw [if_neg (by decide), if_neg small, one]

theorem splitsInside {cs : List Char} {places : Nat} (digits : ∀ c ∈ cs, IsDigit c)
    (point : 0 < places) (long : places < cs.length) :
    Splits (cs.take (cs.length - places) ++ '.' :: cs.drop (cs.length - places))
      (cs.take (cs.length - places)) (cs.drop (cs.length - places)) where
  some := by
    intro none
    have short := congrArg List.length none
    simp only [List.length_take, List.length_nil] at short
    omega
  whole c member := digits c (List.mem_of_mem_take member)
  fraction c member := digits c (List.mem_of_mem_drop member)
  joined := by
    rw [if_neg]
    rw [List.isEmpty_iff]
    intro none
    have short := congrArg List.length none
    simp only [List.length_drop, List.length_nil] at short
    omega

theorem splitsBehind {cs : List Char} {places : Nat} (digits : ∀ c ∈ cs, IsDigit c)
    (nonempty : cs ≠ []) :
    Splits ('0' :: '.' :: zeros (places - cs.length) ++ cs) ['0'] (zeros (places - cs.length) ++ cs) where
  some := List.cons_ne_nil _ _
  whole := by
    intro c member
    rw [List.mem_singleton.mp member]
    decide
  fraction := List.forall_mem_append.mpr ⟨zerosDigits _, digits⟩
  joined := by
    rw [if_neg]
    · rfl
    · rw [List.isEmpty_iff]
      exact List.append_ne_nil_of_right_ne_nil _ nonempty

theorem splitsStart {cs ds fs : List Char} (splits : Splits cs ds fs) :
    ∃ d more, cs = d :: more ∧ IsDigit d := by
  obtain ⟨some, whole, _, joined⟩ := splits
  cases ds with
  | nil => contradiction
  | cons d ds =>
    have digit := whole d List.mem_cons_self
    split at joined
    · exact ⟨d, ds, joined, digit⟩
    · exact ⟨d, ds ++ '.' :: fs, joined, digit⟩

theorem splitsRead {cs ds fs after : List Char} (splits : Splits cs ds fs)
    (ends : NotNext IsDigit after) (bare : ∀ rest, after = '.' :: rest → NotNext IsDigit rest) :
    readNumber (cs ++ after) = .ok ((ofParts ds fs).toNumber false, after) := by
  obtain ⟨some, whole, fraction, joined⟩ := splits
  cases fs with
  | nil =>
    rw [joined]
    exact readNumberWhole some whole ends bare
  | cons f fs =>
    have read := readNumberFraction some whole (List.cons_ne_nil f fs) fraction ends
    rw [joined]
    simpa using read

theorem splitsWhole {cs : List Char} (digits : ∀ c ∈ cs, IsDigit c) (nonempty : cs ≠ []) :
    Splits cs cs [] := ⟨nonempty, digits, List.forall_mem_nil _, rfl⟩

theorem partsRank {n k : Nat} {ds fs : List Char} (places : fs.length = k + 1)
    (same : ofDigits (ds ++ fs) = n) : (ofParts ds fs).rank = (Decimal.mk n (.negSucc k)).rank := by
  have exponent : -((k + 1 : Nat) : Int) = .negSucc k := rfl
  rw [ofParts, same, places, exponent]

theorem exponentSmall {n e : Nat} (some : n ≠ 0) (finite : (Decimal.mk n (.ofNat e)).rank < Number.top) :
    ¬ 400 < e := by
  intro large
  rw [rank, if_neg some] at finite
  dsimp only at finite
  rw [if_pos large] at finite
  exact absurd finite (Nat.lt_irrefl _)

theorem positionalSplits {d : Decimal} (some : d.digits ≠ 0) (finite : d.rank < Number.top) :
    ∃ ds fs, Splits d.positional ds fs ∧ (ofParts ds fs).rank = d.rank := by
  obtain ⟨n, exponent⟩ := d
  have digits := digitCharsDigits ⟨n, exponent⟩
  have value : ofDigits (digitChars ⟨n, exponent⟩) = n := ofDigitsToDigits n
  have nonempty : digitChars ⟨n, exponent⟩ ≠ [] := Nat.toDigits_ne_nil
  unfold positional
  cases exponent with
  | ofNat e =>
    dsimp only
    generalize digitChars ⟨n, .ofNat e⟩ = cs at *
    refine ⟨cs ++ zeros e, [], splitsWhole ?_ ?_, ?_⟩
    · exact List.forall_mem_append.mpr ⟨digits, zerosDigits e⟩
    · exact List.append_ne_nil_of_left_ne_nil nonempty _
    · have parts : ofParts (cs ++ zeros e) [] = ⟨n * Nat.pow 10 e, 0⟩ := by
        rw [ofParts, List.append_nil, ofDigitsZeros, value]
        rfl
      rw [parts]
      exact rankShifted (exponentSmall some finite)
  | negSucc k =>
    dsimp only
    generalize digitChars ⟨n, .negSucc k⟩ = cs at *
    split
    · rename_i long
      refine ⟨_, _, splitsInside digits (Nat.succ_pos k) long, partsRank ?_ ?_⟩
      · rw [List.length_drop]
        omega
      · rw [List.take_append_drop, value]
    · rename_i short
      refine ⟨_, _, splitsBehind digits nonempty, partsRank ?_ ?_⟩
      · rw [List.length_append, zeros, List.length_replicate]
        omega
      · have leading := ofDigitsLeading (k + 1 - cs.length + 1) cs
        rw [zeros, List.replicate_succ] at leading
        exact leading.trans value

end Decimal

namespace Emit

theorem numeralMagnitude {rank : Nat} (zero : rank ≠ 0) (finite : rank < Number.top) :
    numeral.magnitude rank = (Shortest.digits .up rank).positional := by
  have range : numeral.least ≤ rank ∧ rank < numeral.bound := ⟨Nat.zero_le _, finite⟩
  have point : numeral.point = false := rfl
  rw [NumberFormat.magnitude, if_neg zero]
  simp only [if_pos range, point, Bool.false_and, Bool.false_eq_true, if_false]
  rfl

theorem magnitudeSplits {rank : Nat} (finite : rank < Number.top) :
    ∃ ds fs, Decimal.Splits (numeral.magnitude rank) ds fs ∧ (Decimal.ofParts ds fs).rank = rank := by
  by_cases zero : rank = 0
  · subst zero
    have digit : ∀ c ∈ ['0'], Lexical.IsDigit c := by
      intro c member
      rw [List.mem_singleton.mp member]
      decide
    exact ⟨['0'], [], Decimal.splitsWhole digit (List.cons_ne_nil _ _), rfl⟩
  · have found := Shortest.digitsRank .up zero
    have some : (Shortest.digits .up rank).digits ≠ 0 := by
      intro none
      have nothing : (Shortest.digits .up rank).rank = 0 := by rw [Decimal.rank, if_pos none]
      exact zero (found.symm.trans nothing)
    obtain ⟨ds, fs, splits, parts⟩ := Decimal.positionalSplits some (by rw [found]; exact finite)
    rw [numeralMagnitude zero finite]
    exact ⟨ds, fs, splits, parts.trans found⟩

theorem numeralSplits {n : Number} (finite : n.isFinite = true) (unsigned : n.isUnsigned = true) :
    ∃ ds fs, Decimal.Splits (numeral.chars n) ds fs ∧ (Decimal.ofParts ds fs).toNumber false = n := by
  obtain _ | ⟨negative, rank, bounded⟩ := n
  · contradiction
  cases negative with
  | true => contradiction
  | false =>
    have other : rank ≠ Number.top := bne_iff_ne.mp finite
    obtain ⟨ds, fs, splits, same⟩ := magnitudeSplits (Nat.lt_of_le_of_ne bounded other)
    have chars : numeral.chars (.signed false rank bounded) = numeral.magnitude rank := by
      simp [NumberFormat.chars, other]
    refine ⟨ds, fs, ?_, ?_⟩
    · rw [chars]
      exact splits
    · simp [Decimal.toNumber, Number.ofRank, same, Nat.min_eq_left bounded]

end Emit

end EventScript
