import EventScript.Proofs.Lexemes

/-! Which texts are decimal literals: a sign or none, digits with a point or without, and
an exponent or none. The reader of decimals takes these texts and no others. -/
namespace EventScript

namespace Lexer
open Lexical

theorem digitIff (c : Char) : Char.isDigit c ↔ IsDigit c := by
  simp [IsDigit, Char.isDigit, Char.le_def]

section Runs

variable {p : Char → Bool} {P : Char → Prop} (same : ∀ c, p c ↔ P c)
include same

theorem runRead {run after : List Char} (all : ∀ c ∈ run, P c) (ends : NotNext P after) :
    (run ++ after).takeWhile p = run ∧ (run ++ after).dropWhile p = after := by
  have inside : ∀ c ∈ run, p c := fun c member => (same c).mpr (all c member)
  rw [List.takeWhile_append_of_pos inside, List.dropWhile_append_of_pos inside]
  cases after with
  | nil => simp
  | cons c rest =>
    have stop : ¬ p c := fun h => ends c rest rfl ((same c).mp h)
    simp [stop]

theorem runTaken (cs : List Char) :
    (∀ c ∈ cs.takeWhile p, P c) ∧ NotNext P (cs.dropWhile p) := by
  refine ⟨?_, ?_⟩
  · intro c member
    exact (same c).mp (List.all_eq_true.mp List.all_takeWhile c member)
  · intro c rest first h
    have stop := List.head?_dropWhile_not p cs
    simp [first, (same c).mpr h] at stop

end Runs

end Lexer

namespace Decimal
open Lexical Lexer

/- The sign before a number, and whether it is a minus. -/
inductive Sign : List Char → Bool → Prop where
  | none : Sign [] false
  | plus : Sign ['+'] false
  | minus : Sign ['-'] true

/- Digits and a point between them or none; one side of the point may be empty. -/
inductive Significand : List Char → Decimal → Prop where
  | whole {ds} (some : ds ≠ []) (digits : ∀ c ∈ ds, IsDigit c) : Significand ds (ofParts ds [])
  | pointed {ds fs} (some : ds ≠ []) (digits : ∀ c ∈ ds, IsDigit c)
      (fraction : ∀ c ∈ fs, IsDigit c) : Significand (ds ++ '.' :: fs) (ofParts ds fs)
  | bare {fs} (some : fs ≠ []) (fraction : ∀ c ∈ fs, IsDigit c) :
      Significand ('.' :: fs) (ofParts [] fs)

/- What may follow the mark of an exponent. -/
inductive Power : List Char → Int → Prop where
  | mk {sign negative ds} (signed : Sign sign negative) (some : ds ≠ [])
      (digits : ∀ c ∈ ds, IsDigit c) :
      Power (sign ++ ds) (if negative then -(ofDigits ds : Int) else ofDigits ds)

inductive Exponent : List Char → Int → Prop where
  | none : Exponent [] 0
  | marked {mark cs e} (marks : mark = 'e' ∨ mark = 'E') (power : Power cs e) :
      Exponent (mark :: cs) e

/- A decimal literal and the number nearest to it. -/
inductive Spells : List Char → Number → Prop where
  | mk {sign negative cs d es e} (signed : Sign sign negative) (significand : Significand cs d)
      (exponent : Exponent es e) : Spells (sign ++ (cs ++ es)) ((d.shift e).toNumber negative)

theorem splitSignRead {sign cs : List Char} {negative : Bool} (signed : Sign sign negative)
    (bare : NotNext (fun c => c = '+' ∨ c = '-') cs) : splitSign (sign ++ cs) = (negative, cs) := by
  cases signed with
  | none =>
    cases cs with
    | nil => rfl
    | cons c cs =>
      have other := bare c cs rfl
      rw [List.nil_append, splitSign]
      · rintro _ ⟨⟩
        exact other (.inr rfl)
      · rintro _ ⟨⟩
        exact other (.inl rfl)
  | plus => rfl
  | minus => rfl

theorem splitSignTaken (cs : List Char) : ∃ sign negative rest,
    splitSign cs = (negative, rest) ∧ Sign sign negative ∧ cs = sign ++ rest := by
  unfold splitSign
  split
  · exact ⟨['-'], true, _, rfl, .minus, rfl⟩
  · exact ⟨['+'], false, _, rfl, .plus, rfl⟩
  · exact ⟨[], false, _, rfl, .none, rfl⟩

theorem digitUnsigned {c : Char} (digit : IsDigit c) : ¬ (c = '+' ∨ c = '-') := by
  rintro (rfl | rfl) <;> exact absurd digit (by decide)

theorem significandUnsigned {cs es : List Char} {d : Decimal} (h : Significand cs d) :
    NotNext (fun c => c = '+' ∨ c = '-') (cs ++ es) := by
  cases h with
  | whole some digits =>
    obtain ⟨c, ds, rfl⟩ := List.exists_cons_of_ne_nil some
    rintro _ _ ⟨⟩
    exact digitUnsigned (digits _ List.mem_cons_self)
  | pointed some digits _ =>
    obtain ⟨c, ds, rfl⟩ := List.exists_cons_of_ne_nil some
    rintro _ _ ⟨⟩
    exact digitUnsigned (digits _ List.mem_cons_self)
  | bare =>
    rintro _ _ ⟨⟩
    decide

theorem pointNoDigit (cs : List Char) : NotNext IsDigit ('.' :: cs) := by
  rintro _ _ ⟨⟩
  decide

theorem significandRead {cs es : List Char} {d : Decimal} (h : Significand cs d)
    (ends : NotNext (fun c => IsDigit c ∨ c = '.') es) :
    significandOf? (cs ++ es) = some (d, es) := by
  have stop : NotNext IsDigit es := fun c rest first digit => ends c rest first (.inl digit)
  cases h with
  | whole some digits =>
    obtain ⟨taken, left⟩ := runRead digitIff digits stop
    rw [significandOf?, taken, left]
    cases es with
    | nil => simp [some]
    | cons c es =>
      have point : c ≠ '.' := fun same => ends c es rfl (.inr same)
      simp [some, point]
  | @pointed ds fs some digits fraction =>
    obtain ⟨taken, left⟩ := runRead digitIff digits (pointNoDigit (fs ++ es))
    obtain ⟨taken', left'⟩ := runRead digitIff fraction stop
    rw [List.append_assoc, List.cons_append, significandOf?, taken, left]
    simp [taken', left', some]
  | @bare fs some fraction =>
    obtain ⟨taken, left⟩ := runRead digitIff fraction stop
    have first : ¬ Char.isDigit '.' := by decide
    simp [significandOf?, taken, left, some]

theorem significandTaken {cs es : List Char} {d : Decimal}
    (h : significandOf? cs = some (d, es)) : ∃ pre, cs = pre ++ es ∧ Significand pre d := by
  obtain ⟨digits, _⟩ := runTaken digitIff cs
  have split : cs.takeWhile Char.isDigit ++ cs.dropWhile Char.isDigit = cs :=
    List.takeWhile_append_dropWhile
  rw [significandOf?] at h
  dsimp only at h
  split at h
  · rename_i rest point
    obtain ⟨fraction, _⟩ := runTaken digitIff rest
    have after : rest.takeWhile Char.isDigit ++ rest.dropWhile Char.isDigit = rest :=
      List.takeWhile_append_dropWhile
    rw [point] at split
    generalize cs.takeWhile Char.isDigit = ds at *
    generalize rest.takeWhile Char.isDigit = fs at *
    split at h
    · contradiction
    · rename_i some
      cases h
      refine ⟨ds ++ '.' :: fs, by rw [List.append_assoc, List.cons_append, after, split], ?_⟩
      cases ds with
      | nil =>
        refine .bare ?_ fraction
        rintro rfl
        exact some rfl
      | cons c ds => exact .pointed (List.cons_ne_nil c ds) digits fraction
  · split at h
    · contradiction
    · rename_i some
      cases h
      rw [List.isEmpty_iff] at some
      exact ⟨_, split.symm, .whole some digits⟩

theorem digitsAll {ds : List Char} : ds.all Char.isDigit = true ↔ ∀ c ∈ ds, IsDigit c := by
  simp only [List.all_eq_true, digitIff]

theorem exponentIff (cs : List Char) (e : Int) : exponentOf? cs = some e ↔ Power cs e := by
  constructor
  · intro h
    obtain ⟨sign, negative, ds, taken, signed, rfl⟩ := splitSignTaken cs
    rw [exponentOf?, taken] at h
    dsimp only at h
    split at h
    · contradiction
    · rename_i good
      cases h
      simp only [Bool.or_eq_true, List.isEmpty_iff, Bool.not_eq_true', not_or, Bool.not_eq_false,
        digitsAll] at good
      exact .mk signed good.1 good.2
  · rintro ⟨signed, some, digits⟩
    have unsigned : NotNext _ (_ ++ []) := significandUnsigned (.whole some digits)
    rw [List.append_nil] at unsigned
    rw [exponentOf?, splitSignRead signed unsigned]
    simp [some, digitsAll.mpr digits]

theorem exponentEnds {es : List Char} {e : Int} (h : Exponent es e) :
    NotNext (fun c => IsDigit c ∨ c = '.') es := by
  cases h with
  | none =>
    rintro _ _ ⟨⟩
  | marked marks _ =>
    rintro _ _ ⟨⟩
    rcases marks with rfl | rfl <;> decide

theorem shiftZero (d : Decimal) : d.shift 0 = d := by rw [shift, Int.add_zero]

theorem readIff (cs : List Char) (n : Number) : read? cs = some n ↔ Spells cs n := by
  constructor
  · intro h
    obtain ⟨sign, negative, rest, taken, signed, rfl⟩ := splitSignTaken cs
    rw [read?, taken] at h
    obtain ⟨⟨d, es⟩, read, given⟩ := Option.bind_eq_some_iff.mp h
    obtain ⟨pre, rfl, significand⟩ := significandTaken read
    dsimp only at given
    split at given
    · cases given
      have whole := Spells.mk signed significand .none
      rwa [shiftZero] at whole
    · split at given
      · rename_i marks
        obtain ⟨e, power, same⟩ := Option.bind_eq_some_iff.mp given
        cases same
        exact .mk signed significand (.marked marks ((exponentIff _ e).mp power))
      · contradiction
  · rintro ⟨signed, significand, exponent⟩
    have read := significandRead significand (exponentEnds exponent)
    rw [read?, splitSignRead signed (significandUnsigned significand)]
    dsimp only
    rw [read]
    cases exponent with
    | none => simp [shiftZero]
    | marked marks power => simp [marks, (exponentIff _ _).mpr power]

theorem significandNumber {cs : List Char} {d : Decimal} (h : Significand cs d) :
    read? cs = some (d.toNumber false) := by
  have spells := Spells.mk .none h .none
  rw [List.nil_append, List.append_nil, shiftZero] at spells
  exact (readIff cs _).mpr spells

end Decimal

end EventScript
