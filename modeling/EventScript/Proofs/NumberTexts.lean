import EventScript.Value.Numeric
import EventScript.Proofs.Scanning

/-! Which texts are numbers. Apart from blanks around it a text is a number if it is empty,
an infinity, a decimal literal, or a prefix with a word of hexadecimal digits. The word may
have a sign of its own and is bounded, which sets it apart from a literal. -/
namespace EventScript

namespace Text

def IsHexDigit (c : Char) : Prop := ('0' ≤ c ∧ c ≤ '9') ∨ ('a' ≤ c ∧ c ≤ 'f') ∨ ('A' ≤ c ∧ c ≤ 'F')

instance (c : Char) : Decidable (IsHexDigit c) := inferInstanceAs (Decidable (_ ∨ _))

structure HexDigits (ds : List Char) : Prop where
  some : ds ≠ []
  digits : ∀ c ∈ ds, IsHexDigit c

def hexValue (ds : List Char) : Nat := ds.foldl (fun n c => 16 * n + (digit? c).getD 0) 0

/- Digits of a word of 64 bits, which may have a sign of their own. -/
inductive HexWord : List Char → Prop where
  | plain {ds} (digits : HexDigits ds) (bounded : hexValue ds < wordBound) : HexWord ds
  | plus {ds} (digits : HexDigits ds) (bounded : hexValue ds < wordBound) : HexWord ('+' :: ds)

theorem digitIff (c : Char) : (digit? c).isSome = true ↔ IsHexDigit c := by
  unfold digit? IsHexDigit
  split
  · simp_all
  · split
    · simp_all
    · split <;> simp_all

theorem digitSmall {c : Char} {d : Nat} (h : digit? c = some d) : d < 16 := by
  have order (a b : Char) : a ≤ b ↔ a.toNat ≤ b.toNat := Iff.rfl
  unfold digit? at h
  simp only [order] at h
  split at h
  · cases h
    have : ('0' : Char).toNat = 48 ∧ ('9' : Char).toNat = 57 := by decide
    omega
  · split at h
    · cases h
      have : ('a' : Char).toNat = 97 ∧ ('f' : Char).toNat = 102 := by decide
      omega
    · split at h
      · cases h
        have : ('A' : Char).toNat = 65 ∧ ('F' : Char).toNat = 70 := by decide
        omega
      · cases h

theorem pushDigitsIff (ds : List Char) (n m : Nat) :
    ds.foldlM (pushDigit? 16) n = some m ↔
      (∀ c ∈ ds, IsHexDigit c) ∧ ds.foldl (fun n c => 16 * n + (digit? c).getD 0) n = m := by
  induction ds generalizing n with
  | nil => simp
  | cons c ds ih =>
    rw [List.foldlM_cons, List.forall_mem_cons, ← digitIff, List.foldl_cons, pushDigit?]
    cases digit : digit? c with
    | none => simp
    | some d => simp [digitSmall digit, ih]

theorem wordIff (ds : List Char) (n : Nat) :
    word? 16 ds = some n ↔ HexDigits ds ∧ hexValue ds = n ∧ n < wordBound := by
  constructor
  · intro h
    rw [word?] at h
    split at h
    · contradiction
    · rename_i some
      obtain ⟨m, pushed, h⟩ := Option.bind_eq_some_iff.mp h
      split at h
      · rename_i bounded
        cases h
        obtain ⟨digits, value⟩ := (pushDigitsIff ds 0 n).mp pushed
        rw [List.isEmpty_iff] at some
        exact ⟨⟨some, digits⟩, value, bounded⟩
      · contradiction
  · rintro ⟨⟨some, digits⟩, value, bounded⟩
    have pushed := (pushDigitsIff ds 0 n).mpr ⟨digits, value⟩
    rw [word?, if_neg (by rwa [List.isEmpty_iff]), pushed]
    simp [bounded]

theorem plusNoDigit {ds : List Char} : ¬ HexDigits ('+' :: ds) := by
  rintro ⟨_, digits⟩
  exact absurd (digits _ List.mem_cons_self) (by decide)

theorem dropPlusOther {cs : List Char} (other : ∀ ds, cs ≠ '+' :: ds) : dropPlus cs = cs := by
  unfold dropPlus
  split
  · exact absurd rfl (other _)
  · rfl

theorem hexWordIff (cs : List Char) : HexWord cs ↔ ∃ n, word? 16 (dropPlus cs) = some n := by
  simp only [wordIff]
  by_cases plus : ∃ ds, cs = '+' :: ds
  · obtain ⟨ds, rfl⟩ := plus
    constructor
    · intro h
      cases h with
      | plain digits _ => exact absurd digits plusNoDigit
      | plus digits bounded => exact ⟨_, digits, rfl, bounded⟩
    · rintro ⟨n, digits, rfl, bounded⟩
      exact .plus digits bounded
  · have other : ∀ ds, cs ≠ '+' :: ds := fun ds same => plus ⟨ds, same⟩
    rw [dropPlusOther other]
    constructor
    · intro h
      cases h with
      | plain digits bounded => exact ⟨_, digits, rfl, bounded⟩
      | plus => exact absurd rfl (other _)
    · rintro ⟨n, digits, rfl, bounded⟩
      exact .plain digits bounded

end Text

namespace Value
open Decimal Text

/- A text that is a number, given what may stand after the prefix of hexadecimal digits. -/
inductive Numeral (hexadecimal : List Char → Prop) : List Char → Prop where
  | empty : Numeral hexadecimal []
  | infinity {sign negative} (signed : Sign sign negative) :
      Numeral hexadecimal (sign ++ "Infinity".toList)
  | decimal {cs n} (spells : Spells cs n) : Numeral hexadecimal cs
  | hexadecimal {mark cs} (marks : mark = 'x' ∨ mark = 'X') (digits : hexadecimal cs) :
      Numeral hexadecimal ('0' :: mark :: cs)

theorem digitNumeric {c : Char} (digit : Lexical.IsDigit c) : isNumeric c = true := by
  simp [isNumeric, (Lexer.digitIff c).mpr digit]

theorem signNumeric {sign : List Char} {negative : Bool} (signed : Sign sign negative) :
    ∀ c ∈ sign, isNumeric c = true := by
  cases signed <;> exact List.all_eq_true.mp rfl

theorem significandNumeric {cs : List Char} {d : Decimal} (h : Significand cs d) :
    ∀ c ∈ cs, isNumeric c = true := by
  have point : isNumeric '.' = true := by decide
  cases h with
  | whole _ digits => exact fun c member => digitNumeric (digits c member)
  | pointed _ digits fraction =>
    refine List.forall_mem_append.mpr ⟨?_, List.forall_mem_cons.mpr ⟨point, ?_⟩⟩
    · exact fun c member => digitNumeric (digits c member)
    · exact fun c member => digitNumeric (fraction c member)
  | bare _ fraction =>
    exact List.forall_mem_cons.mpr ⟨point, fun c member => digitNumeric (fraction c member)⟩

theorem exponentNumeric {es : List Char} {e : Int} (h : Exponent es e) :
    ∀ c ∈ es, isNumeric c = true := by
  cases h with
  | none => exact List.forall_mem_nil _
  | marked marks power =>
    obtain ⟨signed, _, digits⟩ := power
    refine List.forall_mem_cons.mpr ⟨?_, List.forall_mem_append.mpr ⟨signNumeric signed, ?_⟩⟩
    · rcases marks with rfl | rfl <;> decide
    · exact fun c member => digitNumeric (digits c member)

theorem spellsNumeric {cs : List Char} {n : Number} (h : Spells cs n) :
    ∀ c ∈ cs, isNumeric c = true := by
  obtain ⟨signed, significand, exponent⟩ := h
  have both := List.forall_mem_append.mpr
    ⟨significandNumeric significand, exponentNumeric exponent⟩
  exact List.forall_mem_append.mpr ⟨signNumeric signed, both⟩

theorem spellsSome {cs : List Char} {n : Number} (h : Spells cs n) : cs ≠ [] := by
  obtain ⟨_, significand, _⟩ := h
  cases significand <;> simp_all

theorem spellsNumber {cs : List Char} {n : Number} (h : Spells cs n) : n ≠ .nan := by
  obtain ⟨_, _, _⟩ := h
  nofun

theorem readTrimmedInfinity {sign : List Char} {negative : Bool} (signed : Sign sign negative) :
    readTrimmed (sign ++ "Infinity".toList) = .infinity negative := by
  cases signed <;> rfl

theorem readTrimmedHexadecimal {mark : Char} (marks : mark = 'x' ∨ mark = 'X') (cs : List Char) :
    readTrimmed ('0' :: mark :: cs) = ((word? 16 (dropPlus cs)).map Number.ofNat).getD .nan := by
  have some : ¬ ('0' :: mark :: cs).isEmpty = true := Bool.false_ne_true
  have positive : ¬ ('0' :: mark :: cs = "Infinity".toList ∨
      '0' :: mark :: cs = "+Infinity".toList) := by simp
  have negative : '0' :: mark :: cs ≠ "-Infinity".toList := by simp
  unfold readTrimmed
  rewrite [if_neg some, if_neg positive, if_neg negative]
  rcases marks with rfl | rfl <;> rfl

theorem readTrimmedDecimal {cs : List Char} (some : cs ≠ [])
    (finite : ∀ sign negative, Sign sign negative → cs ≠ sign ++ "Infinity".toList)
    (bare : ∀ mark ds, mark = 'x' ∨ mark = 'X' → cs ≠ '0' :: mark :: ds) :
    readTrimmed cs = if cs.all isNumeric then (Decimal.read? cs).getD .nan else .nan := by
  have full : ¬ cs.isEmpty = true := by rwa [List.isEmpty_iff]
  have positive : ¬ (cs = "Infinity".toList ∨ cs = "+Infinity".toList) := by
    rintro (same | same)
    · exact finite [] false .none same
    · exact finite ['+'] false .plus same
  have negative : cs ≠ "-Infinity".toList := finite ['-'] true .minus
  unfold readTrimmed
  rewrite [if_neg full, if_neg positive, if_neg negative]
  split
  · exact absurd rfl (bare _ _ (.inl rfl))
  · exact absurd rfl (bare _ _ (.inr rfl))
  · rfl

theorem readTrimmedSpells {cs : List Char} {n : Number} (h : Spells cs n) : readTrimmed cs = n := by
  have numeric := spellsNumeric h
  have finite : ∀ sign negative, Sign sign negative → cs ≠ sign ++ "Infinity".toList := by
    rintro sign _ _ rfl
    exact absurd (numeric 'I' (List.mem_append_right sign List.mem_cons_self)) (by decide)
  have bare : ∀ mark ds, mark = 'x' ∨ mark = 'X' → cs ≠ '0' :: mark :: ds := by
    rintro mark ds marks rfl
    have marked := numeric mark (List.mem_cons_of_mem _ List.mem_cons_self)
    rcases marks with rfl | rfl <;> exact absurd marked (by decide)
  rw [readTrimmedDecimal (spellsSome h) finite bare, if_pos (List.all_eq_true.mpr numeric),
    (readIff cs n).mpr h, Option.getD_some]

theorem readTrimmedIff (cs : List Char) : readTrimmed cs ≠ .nan ↔ Numeral HexWord cs := by
  constructor
  · intro read
    by_cases empty : cs = []
    · rw [empty]
      exact .empty
    by_cases infinite : ∃ sign negative, Sign sign negative ∧ cs = sign ++ "Infinity".toList
    · obtain ⟨sign, negative, signed, rfl⟩ := infinite
      exact .infinity signed
    by_cases hexadecimal : ∃ mark ds, (mark = 'x' ∨ mark = 'X') ∧ cs = '0' :: mark :: ds
    · obtain ⟨mark, ds, marks, rfl⟩ := hexadecimal
      rw [readTrimmedHexadecimal marks] at read
      refine .hexadecimal marks ((hexWordIff ds).mpr ?_)
      cases word : word? 16 (dropPlus ds) with
      | none =>
        rw [word] at read
        exact absurd rfl read
      | some n => exact ⟨n, rfl⟩
    · rw [readTrimmedDecimal empty (fun s n signed same => infinite ⟨s, n, signed, same⟩)
        (fun m ds marks same => hexadecimal ⟨m, ds, marks, same⟩)] at read
      split at read
      · cases decimal : Decimal.read? cs with
        | none =>
          rw [decimal] at read
          exact absurd rfl read
        | some n => exact .decimal ((readIff cs n).mp decimal)
      · exact absurd rfl read
  · intro h
    cases h with
    | empty => nofun
    | infinity signed =>
      rw [readTrimmedInfinity signed]
      nofun
    | decimal spells =>
      rw [readTrimmedSpells spells]
      exact spellsNumber spells
    | hexadecimal marks digits =>
      obtain ⟨n, word⟩ := (hexWordIff _).mp digits
      rw [readTrimmedHexadecimal marks, word]
      nofun

theorem readNumberIff (s : String) : readNumber s ≠ .nan ↔ Numeral HexWord (trim s.toList) :=
  readTrimmedIff _

theorem numeralHexadecimal {H : List Char → Prop} {mark : Char} (marks : mark = 'x' ∨ mark = 'X')
    (cs : List Char) : Numeral H ('0' :: mark :: cs) ↔ H cs := by
  constructor
  · intro h
    generalize same : '0' :: mark :: cs = t at h
    cases h with
    | empty => contradiction
    | infinity signed => cases signed <;> simp at same
    | decimal spells =>
      subst same
      have marked := spellsNumeric spells mark (List.mem_cons_of_mem _ List.mem_cons_self)
      rcases marks with rfl | rfl <;> exact absurd marked (by decide)
    | hexadecimal _ digits =>
      cases same
      exact digits
  · exact .hexadecimal marks

theorem numeralOther {H K : List Char → Prop} {t : List Char}
    (other : ∀ mark cs, mark = 'x' ∨ mark = 'X' → t ≠ '0' :: mark :: cs) (h : Numeral H t) :
    Numeral K t := by
  cases h with
  | empty => exact .empty
  | infinity signed => exact .infinity signed
  | decimal spells => exact .decimal spells
  | hexadecimal marks _ => exact absurd rfl (other _ _ marks)

/- Hexadecimal digits that are misread: a sign of their own is let pass, and beyond the bound of
a word they are refused. -/
inductive Misread : List Char → Prop where
  | signed {mark ds} (marks : mark = 'x' ∨ mark = 'X') (digits : HexDigits ds)
      (bounded : hexValue ds < wordBound) : Misread ('0' :: mark :: '+' :: ds)
  | large {mark ds} (marks : mark = 'x' ∨ mark = 'X') (digits : HexDigits ds)
      (unbounded : wordBound ≤ hexValue ds) : Misread ('0' :: mark :: ds)

theorem misreadDiffers {t : List Char} (h : Misread t) :
    ¬ (Numeral HexWord t ↔ Numeral HexDigits t) := by
  cases h with
  | signed marks digits bounded =>
    rw [numeralHexadecimal marks, numeralHexadecimal marks]
    exact fun same => plusNoDigit (same.mp (.plus digits bounded))
  | large marks digits unbounded =>
    rw [numeralHexadecimal marks, numeralHexadecimal marks]
    intro same
    cases same.mpr digits with
    | plain _ bounded => exact absurd bounded (Nat.not_lt.mpr unbounded)
    | plus => exact plusNoDigit digits

theorem hexWordOrMisread {mark : Char} (marks : mark = 'x' ∨ mark = 'X') {cs : List Char}
    (right : ¬ Misread ('0' :: mark :: cs)) : HexWord cs ↔ HexDigits cs := by
  constructor
  · intro word
    cases word with
    | plain digits _ => exact digits
    | plus digits bounded => exact absurd (.signed marks digits bounded) right
  · intro digits
    refine .plain digits (Nat.lt_of_not_le ?_)
    exact fun unbounded => right (.large marks digits unbounded)

theorem wordsAreLiteralsUnlessMisread (t : List Char) :
    (Numeral HexWord t ↔ Numeral HexDigits t) ↔ ¬ Misread t := by
  constructor
  · exact fun same misread => misreadDiffers misread same
  · intro right
    by_cases hexadecimal : ∃ mark cs, (mark = 'x' ∨ mark = 'X') ∧ t = '0' :: mark :: cs
    · obtain ⟨mark, cs, marks, rfl⟩ := hexadecimal
      rw [numeralHexadecimal marks, numeralHexadecimal marks]
      exact hexWordOrMisread marks right
    · have other : ∀ mark cs, mark = 'x' ∨ mark = 'X' → t ≠ '0' :: mark :: cs :=
        fun mark cs marks same => hexadecimal ⟨mark, cs, marks, same⟩
      exact ⟨numeralOther other, numeralOther other⟩

end Value

open Value Text

theorem numberTextsAreLiterals (s : String) :
    (readNumber s ≠ .nan ↔ Numeral HexWord (trim s.toList)) ∧
      ((readNumber s ≠ .nan ↔ Numeral HexDigits (trim s.toList)) ↔ ¬ Misread (trim s.toList)) := by
  rw [readNumberIff]
  exact ⟨Iff.rfl, wordsAreLiteralsUnlessMisread _⟩

theorem hexadecimalDigitsAreMisread :
    (readNumber "0x+1F" = .ofNat 31 ∧ ¬ Numeral HexDigits (trim "0x+1F".toList)) ∧
      (readNumber "0x10000000000000000" = .nan ∧
        Numeral HexDigits (trim "0x10000000000000000".toList)) := by
  have signed : trim "0x+1F".toList = '0' :: 'x' :: '+' :: ['1', 'F'] := by decide
  have large : trim "0x10000000000000000".toList = '0' :: 'x' :: '1' :: List.replicate 16 '0' := by
    decide
  have digits : ∀ c ∈ '1' :: List.replicate 16 '0', IsHexDigit c := by
    intro c member
    rcases List.mem_cons.mp member with rfl | zero
    · decide
    · rw [List.eq_of_mem_replicate zero]
      decide
  rw [signed, large, numeralHexadecimal (.inl rfl), numeralHexadecimal (.inl rfl)]
  exact ⟨⟨by decide +kernel, plusNoDigit⟩, by decide +kernel, by decide, digits⟩

end EventScript
