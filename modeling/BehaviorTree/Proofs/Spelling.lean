import BehaviorTree.Json.Reader
import BehaviorTree.Json.Writer

/-!
Written JSON taken apart into its words again. Every text comes back from between its quotes and
every integer from its digits, and what is written one after another is read one after another.
-/

namespace BehaviorTree.Json

/-! Texts. -/

theorem join_unit {code : Nat} (low : code < 0x20) (pieces : List Piece) :
    joinPieces (.unit code :: pieces) = (joinPieces pieces).map (Char.ofNat code :: ·) := by
  have notHigh : isHighUnit code = false := by simp [isHighUnit]; omega
  have notLow : isLowUnit code = false := by simp [isLowUnit]; omega
  cases pieces with
  | nil => simp [joinPieces, notHigh, notLow]
  | cons piece rest => cases piece <;> simp [joinPieces, notHigh, notLow]

theorem hexadecimal_digit {code : Nat} (small : code < 0x10) :
    Text.hexadecimal code = [code.digitChar] := Nat.toDigits_of_lt_base small

theorem hexadecimal_teen {code : Nat} (least : 0x10 ≤ code) (most : code < 0x20) :
    Text.hexadecimal code = ['1', (code % 16).digitChar] := by
  have sixteens : code / 16 = 1 := by omega
  rw [Text.hexadecimal, Nat.toDigits_of_base_le (by decide) least, sixteens]
  rfl

theorem read_digit : ∀ code < 0x10,
    Decimal.readDigits 16 ['0', '0', '0', code.digitChar] = some code := by
  decide

theorem read_teen : ∀ code < 0x20, 0x10 ≤ code →
    Decimal.readDigits 16 ['0', '0', '1', (code % 16).digitChar] = some code := by
  decide

section

variable {char letter first second third fourth : Char} {code : Nat}

theorem read_pieces_unit
    (read : Decimal.readDigits 16 [first, second, third, fourth] = some code)
    (rest : List Char) :
    readPieces ('\\' :: 'u' :: first :: second :: third :: fourth :: rest) =
      (readPieces rest).map (Prod.map (.unit code :: ·) id) := by
  rw [readPieces, read]
  cases readPieces rest <;> rfl

theorem read_pieces_letter (known : unescape? letter = some char) (other : letter ≠ 'u')
    (rest : List Char) :
    readPieces ('\\' :: letter :: rest) =
      (readPieces rest).map (Prod.map (.char char :: ·) id) := by
  rw [readPieces.eq_4 _ _ (by intros; contradiction), known]
  cases readPieces rest <;> rfl

theorem read_pieces_plain (unquoted : char ≠ '"') (plain : char ≠ '\\')
    (visible : ¬char.toNat < 0x20) (rest : List Char) :
    readPieces (char :: rest) = (readPieces rest).map (Prod.map (.char char :: ·) id) := by
  rw [readPieces.eq_5 _ _ unquoted (by intros; contradiction) (by intros; contradiction)]
  simp only [plain, visible, decide_false, Bool.or_false, Bool.false_eq_true, if_false]
  cases readPieces rest <;> rfl

end

/-- What a character is written as is read as one piece, which stands for that character. -/
theorem escaped_piece (char : Char) :
    ∃ piece,
      (∀ rest, readPieces (escaped char ++ rest) =
        (readPieces rest).map (Prod.map (piece :: ·) id)) ∧
      ∀ pieces, joinPieces (piece :: pieces) = (joinPieces pieces).map (char :: ·) := by
  have letter : ∀ {letter other : Char}, unescape? letter = some other → letter ≠ 'u' →
      ∃ piece,
        (∀ rest, readPieces (['\\', letter] ++ rest) =
          (readPieces rest).map (Prod.map (piece :: ·) id)) ∧
        ∀ pieces, joinPieces (piece :: pieces) = (joinPieces pieces).map (other :: ·) :=
    fun known apart => ⟨.char _, read_pieces_letter known apart, fun _ => rfl⟩
  have unit : char.toNat < 0x20 → ∀ pieces,
      joinPieces (.unit char.toNat :: pieces) = (joinPieces pieces).map (char :: ·) := by
    intro low pieces
    rw [join_unit low, Char.ofNat_toNat]
  unfold escaped
  split
  next same => exact same.symm ▸ letter rfl (by decide)
  split
  next same => exact same.symm ▸ letter rfl (by decide)
  split
  next same => exact same.symm ▸ letter rfl (by decide)
  split
  next same => exact same.symm ▸ letter rfl (by decide)
  split
  next same => exact same.symm ▸ letter rfl (by decide)
  split
  next same => exact same.symm ▸ letter rfl (by decide)
  split
  next same => exact same.symm ▸ letter rfl (by decide)
  next unquoted plain _ _ _ _ _ =>
  split
  next small =>
    refine ⟨.unit char.toNat, ?_, unit (by omega)⟩
    rw [hexadecimal_digit small]
    exact read_pieces_unit (read_digit _ small)
  next large =>
  split
  next small =>
    refine ⟨.unit char.toNat, ?_, unit small⟩
    rw [hexadecimal_teen (by omega) small]
    exact read_pieces_unit (read_teen _ small (by omega))
  next visible => exact ⟨.char char, read_pieces_plain unquoted plain visible, fun _ => rfl⟩

theorem read_pieces_escaped (chars rest : List Char) :
    ∃ pieces, readPieces (chars.flatMap escaped ++ '"' :: rest) = some (pieces, rest) ∧
      joinPieces pieces = some chars := by
  induction chars with
  | nil => exact ⟨[], readPieces.eq_2 rest, rfl⟩
  | cons char others ih =>
      obtain ⟨pieces, read, joined⟩ := ih
      obtain ⟨piece, reads, joins⟩ := escaped_piece char
      refine ⟨piece :: pieces, ?_, ?_⟩
      · rw [List.flatMap_cons, List.append_assoc, reads, read]
        rfl
      · rw [joins, joined]
        rfl

theorem first_text (text : String) (rest : List Char) :
    first? '"' (text.toList.flatMap escaped ++ '"' :: rest) =
      some (.text (some text), rest) := by
  obtain ⟨pieces, read, joined⟩ := read_pieces_escaped text.toList rest
  simp [first?, mark?, read, joined]

/-! Integers. -/

theorem digits_ne_nil (number : Nat) : Decimal.digits number ≠ [] := Nat.toDigits_ne_nil

theorem of_digits_digits (number : Nat) : Decimal.ofDigits (Decimal.digits number) = number :=
  Nat.ofDigitChars_ten_toDigits

theorem is_digit_of_mem {number : Nat} {char : Char} (inside : char ∈ Decimal.digits number) :
    char.isDigit = true :=
  Nat.isDigit_of_mem_toDigits (by decide) (by decide) inside

/-- A number but zero does not begin with a zero. -/
theorem digits_head {number : Nat} (positive : 0 < number) (rest : List Char) :
    Decimal.digits number ≠ '0' :: rest := by
  induction number using Nat.strongRecOn generalizing rest with
  | ind number ih =>
      by_cases small : number < 10
      · rw [Decimal.digits, Nat.toDigits_of_lt_base small]
        intro same
        have zero : ∀ digit < 10, 0 < digit → digit.digitChar ≠ '0' := by decide
        exact zero number small positive (List.head_eq_of_cons_eq same)
      · intro same
        rw [Decimal.digits, Nat.toDigits_of_base_le (by decide) (by omega)] at same
        rcases List.append_eq_cons_iff.mp same with ⟨empty, _⟩ | ⟨others, front, _⟩
        · exact Nat.toDigits_ne_nil empty
        · exact ih (number / 10) (by omega) (by omega) others front

theorem whole_digits (number : Nat) : isWholePart (Decimal.digits number) = true := by
  have filled := digits_ne_nil number
  unfold isWholePart
  split
  next empty => exact absurd empty filled
  next same =>
    by_cases positive : 0 < number
    · exact absurd same (digits_head positive _)
    · obtain rfl : number = 0 := by omega
      rw [Decimal.digits, Nat.toDigits_zero] at same
      cases same
  next => rfl

theorem read_magnitude_digits (negative : Bool) (number : Nat) :
    readMagnitude negative (Decimal.digits number) =
      some { negative, whole := Decimal.digits number, fraction := [], exponent := none } := by
  have digits : ∀ char ∈ Decimal.digits number, char.isDigit = true := fun _ => is_digit_of_mem
  have taken : (Decimal.digits number).takeWhile Char.isDigit = Decimal.digits number := by
    simpa using @List.takeWhile_append_of_pos _ Char.isDigit _ [] digits
  have dropped : (Decimal.digits number).dropWhile Char.isDigit = [] := by
    simpa using @List.dropWhile_append_of_pos _ Char.isDigit _ [] digits
  simp [readMagnitude, Decimal.spanDigits, taken, dropped, whole_digits, readFractionPart,
    readExponentPart]

/-- The integers of JSON: those of 64 bits, with a sign or without. -/
def isMachineInt (number : Int) : Bool :=
  decide (-(Nat.pow 2 63 : Int) ≤ number) && decide (number < Nat.pow 2 64)

theorem read_literal_natural (number : Nat) :
    readLiteral (Decimal.digits number) = readMagnitude false (Decimal.digits number) := by
  have first : ∀ rest, Decimal.digits number ≠ '-' :: rest := by
    intro rest same
    have inside : '-' ∈ Decimal.digits number := same ▸ List.mem_cons_self
    exact absurd (is_digit_of_mem inside) (by decide)
  unfold readLiteral
  split
  next same => exact absurd same (first _)
  next => rfl

theorem datum_of_int {literal : Literal} {number : Int} (whole : literal.int? = some number) :
    literal.datum = .int number := by
  rw [Literal.datum, whole]

/-- A machine integer is read as the integer that was written. -/
theorem read_literal_int {number : Int} (fits : isMachineInt number = true) :
    ∃ literal, readLiteral (Decimal.ofInt number) = some literal ∧
      literal.datum = .int number := by
  have large : Nat.pow 2 63 = 9223372036854775808 := rfl
  have larger : Nat.pow 2 64 = 18446744073709551616 := rfl
  simp only [isMachineInt, Bool.and_eq_true, decide_eq_true_eq] at fits
  cases number with
  | ofNat magnitude =>
      refine ⟨_, (read_literal_natural magnitude).trans (read_magnitude_digits _ _), ?_⟩
      apply datum_of_int
      simp only [Int.ofNat_eq_natCast] at fits
      simp [Literal.int?, of_digits_digits]
      omega
  | negSucc below =>
      refine ⟨_, read_magnitude_digits true (below + 1), ?_⟩
      apply datum_of_int
      simp [Literal.int?, of_digits_digits]
      omega

/-! The first word of some characters. -/

/-- Whether characters can follow a number or a word without being taken for a part of it. -/
def standsApart (rest : List Char) : Bool :=
  rest.head?.all fun char => !isNumeralChar char && !char.isAlpha

theorem span_apart {taken : Char → Bool} {chars rest : List Char}
    (all : ∀ char ∈ chars, taken char = true)
    (apart : rest.head?.all (!taken ·) = true) :
    (chars ++ rest).takeWhile taken = chars ∧ (chars ++ rest).dropWhile taken = rest := by
  rw [List.takeWhile_append_of_pos all, List.dropWhile_append_of_pos all]
  cases rest with
  | nil => simp
  | cons char others =>
      have stops : taken char = false := by simpa using apart
      simp [stops]

theorem apart_numeral {rest : List Char} (apart : standsApart rest = true) :
    rest.head?.all (!isNumeralChar ·) = true := by
  cases rest <;> simp_all [standsApart]

theorem apart_alpha {rest : List Char} (apart : standsApart rest = true) :
    rest.head?.all (!Char.isAlpha ·) = true := by
  cases rest <;> simp_all [standsApart]

theorem mark_of_digit {char : Char} (digit : char.isDigit = true) : mark? char = none := by
  unfold mark?
  split <;> first | rfl | exact absurd digit (by decide)

theorem space_of_digit {char : Char} (digit : char.isDigit = true) : isSpace char = false := by
  cases space : isSpace char with
  | false => rfl
  | true =>
      simp only [isSpace, Bool.or_eq_true, beq_iff_eq] at space
      rcases space with ((rfl | rfl) | rfl) | rfl <;> exact absurd digit (by decide)

theorem first_number {char : Char} {chars rest : List Char} {literal : Literal}
    (begins : char = '-' ∨ char.isDigit = true)
    (numeral : ∀ other ∈ chars, isNumeralChar other = true)
    (read : readLiteral (char :: chars) = some literal) (apart : standsApart rest = true) :
    first? char (chars ++ rest) = some (.plain literal.datum, rest) := by
  have unmarked : mark? char = none := by
    rcases begins with rfl | digit
    · rfl
    · exact mark_of_digit digit
  have unquoted : char ≠ '"' := by
    rintro rfl
    exact absurd begins (by decide)
  obtain ⟨taken, dropped⟩ := span_apart numeral (apart_numeral apart)
  simp [first?, unmarked, unquoted, begins, taken, dropped, read]

theorem first_word {char : Char} {chars rest : List Char} {datum : Datum}
    (unmarked : mark? char = none) (unquoted : char ≠ '"')
    (letter : ¬(char = '-' ∨ char.isDigit = true))
    (alpha : ∀ other ∈ chars, other.isAlpha = true) (known : word? (char :: chars) = some datum)
    (apart : standsApart rest = true) :
    first? char (chars ++ rest) = some (.plain datum, rest) := by
  obtain ⟨taken, dropped⟩ := span_apart alpha (apart_alpha apart)
  simp [first?, unmarked, unquoted, letter, taken, dropped, known]

theorem first_int {number : Int} (fits : isMachineInt number = true) :
    ∃ char chars, Decimal.ofInt number = char :: chars ∧ isSpace char = false ∧
      ∀ rest, standsApart rest = true →
        first? char (chars ++ rest) = some (.plain (.int number), rest) := by
  obtain ⟨literal, read, whole⟩ := read_literal_int fits
  have numeral : ∀ {digits : Nat}, ∀ char ∈ Decimal.digits digits, isNumeralChar char = true := by
    intro digits char inside
    simp [isNumeralChar, is_digit_of_mem inside]
  cases number with
  | negSucc below =>
      refine ⟨'-', _, rfl, rfl, fun rest apart => ?_⟩
      rw [← whole]
      exact first_number (.inl rfl) numeral read apart
  | ofNat magnitude =>
      obtain ⟨char, chars, same⟩ := List.exists_cons_of_ne_nil (digits_ne_nil magnitude)
      have inside : ∀ other ∈ char :: chars, other ∈ Decimal.digits magnitude := by simp [same]
      have digit := is_digit_of_mem (inside char List.mem_cons_self)
      refine ⟨char, chars, same, space_of_digit digit, fun rest apart => ?_⟩
      rw [← whole]
      refine first_number (.inr digit) ?_ (same ▸ read) apart
      exact fun other later => numeral other (inside other (List.mem_cons_of_mem _ later))

/-! One word after another. -/

theorem read_pieces_shorter {chars after : List Char} {pieces : List Piece}
    (read : readPieces chars = some (pieces, after)) : after.length ≤ chars.length := by
  fun_induction readPieces chars generalizing pieces with
  | case1 => cases read
  | case2 => simp_all
  | case3 first second third fourth rest ih =>
      obtain ⟨code, -, read⟩ := Option.bind_eq_some_iff.mp read
      obtain ⟨⟨others, last⟩, read, same⟩ := Option.bind_eq_some_iff.mp read
      cases same
      have shorter := ih read
      simp only [List.length_cons]
      omega
  | case4 letter rest _ ih =>
      obtain ⟨char, -, read⟩ := Option.bind_eq_some_iff.mp read
      obtain ⟨⟨others, last⟩, read, same⟩ := Option.bind_eq_some_iff.mp read
      cases same
      have shorter := ih read
      simp only [List.length_cons]
      omega
  | case5 => cases read
  | case6 char rest _ _ _ _ ih =>
      obtain ⟨⟨others, last⟩, read, same⟩ := Option.bind_eq_some_iff.mp read
      cases same
      have shorter := ih read
      simp only [List.length_cons]
      omega

theorem drop_while_shorter (passed : Char → Bool) (chars : List Char) :
    (chars.dropWhile passed).length ≤ chars.length := (List.dropWhile_sublist passed).length_le

theorem first_shorter {char : Char} {rest after : List Char} {token : Token}
    (first : first? char rest = some (token, after)) : after.length ≤ rest.length := by
  unfold first? at first
  split at first
  · cases first
    exact Nat.le_refl _
  · split at first
    · obtain ⟨⟨pieces, last⟩, read, same⟩ := Option.bind_eq_some_iff.mp first
      cases same
      exact read_pieces_shorter read
    · split at first
      all_goals
        obtain ⟨_, -, same⟩ := Option.bind_eq_some_iff.mp first
        cases same
        exact drop_while_shorter _ rest

/-- With at least as much fuel as there are characters it makes no difference how much. -/
theorem tokens_within {fuel : Nat} {chars : List Char} (enough : chars.length ≤ fuel) :
    tokensWithin fuel chars = tokens chars := by
  have alike : ∀ (length first second : Nat) (chars : List Char), chars.length ≤ length →
      length ≤ first → length ≤ second → tokensWithin first chars = tokensWithin second chars := by
    intro length
    induction length with
    | zero =>
        intro first second chars empty _ _
        obtain rfl := List.length_eq_zero_iff.mp (Nat.le_zero.mp empty)
        simp only [tokensWithin]
    | succ length ih =>
        intro first second chars fits more most
        match first, second, chars with
        | _, _, [] => simp only [tokensWithin]
        | first + 1, second + 1, char :: rest =>
            have fits : rest.length ≤ length := by simpa using fits
            rw [tokensWithin, tokensWithin, ih first second rest fits (by omega) (by omega)]
            split
            · rfl
            · cases begun : first? char rest with
              | none => rfl
              | some next =>
                  obtain ⟨token, after⟩ := next
                  have shorter := first_shorter begun
                  simp only [Option.bind_eq_bind, Option.bind_some]
                  rw [ih first second after (by omega) (by omega) (by omega)]
  exact alike chars.length fuel chars.length chars (Nat.le_refl _) enough (Nat.le_refl _)

theorem tokens_nil : tokens [] = some [] := rfl

theorem tokens_space {char : Char} (space : isSpace char = true) (rest : List Char) :
    tokens (char :: rest) = tokens rest := by
  rw [tokens, List.length_cons, tokensWithin, if_pos space]
  rfl

theorem tokens_first {char : Char} {rest after : List Char} {token : Token}
    (unspaced : isSpace char = false) (first : first? char rest = some (token, after)) :
    tokens (char :: rest) = (tokens after).map (token :: ·) := by
  rw [tokens, List.length_cons, tokensWithin, unspaced, if_neg Bool.false_ne_true, first]
  simp only [Option.bind_eq_bind, Option.bind_some]
  rw [tokens_within (first_shorter first)]
  cases tokens after <;> rfl

theorem tokens_mark {char : Char} {token : Token} (unspaced : isSpace char = false)
    (mark : mark? char = some token) (rest : List Char) :
    tokens (char :: rest) = (tokens rest).map (token :: ·) := by
  apply tokens_first unspaced
  rw [first?, mark]

theorem tokens_text (text : String) (rest : List Char) :
    tokens (quoted text ++ rest) = (tokens rest).map (.text (some text) :: ·) := by
  have first := first_text text rest
  rw [quoted, List.append_assoc]
  exact tokens_first rfl first

theorem tokens_int {number : Int} (fits : isMachineInt number = true) {rest : List Char}
    (apart : standsApart rest = true) :
    tokens (Decimal.ofInt number ++ rest) =
      (tokens rest).map (.plain (.int number) :: ·) := by
  obtain ⟨char, chars, same, unspaced, first⟩ := first_int fits
  rw [same]
  exact tokens_first unspaced (first rest apart)

end BehaviorTree.Json
