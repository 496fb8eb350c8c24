import GraphQL.Document.Grammar
import GraphQL.Leaf
import GraphQL.Proofs.Rounding
import Mathlib.Tactic.IntervalCases

/-!
A literal and the plain value that it stands for are read alike. A leaf type reads a literal by its
text and a plain value by what it is; the two agree wherever the text is no more than the value,
which leaves out minus zero, numbers that are too large, and numerals that are too long.
-/

namespace GraphQL

namespace Text

theorem asciiDigit?_digitChar {d : Nat} (small : d < 10) :
    asciiDigit? (Nat.digitChar d) = some d := by
  interval_cases d <;> rfl

theorem digitValue?_digitChar {d : Nat} (small : d < 10) :
    digitValue? (Nat.digitChar d) = some d := by
  interval_cases d <;> rfl

theorem eq_digitChar_of_isAsciiDigit {c : Char} (digit : isAsciiDigit c = true) :
    ∃ d < 10, c = Nat.digitChar d := by
  obtain ⟨d, read⟩ := Option.isSome_iff_exists.1 digit
  have small := asciiDigit?_lt read
  refine ⟨d, small, ?_⟩
  simp only [asciiDigit?] at read
  split at read
  · next bounds =>
      have upper : c.toNat ≤ '9'.toNat := bounds.2
      have lower : '0'.toNat ≤ c.toNat := bounds.1
      have code : c.toNat = d + 48 := by
        have := Option.some.inj read
        have zero : '0'.toNat = 48 := rfl
        omega
      rw [← Char.ofNat_toNat c, code]
      interval_cases d <;> rfl
  · cases read

theorem mem_toDigits {n : Nat} {c : Char} (member : c ∈ Nat.toDigits 10 n) :
    ∃ d < 10, c = Nat.digitChar d := by
  induction n using Nat.strongRecOn with
  | ind n ih =>
      rw [Nat.toDigits_eq_if (by norm_num)] at member
      split at member
      · next small => exact ⟨n, small, List.mem_singleton.1 member⟩
      · rcases List.mem_append.1 member with earlier | last
        · exact ih (n / 10) (by omega) earlier
        · exact ⟨n % 10, Nat.mod_lt n (by norm_num), List.mem_singleton.1 last⟩

theorem ofDigits_toDigits {read : Char → Option Nat}
    (each : ∀ d < 10, read (Nat.digitChar d) = some d) (n : Nat) :
    ofDigits ((Nat.toDigits 10 n).filterMap read) = n := by
  induction n using Nat.strongRecOn with
  | ind n ih =>
      rw [Nat.toDigits_eq_if (by norm_num)]
      split
      · next small => simp [each n small, ofDigits]
      · have last : n % 10 < 10 := Nat.mod_lt n (by norm_num)
        rw [List.filterMap_append, List.filterMap_cons, each _ last, List.filterMap_nil,
          ofDigits_append_singleton, ih (n / 10) (by omega)]
        omega

theorem exists_toDigits {digits : List Char} (nonempty : digits ≠ [])
    (each : ∀ c ∈ digits, isAsciiDigit c = true)
    (leading : ∀ rest, digits = '0' :: rest → rest = []) :
    ∃ n, digits = Nat.toDigits 10 n := by
  induction digits using List.reverseRecOn with
  | nil => exact absurd rfl nonempty
  | append_singleton front last ih =>
      obtain ⟨d, small, rfl⟩ := eq_digitChar_of_isAsciiDigit (each last (by simp))
      cases front with
      | nil => exact ⟨d, (Nat.toDigits_of_lt_base small).symm⟩
      | cons first rest =>
          have nonzero : first ≠ '0' := by
            rintro rfl
            have := leading (rest ++ [Nat.digitChar d]) rfl
            simp at this
          obtain ⟨n, same⟩ := ih (by simp) (fun c member => each c (List.mem_append_left _ member))
            fun later here => absurd (List.cons.inj here).1 nonzero
          have positive : 0 < n := by
            rcases Nat.eq_zero_or_pos n with rfl | positive
            · exact absurd (List.cons.inj same).1 nonzero
            · exact positive
          refine ⟨10 * n + d, ?_⟩
          rw [same, ← Nat.toDigits_append_toDigits (by norm_num) positive small,
            Nat.toDigits_of_lt_base small]

end Text

namespace Numeral

theorem takeDigits_of_digits {cs : List Char} (each : ∀ c ∈ cs, ∃ d < 10, c = Nat.digitChar d) :
    takeDigits cs = (cs.filterMap Text.digitValue?, []) := by
  induction cs with
  | nil => rfl
  | cons c rest ih =>
      obtain ⟨d, small, rfl⟩ := each c (by simp)
      simp [takeDigits, Text.digitValue?_digitChar small,
        ih fun c member => each c (List.mem_cons_of_mem _ member)]

theorem takeSign_toDigits (negative : Bool) (n : Nat) :
    takeSign (Decimal.signText negative ++ Nat.toDigits 10 n) = (negative, Nat.toDigits 10 n) := by
  cases negative with
  | true => rfl
  | false =>
      change takeSign (Nat.toDigits 10 n) = (false, Nat.toDigits 10 n)
      cases digits : Nat.toDigits 10 n with
      | nil => rfl
      | cons c rest =>
          obtain ⟨d, small, rfl⟩ := Text.mem_toDigits (n := n) (c := c) (by simp [digits])
          interval_cases d <;> rfl

theorem ofChars?_toDigits (negative : Bool) (n : Nat) :
    ofChars? (Decimal.signText negative ++ Nat.toDigits 10 n)
      = some ⟨negative, (Nat.toDigits 10 n).filterMap Text.digitValue?, [], 0⟩ := by
  have digits := takeDigits_of_digits fun c member => Text.mem_toDigits (n := n) member
  have some_ : ((Nat.toDigits 10 n).filterMap Text.digitValue?).isEmpty = false := by
    cases shown : Nat.toDigits 10 n with
    | nil => exact absurd shown Nat.toDigits_ne_nil
    | cons c rest =>
        obtain ⟨d, small, rfl⟩ := Text.mem_toDigits (n := n) (c := c) (by simp [shown])
        simp [Text.digitValue?_digitChar small]
  rw [ofChars?, scan?, takeSign_toDigits]
  simp only [digits, takeFraction, takeExponent, some_]
  rfl

end Numeral

namespace Literal

/-- An integer as the grammar has it: digits, of which the first is a zero only if it is the last
one too, and perhaps a minus in front. -/
def IsInteger (numeral : String) : Prop :=
  ∃ (negative : Bool) (digits : List Char),
    numeral = String.ofList (Decimal.signText negative ++ digits) ∧ digits ≠ []
      ∧ (∀ c ∈ digits, Text.isAsciiDigit c = true) ∧ ∀ rest, digits = '0' :: rest → rest = []

/-- The text of an integer literal is one of the grammar. -/
def IsLexical : Literal → Prop
  | int _ numeral => IsInteger numeral
  | _ => True

theorem IsInteger.exists_number {numeral : String} (integer : IsInteger numeral) :
    ∃ negative n, numeral = String.ofList (Decimal.signText negative ++ Nat.toDigits 10 n) := by
  obtain ⟨negative, digits, same, nonempty, each, leading⟩ := integer
  obtain ⟨n, rfl⟩ := Text.exists_toDigits nonempty each leading
  exact ⟨negative, n, same⟩

end Literal

theorem ok_of_bind {first : Except ε α} {next : α → Except ε β} {last : β}
    (ran : first >>= next = .ok last) : ∃ value, first = .ok value ∧ next value = .ok last := by
  cases first with
  | error fault => cases ran
  | ok value => exact ⟨value, rfl, ran⟩

namespace Token

theorem digits_spec {cursor after : Cursor} {front : List Char}
    (read : digits cursor = .ok (front, after)) :
    front = cursor.rest.takeWhile Text.isAsciiDigit ∧ front ≠ [] := by
  change (if (cursor.rest.takeWhile Text.isAsciiDigit).isEmpty = true
    then cursor.fail (.digitExpected cursor.rest.head?)
    else .ok (cursor.rest.takeWhile Text.isAsciiDigit, _)) = _ at read
  by_cases none : (cursor.rest.takeWhile Text.isAsciiDigit).isEmpty = true
  · rw [if_pos none] at read
    cases read
  · rw [if_neg none] at read
    cases read
    exact ⟨rfl, fun empty => none (by rw [empty]; rfl)⟩

theorem integerPart_spec {cursor after : Cursor} {whole : List Char}
    (read : integerPart cursor = .ok (whole, after)) :
    whole ≠ [] ∧ (∀ c ∈ whole, Text.isAsciiDigit c = true)
      ∧ ∀ rest, whole = '0' :: rest → rest = [] := by
  have zero : ∀ c ∈ ['0'], Text.isAsciiDigit c = true := List.forall_mem_singleton.2 rfl
  unfold integerPart at read
  split at read
  · split at read
    · split at read
      · cases read
      · cases read
        exact ⟨by simp, zero, fun rest same => (List.cons.inj same).2.symm⟩
    · cases read
      exact ⟨by simp, zero, fun rest same => (List.cons.inj same).2.symm⟩
  · next other =>
      obtain ⟨rfl, nonempty⟩ := digits_spec read
      refine ⟨nonempty, fun c member => ?_, fun rest same => ?_⟩
      · exact List.all_eq_true.1 (List.all_takeWhile ..) c member
      · cases shown : cursor.rest with
        | nil => simp [shown] at same
        | cons c later =>
            rw [shown, List.takeWhile_cons] at same
            split at same
            · obtain ⟨rfl, _⟩ := List.cons.inj same
              exact absurd shown (other later)
            · cases same

theorem number_spec {cursor after : Cursor} {token : Token}
    (read : number cursor = .ok (token, after)) :
    ∃ (negative : Bool) (whole fraction exponent : List Char) (start rest : Cursor),
      integerPart start = .ok (whole, rest)
        ∧ token.kind = (if fraction.isEmpty && exponent.isEmpty then .int else .float)
        ∧ token.value = some (String.ofList
            (Decimal.signText negative ++ whole ++ fraction ++ exponent)) := by
  have signed : ∃ negative,
      (if (cursor.takeWhile (· == '-')).1.isEmpty = true
        then ((cursor.takeWhile (· == '-')).1, (cursor.takeWhile (· == '-')).2)
        else (['-'], cursor.drop 1)).1 = Decimal.signText negative := by
    split
    · next none => exact ⟨false, List.isEmpty_iff.1 none⟩
    · exact ⟨true, rfl⟩
  obtain ⟨negative, signed⟩ := signed
  unfold number at read
  obtain ⟨⟨whole, rest⟩, digits, read⟩ := ok_of_bind read
  obtain ⟨⟨fraction, afterFraction⟩, _, read⟩ := ok_of_bind read
  obtain ⟨⟨exponent, behind⟩, _, read⟩ := ok_of_bind read
  refine ⟨negative, whole, fraction, exponent, _, rest, digits, ?_⟩
  rw [← signed]
  dsimp only at read
  split at read
  · split at read
    · cases read
    · cases read
      exact ⟨rfl, rfl⟩
  · cases read
    exact ⟨rfl, rfl⟩

/-- The lexer takes for integers what the grammar does. -/
theorem isInteger_of_number {cursor after : Cursor} {token : Token}
    (read : number cursor = .ok (token, after)) (kind : token.kind = .int) :
    ∃ numeral, token.value = some numeral ∧ Literal.IsInteger numeral := by
  obtain ⟨negative, whole, fraction, exponent, start, rest, digits, sort, value⟩ := number_spec read
  rw [sort] at kind
  split at kind
  · next none =>
      rw [Bool.and_eq_true, List.isEmpty_iff, List.isEmpty_iff] at none
      obtain ⟨rfl, rfl⟩ := none
      refine ⟨_, value, negative, whole, ?_, integerPart_spec digits⟩
      rw [List.append_nil, List.append_nil]
  · cases kind

/-- An integer token holds an integer. -/
def IsLexed (token : Token) : Prop :=
  token.kind = .int → ∃ numeral, token.value = some numeral ∧ Literal.IsInteger numeral

theorem isLexed_of_next {cursor after : Cursor} {token : Token}
    (read : next cursor = .ok (token, after)) : token.IsLexed := by
  intro kind
  unfold next here at read
  split at read
  · cases read
    cases kind
  · next c rest _ =>
      split at read
      · next mark shown =>
          cases read
          have : ∀ mark, TokenKind.ofChar? c = some mark → mark ≠ .int := by
            intro mark shown same
            unfold TokenKind.ofChar? at shown
            split at shown <;> simp_all
          exact absurd kind (this mark shown)
      · split at read
        · exact isInteger_of_number read kind
        · split at read
          · cases read
            cases kind
          · split at read
            · cases read
              cases kind
            · obtain ⟨_, _, read⟩ := ok_of_bind read
              cases read
              cases kind
            · obtain ⟨_, _, read⟩ := ok_of_bind read
              cases read
              cases kind
            · cases read
            · cases read

end Token

namespace Grammar

theorem ok_of_bind {first : Rule α} {next : α → Rule β} {position after : Position} {last : β}
    (ran : (first >>= next) position = .ok (last, after)) :
    ∃ value there, first position = .ok (value, there) ∧ next value there = .ok (last, after) := by
  obtain ⟨⟨value, there⟩, taken, rest⟩ := GraphQL.ok_of_bind ran
  exact ⟨value, there, taken, rest⟩

theorem exists_of_return {rule : Rule α} {make : α → β} {position after : Position} {made : β}
    (read : (do return make (← rule)) position = .ok (made, after)) : ∃ part, made = make part := by
  obtain ⟨part, there, _, same⟩ := ok_of_bind read
  cases same
  exact ⟨part, rfl⟩

theorem isLexical_of_literal {isConstant : Bool} {steps : Nat} {position after : Position}
    {made : Literal} (lexed : position.token.IsLexed)
    (read : literal isConstant steps position = .ok (made, after)) : made.IsLexical := by
  cases steps with
  | zero => cases read
  | succ steps =>
      rw [literal] at read
      obtain ⟨token, there, taken, read⟩ := ok_of_bind read
      cases taken
      generalize sort : position.token.kind = kind at read
      cases kind with
      | bracketLeft | braceLeft | float | string | blockString =>
          obtain ⟨_, rfl⟩ := exists_of_return read
          trivial
      | int =>
          obtain ⟨_, rfl⟩ := exists_of_return read
          obtain ⟨numeral, value, integer⟩ := lexed sort
          rw [value]
          exact integer
      | name =>
          obtain ⟨_, rfl⟩ := exists_of_return read
          unfold named
          split <;> trivial
      | dollar =>
          cases isConstant with
          | true =>
              obtain ⟨mark, _, _, read⟩ := ok_of_bind read
              obtain ⟨token, _, _, read⟩ := ok_of_bind read
              change (if token.kind = .name then _ else _ : Rule Literal) _ = _ at read
              split at read <;> cases read
          | false =>
              obtain ⟨_, _, _, read⟩ := ok_of_bind read
              obtain ⟨_, rfl⟩ := exists_of_return read
              trivial
      | _ => cases read

end Grammar

namespace Literal

/-- Whatever the grammar reads off a source is lexical. -/
theorem isLexical_of_parse {source : String} {literal : Literal}
    (read : parse source = .ok literal) : literal.IsLexical := by
  obtain ⟨⟨token, cursor⟩, first, read⟩ := ok_of_bind read
  obtain ⟨⟨made, after⟩, ran, same⟩ := ok_of_bind read
  cases same
  obtain ⟨value, there, read, rest⟩ := Grammar.ok_of_bind ran
  obtain ⟨_, _, _, same⟩ := Grammar.ok_of_bind rest
  cases same
  exact Grammar.isLexical_of_literal (Token.isLexed_of_next first) read

theorem readInt_number (negative : Bool) (n : Nat) :
    readInt (String.ofList (Decimal.signText negative ++ Nat.toDigits 10 n))
      = if maxDigits < (Nat.toDigits 10 n).length then
          .error (.longNumeral (Nat.toDigits 10 n).length)
        else .ok (if negative then -(n : Int) else n) := by
  have digits : Text.ofDigits ((Nat.toDigits 10 n).filterMap Text.asciiDigit?) = n :=
    Text.ofDigits_toDigits (fun _ small => Text.asciiDigit?_digitChar small) n
  simp only [readInt, String.toList_ofList, Numeral.takeSign_toDigits, digits]

theorem readFloat_number (negative : Bool) (n : Nat) :
    readFloat (String.ofList (Decimal.signText negative ++ Nat.toDigits 10 n))
      = .ofScientific negative n 0 := by
  have digits : Text.ofDigits ((Nat.toDigits 10 n).filterMap Text.digitValue?) = n :=
    Text.ofDigits_toDigits (fun _ small => Text.digitValue?_digitChar small) n
  simp [readFloat, Numeral.ofChars?_toDigits, Numeral.toBinary64, Numeral.coefficient,
    Numeral.scale, digits]

theorem number_eq_minus_zero_iff (negative : Bool) (n : Nat) :
    String.ofList (Decimal.signText negative ++ Nat.toDigits 10 n) = "-0"
      ↔ negative = true ∧ n = 0 := by
  constructor
  · intro same
    have digits : Decimal.signText negative ++ Nat.toDigits 10 n = ['-', '0'] :=
      String.ofList_injective same
    have value := Text.ofDigits_toDigits (fun _ small => Text.asciiDigit?_digitChar small) n
    cases negative with
    | false =>
        have minus : '-' ∈ Nat.toDigits 10 n := by
          change Nat.toDigits 10 n = _ at digits
          simp [digits]
        obtain ⟨d, small, same⟩ := Text.mem_toDigits minus
        interval_cases d <;> cases same
    | true =>
        have zero : Nat.toDigits 10 n = ['0'] := (List.cons.inj digits).2
        rw [zero] at value
        exact ⟨rfl, value.symm⟩
  · rintro ⟨rfl, rfl⟩
    rfl

/-- A number is written as it is spelled, save that there is no minus zero. -/
theorem toString_number_iff (negative : Bool) (n : Nat) :
    toString (if negative then -(n : Int) else n)
        = String.ofList (Decimal.signText negative ++ Nat.toDigits 10 n)
      ↔ ¬(negative = true ∧ n = 0) := by
  cases negative with
  | false => exact iff_of_true rfl fun minus => Bool.false_ne_true minus.1
  | true =>
      cases n with
      | zero => exact iff_of_false (by decide) fun nonzero => nonzero ⟨rfl, rfl⟩
      | succ m =>
          have signed : toString (-((m + 1 : Nat) : Int))
              = "-" ++ String.ofList (Nat.toDigits 10 (m + 1)) := rfl
          refine iff_of_true (signed.trans (String.ofList_append ..).symm) ?_
          rintro ⟨-, zero⟩
          cases zero

end Literal

namespace Binary64

/-- Whole numbers whose numeral is read as a finite number are converted to that number. -/
theorem ofInt_eq_ofScientific {negative : Bool} {n : Nat} (nonzero : n ≠ 0)
    (finite : (ofScientific negative n 0).isFinite = true) :
    ofInt (if negative then -(n : Int) else n) = ofScientific negative n 0
      ∧ (Nat.toDigits 10 n).length ≤ Literal.maxDigits := by
  rw [ofScientific_of_nonzero negative nonzero] at finite ⊢
  by_cases far : 309 < Decimal.adjusted n 0
  · rw [if_pos far] at finite
    cases finite
  · have digits : 0 < (Nat.toDigits 10 n).length := Nat.length_toDigits_pos
    have order : Decimal.adjusted n 0 + 1 = (Nat.toDigits 10 n).length := by
      unfold Decimal.adjusted Decimal.digits
      omega
    have near : ¬Decimal.adjusted n 0 < -331 := by omega
    rw [if_neg far, if_neg near]
    constructor
    · have size : (if negative then -(n : Int) else n).natAbs = n := by
        cases negative <;> simp
      have sign : decide ((if negative then -(n : Int) else n) < 0) = negative := by
        cases negative with
        | false => simp
        | true => simpa using Nat.pos_of_ne_zero nonzero
      rw [ofInt, size, sign]
      simp
    · unfold Literal.maxDigits
      omega

end Binary64

/-- The literals of which a scalar makes something else than of the plain value. -/
def Standard.Strays : Standard → Literal → Value → Prop
  | .float, .int _ numeral, .float x _ => numeral = "-0" ∨ x.isFinite = false
  | .float, .float .., .float x _ => x.isFinite = false
  | .id, .int _ numeral, _ =>
    numeral = "-0" ∨ Literal.maxDigits < (Numeral.takeSign numeral.toList).2.length
  | _, _, _ => False

namespace Leaf

/-- Reads a literal as the plain value that it stands for. -/
def readUntyped (parse : Value → Outcome) (vars : Variables) (literal : Literal) : Outcome :=
  (liftFault (literal.untyped vars)).bind parse

theorem readUntyped_number (parse : Value → Outcome) (vars : Variables) (start : Nat)
    (negative : Bool) (n : Nat) :
    readUntyped parse vars
        (.int start (String.ofList (Decimal.signText negative ++ Nat.toDigits 10 n)))
      = if Literal.maxDigits < (Nat.toDigits 10 n).length then
          .error (.value (.longNumeral (Nat.toDigits 10 n).length))
        else parse (.int (if negative then -(n : Int) else n)) := by
  rw [readUntyped, Literal.untyped, Literal.readInt_number]
  split <;> rfl

theorem Int.readUntyped_of_literal {literal : Literal} {value : Value} (vars : Variables)
    (lexical : literal.IsLexical) (read : Int.parseLiteral literal = .ok value) :
    readUntyped Int.parseValue vars literal = .ok value := by
  cases literal with
  | int start numeral =>
      obtain ⟨negative, n, rfl⟩ := Literal.IsInteger.exists_number lexical
      obtain ⟨whole, number, small⟩ := ok_of_bind read
      rw [Literal.readInt_number] at number
      rw [readUntyped_number]
      by_cases long : Literal.maxDigits < (Nat.toDigits 10 n).length
      · rw [if_pos long] at number
        cases number
      · rw [if_neg long] at number ⊢
        obtain rfl : _ = whole := Except.ok.inj number
        generalize (if negative = true then -(n : Int) else n) = whole at small ⊢
        split at small
        · next within =>
            cases small
            exact if_pos within
        · cases small
  | _ => cases read

theorem Float.finite_of_parseValue {value : Value} {x : Binary64} {mark : Nat}
    (read : Float.parseValue value = .ok (.float x mark)) : x.isFinite = true := by
  unfold Float.parseValue at read
  split at read
  · dsimp only at read
    split at read
    · next finite =>
        cases read
        exact finite
    · cases read
  · split at read
    · next finite =>
        cases read
        exact finite
    · cases read
  · cases read

theorem Float.readUntyped_iff_of_literal {literal : Literal} {value : Value} (vars : Variables)
    (lexical : literal.IsLexical) (read : Float.parseLiteral literal = .ok value) :
    readUntyped Float.parseValue vars literal = .ok value
      ↔ ¬Standard.float.Strays literal value := by
  cases literal with
  | int start numeral =>
      obtain ⟨negative, n, rfl⟩ := Literal.IsInteger.exists_number lexical
      rw [Float.parseLiteral, Literal.readFloat_number] at read
      obtain rfl := Except.ok.inj read
      rw [readUntyped_number]
      change _ ↔ ¬(String.ofList _ = "-0" ∨ (Binary64.ofScientific negative n 0).isFinite = false)
      rw [Literal.number_eq_minus_zero_iff]
      by_cases zero : n = 0
      · subst zero
        cases negative with
        | false => exact iff_of_true rfl (by decide)
        | true => exact iff_of_false (fun same => by cases same) fun near => near (.inl ⟨rfl, rfl⟩)
      · rw [or_iff_right fun minus => zero minus.2]
        by_cases finite : (Binary64.ofScientific negative n 0).isFinite = true
        · obtain ⟨same, short⟩ := Binary64.ofInt_eq_ofScientific zero finite
          rw [if_neg (Nat.not_lt.2 short), Float.parseValue, same, if_pos finite]
          exact iff_of_true rfl (by simp [finite])
        · refine iff_of_false (fun read => ?_) fun near => near (by simpa using finite)
          split at read
          · cases read
          · exact finite (Float.finite_of_parseValue read)
  | float start numeral =>
      cases read
      change Float.parseValue (.ofFloat _) = _ ↔ ¬Binary64.isFinite _ = false
      rw [Bool.not_eq_false]
      exact ⟨Float.finite_of_parseValue, fun finite => if_pos finite⟩
  | _ => cases read

theorem Id.readUntyped_iff_of_literal {literal : Literal} {value : Value} (vars : Variables)
    (lexical : literal.IsLexical) (read : Id.parseLiteral literal = .ok value) :
    readUntyped Id.parseValue vars literal = .ok value
      ↔ ¬Standard.id.Strays literal value := by
  cases literal with
  | int start numeral =>
      obtain ⟨negative, n, rfl⟩ := Literal.IsInteger.exists_number lexical
      cases read
      rw [readUntyped_number, Standard.Strays, String.toList_ofList, Numeral.takeSign_toDigits]
      by_cases long : Literal.maxDigits < (Nat.toDigits 10 n).length
      · rw [if_pos long]
        exact iff_of_false (fun same => by cases same) fun near => near (.inr long)
      · rw [if_neg long, Id.parseValue, Except.ok.injEq, Value.str.injEq,
          or_iff_left long, Literal.toString_number_iff,
          Literal.number_eq_minus_zero_iff]
  | string start text block =>
      cases read
      exact iff_of_true rfl id
  | _ => cases read

theorem readUntyped_of_parseText {scalar : Standard} {parse : Value → Outcome} {literal : Literal}
    {value : Value} (vars : Variables) (read : parseText scalar parse literal = .ok value) :
    readUntyped parse vars literal = .ok value := by
  cases literal with
  | string start text block => exact read
  | _ => cases read

end Leaf

/-- A leaf makes of a literal what it makes of the plain value, unless it strays. -/
theorem Leaf.literals_are_read_as_values {literal : Literal} (lexical : literal.IsLexical)
    (vars : Variables) (value : Value) :
    (∀ scalar : Standard, scalar.parseLiteral literal = .ok value →
        (readUntyped scalar.parseValue vars literal = .ok value ↔ ¬scalar.Strays literal value))
      ∧ ∀ values : Table EnumValue, EnumValue.parseLiteral values literal = .ok value →
        readUntyped (EnumValue.parseValue values) vars literal = .ok value := by
  constructor
  · intro scalar read
    cases scalar with
    | int => exact iff_of_true (Int.readUntyped_of_literal vars lexical read) id
    | float => exact Float.readUntyped_iff_of_literal vars lexical read
    | string =>
        refine iff_of_true ?_ id
        cases literal with
        | string start text block => exact read
        | _ => cases read
    | boolean =>
        refine iff_of_true ?_ id
        cases literal with
        | boolean start b => exact read
        | _ => cases read
    | id => exact Id.readUntyped_iff_of_literal vars lexical read
    | date => exact iff_of_true (readUntyped_of_parseText vars read) id
    | dateTime => exact iff_of_true (readUntyped_of_parseText vars read) id
    | decimal => exact iff_of_true (readUntyped_of_parseText vars read) id
  · intro values read
    cases literal with
    | enum start name =>
        cases found : values.find? name with
        | none =>
            rw [EnumValue.parseLiteral, found] at read
            cases read
        | some own =>
            rw [EnumValue.parseLiteral, found] at read
            change EnumValue.parseValue values (.str name) = .ok value
            rw [EnumValue.parseValue, Value.string?, Option.bind_some, found]
            exact read
    | _ => cases read

/-- A small number is read alike as it is written and as what it is. -/
theorem Leaf.small_number_is_read_as_value :
    (Literal.int 0 "-17").IsLexical
      ∧ Standard.float.parseLiteral (.int 0 "-17") = .ok (.ofFloat (.ofInt (-17)))
      ∧ readUntyped Standard.float.parseValue [] (.int 0 "-17")
        = .ok (.ofFloat (.ofInt (-17))) := by
  have parsed : Literal.parse "-17" = .ok (.int 0 "-17") := by rfl
  have lexical := Literal.isLexical_of_parse parsed
  have read : Standard.float.parseLiteral (.int 0 "-17") = .ok (.ofFloat (.ofInt (-17))) := by rfl
  have near : ¬Standard.float.Strays (.int 0 "-17") (.ofFloat (.ofInt (-17))) := by
    change ¬("-17" = "-0" ∨ (Binary64.ofInt (-17)).isFinite = false)
    decide
  exact ⟨lexical, read, ((literals_are_read_as_values lexical [] _).1 .float read).2 near⟩

/-- An identifier keeps the minus of a zero, and a floating point literal may be infinite. -/
theorem Leaf.minus_zero_and_infinity_stray :
    Standard.id.parseLiteral (.int 0 "-0") = .ok (.str "-0")
      ∧ readUntyped Standard.id.parseValue [] (.int 0 "-0") = .ok (.str "0")
      ∧ Standard.float.parseLiteral (.float 0 "1e400") = .ok (.ofFloat (.infinite false))
      ∧ readUntyped Standard.float.parseValue [] (.float 0 "1e400")
        = .error (.leaf ⟨.parse, .nonNumeric "inf"⟩) :=
  ⟨by rfl, by rfl, by rfl, by rfl⟩

end GraphQL
